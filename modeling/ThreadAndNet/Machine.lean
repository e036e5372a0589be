import Mathlib.Algebra.GroupWithZero.Nat
import Mathlib.Logic.Function.Basic
import Mathlib.Data.List.Basic
import Mathlib.Tactic.TypeStar

/-!
# Runs of a labelled machine whose steps can fail

A machine is a step function from a state and a label to a new state or a
failure. A run takes its labels in order and stops at the first failure. The
labels carry every outside choice, so quantifying over lists of labels is
quantifying over all schedules and all answers of the environment.
-/

namespace Machine

universe u v w
variable {S : Type u} {A : Type v} {E : Type w}

/-- Take the labelled steps in order, stopping at the first failure. -/
def run (step : S → A → Except E S) : S → List A → Except E S
  | s, [] => .ok s
  | s, a :: rest =>
    match step s a with
    | .ok t => run step t rest
    | .error e => .error e

/-- Every step of the run meets `cond` in the state it is taken from. -/
def Along (step : S → A → Except E S) (cond : S → A → Prop) : S → List A → Prop
  | _, [] => True
  | s, a :: rest => cond s a ∧
    match step s a with
    | .ok t => Along step cond t rest
    | .error _ => True

/-- Every state of the run, the first and the last included, meets `good`. -/
def Throughout (step : S → A → Except E S) (good : S → Prop) : S → List A → Prop
  | s, [] => good s
  | s, a :: rest => good s ∧
    match step s a with
    | .ok t => Throughout step good t rest
    | .error _ => True

/-- What the steps of a run gain in all, each as much as the state it is taken from says. -/
def tally (step : S → A → Except E S) (gain : S → A → ℕ) : S → List A → ℕ
  | _, [] => 0
  | s, a :: rest => gain s a +
    match step s a with
    | .ok t => tally step gain t rest
    | .error _ => 0

instance decidableAlong (step : S → A → Except E S) (cond : S → A → Prop)
    [∀ s a, Decidable (cond s a)] : ∀ s labels, Decidable (Along step cond s labels)
  | _, [] => .isTrue trivial
  | s, a :: rest =>
    match h : step s a with
    | .ok t =>
      have := decidableAlong step cond t rest
      decidable_of_iff (cond s a ∧ Along step cond t rest) (by simp only [Along, h])
    | .error _ => decidable_of_iff (cond s a) (by simp only [Along, h, and_true])

/-- States reached by the runs all of whose steps meet `cond`. -/
def ReachesBy (step : S → A → Except E S) (cond : S → A → Prop) (s t : S) : Prop :=
  ∃ labels, Along step cond s labels ∧ run step s labels = .ok t

def Reaches (step : S → A → Except E S) (s t : S) : Prop :=
  ∃ labels, run step s labels = .ok t

section Runs
variable {step : S → A → Except E S} {cond : S → A → Prop}

@[simp] theorem run_nil (s : S) : run step s [] = .ok s := rfl

theorem run_cons_ok {s t : S} {a : A} (h : step s a = .ok t) (rest : List A) :
    run step s (a :: rest) = run step t rest := by
  simp only [run, h]

theorem run_cons_error {s : S} {a : A} {e : E} (h : step s a = .error e)
    (rest : List A) : run step s (a :: rest) = .error e := by
  simp only [run, h]

theorem run_cons_inv {s t : S} {a : A} {rest : List A}
    (h : run step s (a :: rest) = .ok t) :
    ∃ m, step s a = .ok m ∧ run step m rest = .ok t := by
  cases hs : step s a with
  | ok m => exact ⟨m, rfl, by simpa only [run, hs] using h⟩
  | error e => simp only [run, hs, reduceCtorEq] at h

theorem along_cons_ok {s t : S} {a : A} {rest : List A} (h : step s a = .ok t) :
    Along step cond s (a :: rest) ↔ cond s a ∧ Along step cond t rest := by
  simp only [Along, h]

theorem throughout_cons_ok {good : S → Prop} {s t : S} {a : A} {rest : List A}
    (h : step s a = .ok t) :
    Throughout step good s (a :: rest) ↔ good s ∧ Throughout step good t rest := by
  simp only [Throughout, h]

theorem Throughout.start {good : S → Prop} {s : S} {labels : List A}
    (h : Throughout step good s labels) : good s := by
  cases labels with
  | nil => exact h
  | cons a rest => exact h.1

/-- A condition on labels alone holds along every run over such labels. -/
theorem along_of_mem {labels : List A} (all : ∀ a ∈ labels, ∀ s, cond s a) (s : S) :
    Along step cond s labels := by
  induction labels generalizing s with
  | nil => trivial
  | cons a rest ih =>
    refine ⟨all a List.mem_cons_self s, ?_⟩
    cases step s a with
    | ok t => exact ih (fun b hb => all b (List.mem_cons_of_mem a hb)) t
    | error e => trivial

/-- For a run that succeeds the converse holds too. -/
theorem along_iff_mem {ok : A → Prop} {labels : List A} {s t : S}
    (h : run step s labels = .ok t) :
    Along step (fun _ a => ok a) s labels ↔ ∀ a ∈ labels, ok a := by
  refine ⟨fun along => ?_, fun all => along_of_mem (fun a mem _ => all a mem) s⟩
  induction labels generalizing s with
  | nil => exact nofun
  | cons a rest ih =>
    obtain ⟨m, hm, hrest⟩ := run_cons_inv h
    obtain ⟨first, later⟩ := (along_cons_ok hm).mp along
    rintro b (_ | ⟨_, mem⟩)
    · exact first
    · exact ih hrest later b mem

theorem Along.and {other : S → A → Prop} {labels : List A} {s : S}
    (h : Along step cond s labels) (h' : Along step other s labels) :
    Along step (fun s a => cond s a ∧ other s a) s labels := by
  induction labels generalizing s with
  | nil => trivial
  | cons a rest ih =>
    refine ⟨⟨h.1, h'.1⟩, ?_⟩
    have tail := h.2
    have tail' := h'.2
    cases hs : step s a with
    | ok t =>
      simp only [hs] at tail tail'
      exact ih tail tail'
    | error e => trivial

/-- What an invariant says about the steps of one kind holds along every run. -/
theorem Along.of_keeps {Inv : S → Prop} {safe : S → A → Prop}
    (keep : ∀ s a t, Inv s → cond s a → step s a = .ok t → Inv t)
    (holds : ∀ s a, Inv s → cond s a → safe s a)
    {labels : List A} {s : S} (start : Inv s) (h : Along step cond s labels) :
    Along step safe s labels := by
  induction labels generalizing s with
  | nil => trivial
  | cons a rest ih =>
    refine ⟨holds s a start h.1, ?_⟩
    have tail := h.2
    cases hs : step s a with
    | ok t =>
      simp only [hs] at tail
      exact ih (keep s a t start h.1 hs) tail
    | error e => trivial

/-- The induction rule: what every admitted step keeps, every admitted run keeps. -/
theorem run_keeps {Inv : S → Prop}
    (keep : ∀ s a t, Inv s → cond s a → step s a = .ok t → Inv t)
    {labels : List A} {s t : S} (start : Inv s) (admitted : Along step cond s labels)
    (h : run step s labels = .ok t) : Inv t := by
  induction labels generalizing s with
  | nil =>
    cases h
    exact start
  | cons a rest ih =>
    obtain ⟨m, hstep, hrest⟩ := run_cons_inv h
    obtain ⟨hcond, htail⟩ := (along_cons_ok hstep).mp admitted
    exact ih (keep s a m start hcond hstep) htail hrest

/-- What every step does to the state, in the sense of a preorder, a run does too. -/
theorem run_relates {R : S → S → Prop} (refl : ∀ s, R s s)
    (trans : ∀ {s t u}, R s t → R t u → R s u) {labels : List A}
    (steps : ∀ s a t, a ∈ labels → step s a = .ok t → R s t)
    {s t : S} (h : run step s labels = .ok t) : R s t := by
  induction labels generalizing s with
  | nil =>
    cases h
    exact refl _
  | cons a rest ih =>
    obtain ⟨m, hm, hrest⟩ := run_cons_inv h
    have first := steps s a m List.mem_cons_self hm
    exact trans first (ih (fun s b t mem => steps s b t (List.mem_cons_of_mem a mem)) hrest)

/-- What no step changes, a run leaves as it was. -/
theorem run_frame {V : Type*} (view : S → V) {labels : List A}
    (same : ∀ s a t, a ∈ labels → step s a = .ok t → view t = view s)
    {s t : S} (h : run step s labels = .ok t) : view t = view s :=
  run_relates (R := fun s t => view t = view s) (fun _ => rfl)
    (fun first later => later.trans first) same h

theorem ReachesBy.keeps {Inv : S → Prop}
    (keep : ∀ s a t, Inv s → cond s a → step s a = .ok t → Inv t)
    {s t : S} (h : ReachesBy step cond s t) (start : Inv s) : Inv t := by
  obtain ⟨labels, admitted, hrun⟩ := h
  exact run_keeps keep start admitted hrun

theorem Reaches.keeps {Inv : S → Prop}
    (keep : ∀ s a t, Inv s → step s a = .ok t → Inv t)
    {s t : S} (h : Reaches step s t) (start : Inv s) : Inv t := by
  obtain ⟨labels, hrun⟩ := h
  have admitted : Along step (fun _ _ => True) s labels :=
    along_of_mem (fun _ _ _ => trivial) s
  exact run_keeps (fun s a t hs _ => keep s a t hs) start admitted hrun

theorem run_append (first second : List A) (s : S) :
    run step s (first ++ second) =
      match run step s first with
      | .ok t => run step t second
      | .error e => .error e := by
  induction first generalizing s with
  | nil => rfl
  | cons a rest ih =>
    cases hs : step s a with
    | ok t =>
      rw [List.cons_append, run_cons_ok hs, run_cons_ok hs]
      exact ih t
    | error e => rw [List.cons_append, run_cons_error hs, run_cons_error hs]

/-- A run over labels made from others is a run over those. -/
theorem run_map {B : Type*} (f : B → A) (labels : List B) (s : S) :
    run step s (labels.map f) = run (fun s b => step s (f b)) s labels := by
  induction labels generalizing s with
  | nil => rfl
  | cons b rest ih =>
    cases hs : step s (f b) with
    | ok t =>
      simp only [List.map_cons, run, hs]
      exact ih t
    | error e =>
      simp only [List.map_cons, run, hs]

theorem Reaches.refl (s : S) : Reaches step s s := ⟨[], rfl⟩

theorem Reaches.one {s t : S} (a : A) (h : step s a = .ok t) : Reaches step s t :=
  ⟨[a], run_cons_ok h []⟩

theorem Reaches.trans {s t u : S} (first : Reaches step s t) (second : Reaches step t u) :
    Reaches step s u := by
  obtain ⟨labels, hfirst⟩ := first
  obtain ⟨more, hsecond⟩ := second
  refine ⟨labels ++ more, ?_⟩
  rw [run_append, hfirst]
  exact hsecond

/-- If `cond` decides where a step fails badly, then it decides which runs do. -/
theorem run_fails_iff {Inv : S → Prop} {admits : A → Prop} {bad : E → Prop}
    (keep : ∀ s a t, Inv s → step s a = .ok t → Inv t)
    (decides : ∀ s a, Inv s → admits a →
      ((∃ e, bad e ∧ step s a = .error e) ↔ ¬ cond s a))
    {labels : List A} (admitted : ∀ a ∈ labels, admits a) {s : S} (start : Inv s) :
    (∃ e, bad e ∧ run step s labels = .error e) ↔ ¬ Along step cond s labels := by
  induction labels generalizing s with
  | nil => simp [Along]
  | cons a rest ih =>
    have here := decides s a start (admitted a List.mem_cons_self)
    cases hs : step s a with
    | ok t =>
      have passes : cond s a := by
        by_contra h
        obtain ⟨e, _, failed⟩ := here.mpr h
        rw [hs] at failed
        cases failed
      have tail := ih (fun b hb => admitted b (List.mem_cons_of_mem a hb))
        (keep s a t start hs)
      rw [run_cons_ok hs, along_cons_ok hs, tail]
      exact ⟨fun h both => h both.2, fun h later => h ⟨passes, later⟩⟩
    | error e =>
      rw [run_cons_error hs, ← hs, here]
      simp only [Along, hs, and_true]

/-- If `cond` decides which steps keep a good state good, then it decides which runs do. -/
theorem throughout_iff_along {Inv good : S → Prop}
    (keep : ∀ s a t, Inv s → cond s a → step s a = .ok t → Inv t)
    (holds : ∀ s, Inv s → good s)
    (breaks : ∀ s a t, Inv s → ¬ cond s a → step s a = .ok t → ¬ good t)
    {labels : List A} {s t : S} (start : Inv s) (h : run step s labels = .ok t) :
    Throughout step good s labels ↔ Along step cond s labels := by
  induction labels generalizing s with
  | nil => exact iff_of_true (holds s start) trivial
  | cons a rest ih =>
    obtain ⟨m, hstep, hrest⟩ := run_cons_inv h
    rw [throughout_cons_ok hstep, along_cons_ok hstep]
    by_cases met : cond s a
    · rw [ih (keep s a m start met hstep) hrest]
      exact and_congr_left' (iff_of_true (holds s start) met)
    · refine iff_of_false ?_ (fun h => met h.1)
      exact fun h => breaks s a m start met hstep h.2.start

/-- If `cond` decides which steps are bad, then it decides which runs take no bad step; the
invariant may speak of the labels that are still to come. -/
theorem safe_iff_along {Inv : S → List A → Prop} {good : S → Prop} {bad : S → A → Prop}
    (keep : ∀ s a t rest, Inv s (a :: rest) → cond s a → step s a = .ok t → Inv t rest)
    (holds : ∀ s labels, Inv s labels → good s)
    (decides : ∀ s a rest, Inv s (a :: rest) → (bad s a ↔ ¬ cond s a))
    {labels : List A} {s : S} (start : Inv s labels) :
    Throughout step good s labels ∧ Along step (fun s a => ¬ bad s a) s labels ↔
      Along step cond s labels := by
  induction labels generalizing s with
  | nil => exact iff_of_true ⟨holds s [] start, trivial⟩ trivial
  | cons a rest ih =>
    have here := decides s a rest start
    have first := holds s (a :: rest) start
    by_cases met : cond s a
    · have passes : ¬ bad s a := fun fails => here.mp fails met
      cases hs : step s a with
      | error e =>
        simp only [Throughout, Along, hs, and_true]
        exact iff_of_true ⟨first, passes⟩ met
      | ok t =>
        rw [throughout_cons_ok hs, along_cons_ok hs, along_cons_ok hs,
          ← ih (keep s a t rest start met hs)]
        constructor
        · rintro ⟨⟨_, good⟩, _, none⟩
          exact ⟨met, good, none⟩
        · rintro ⟨_, good, none⟩
          exact ⟨⟨first, good⟩, passes, none⟩
    · exact iff_of_false (fun both => both.2.1 (here.mpr met)) (fun all => met all.1)

theorem Along.last {pre : List A} {s t : S} {a : A} (h : Along step cond s (pre ++ [a]))
    (ran : run step s pre = .ok t) : cond t a := by
  induction pre generalizing s with
  | nil =>
    cases ran
    exact h.1
  | cons b rest ih =>
    obtain ⟨m, hm, hrest⟩ := run_cons_inv ran
    exact ih ((along_cons_ok hm).mp h).2 hrest

theorem tally_cons_ok {gain : S → A → ℕ} {s t : S} {a : A} {rest : List A}
    (h : step s a = .ok t) :
    tally step gain s (a :: rest) = gain s a + tally step gain t rest := by
  simp only [tally, h]

/-- A gain of the labels alone is gained whatever the states are. -/
theorem tally_eq_sum (gain : A → ℕ) {labels : List A} {s t : S}
    (h : run step s labels = .ok t) :
    tally step (fun _ a => gain a) s labels = (labels.map gain).sum := by
  induction labels generalizing s with
  | nil => rfl
  | cons a rest ih =>
    obtain ⟨m, hm, hrest⟩ := run_cons_inv h
    rw [tally_cons_ok hm, ih hrest, List.map_cons, List.sum_cons]

/-- The rule for termination: the steps that cost pay out of `left`, and each step puts back no
more than it gains, so a run has no more of the former than `left` and the gains allow. -/
theorem run_pays_along {Inv : S → Prop} (left : S → ℕ) (costs : A → Bool) (gain : S → A → ℕ)
    (keep : ∀ s a t, Inv s → cond s a → step s a = .ok t → Inv t)
    (pays : ∀ s a t, Inv s → cond s a → step s a = .ok t →
      left t + (costs a).toNat ≤ left s + gain s a)
    {labels : List A} {s t : S} (start : Inv s) (admitted : Along step cond s labels)
    (h : run step s labels = .ok t) :
    left t + labels.countP costs ≤ left s + tally step gain s labels := by
  induction labels generalizing s with
  | nil =>
    cases h
    exact Nat.le_refl _
  | cons a rest ih =>
    obtain ⟨m, hm, hrest⟩ := run_cons_inv h
    obtain ⟨here, admitted⟩ := (along_cons_ok hm).mp admitted
    have first := pays s a m start here hm
    have later := ih (keep s a m start here hm) admitted hrest
    have unit : ∀ b : Bool, (if b then 1 else 0) = b.toNat := by decide
    rw [List.countP_cons, unit, tally_cons_ok hm]
    omega

/-- The same where it depends on the labels alone which steps are taken and what they gain. -/
theorem run_pays {Inv : S → Prop} (left : S → ℕ) (costs : A → Bool) (gain : A → ℕ)
    {labels : List A}
    (keep : ∀ s a t, a ∈ labels → Inv s → step s a = .ok t → Inv t)
    (pays : ∀ s a t, a ∈ labels → Inv s → step s a = .ok t →
      left t + (costs a).toNat ≤ left s + gain a)
    {s t : S} (start : Inv s) (h : run step s labels = .ok t) :
    left t + labels.countP costs ≤ left s + (labels.map gain).sum := by
  rw [← tally_eq_sum gain h]
  exact run_pays_along left costs (fun _ a => gain a) (fun s a t inv mem => keep s a t mem inv)
    (fun s a t inv mem => pays s a t mem inv) start (along_of_mem (fun a mem _ => mem) s) h

/-- The rule for progress: until the goal is reached the steps that cost pay out of `left`. -/
theorem run_until {Inv goal : S → Prop} (left : S → ℕ) (costs : A → Bool) {labels : List A}
    (stays : ∀ s a t, a ∈ labels → goal s → step s a = .ok t → goal t)
    (pays : ∀ s a t, a ∈ labels → Inv s → step s a = .ok t →
      goal t ∨ Inv t ∧ left t + (costs a).toNat ≤ left s)
    {s t : S} (start : Inv s) (h : run step s labels = .ok t) :
    goal t ∨ Inv t ∧ left t + labels.countP costs ≤ left s := by
  induction labels generalizing s with
  | nil =>
    cases h
    exact .inr ⟨start, Nat.le_refl _⟩
  | cons a rest ih =>
    obtain ⟨m, hm, hrest⟩ := run_cons_inv h
    rcases pays s a m List.mem_cons_self start hm with there | ⟨inv, paid⟩
    · have later : Along step (fun _ b => b ∈ rest) m rest :=
        along_of_mem (fun b mem _ => mem) m
      left
      refine run_keeps (fun s b t goal mem => ?_) there later hrest
      exact stays s b t (List.mem_cons_of_mem a mem) goal
    · have later := ih (fun s b t mem => stays s b t (List.mem_cons_of_mem a mem))
        (fun s b t mem => pays s b t (List.mem_cons_of_mem a mem)) inv hrest
      refine later.imp_right fun ⟨inv, later⟩ => ⟨inv, ?_⟩
      have unit : ∀ b : Bool, (if b then 1 else 0) = b.toNat := by decide
      rw [List.countP_cons, unit]
      omega

/-- The rule for a queue that only some steps take from, and then the front: once so many of
them were made as there are entries before an entry, one has found it in front. -/
theorem run_serves {X : Type*} (queue : S → List X) (takes : A → Bool)
    (fifo : ∀ s a t, step s a = .ok t →
      (if takes a then (queue s).tail else queue s) <+: queue t)
    {labels : List A} {s t : S} {ahead : List X} {x : X} (waits : ahead ++ [x] <+: queue s)
    (enough : ahead.length < labels.countP takes) (h : run step s labels = .ok t) :
    ∃ m a n, Reaches step s m ∧ takes a = true ∧ (queue m).head? = some x ∧
      step m a = .ok n ∧ Reaches step n t := by
  induction labels generalizing s ahead with
  | nil => cases enough
  | cons a rest ih =>
    obtain ⟨m, first, later⟩ := run_cons_inv h
    have kept := fifo s a m first
    cases front : takes a with
    | false =>
      rw [front] at kept
      rw [List.countP_cons_of_neg (by simp [front])] at enough
      obtain ⟨m', b, n, before, rest⟩ := ih (waits.trans kept) enough later
      exact ⟨m', b, n, (Reaches.one a first).trans before, rest⟩
    | true =>
      rw [front, if_pos rfl] at kept
      rw [List.countP_cons_of_pos (by simp [front])] at enough
      cases ahead with
      | nil =>
        obtain ⟨more, is_queue⟩ := waits
        exact ⟨s, a, m, .refl s, front, by rw [← is_queue]; rfl, first, ⟨rest, later⟩⟩
      | cons y ahead =>
        have waits : ahead ++ [x] <+: (queue s).tail := by
          obtain ⟨more, is_queue⟩ := waits
          exact ⟨more, by rw [← is_queue]; rfl⟩
        obtain ⟨m', b, n, before, rest⟩ :=
          ih (waits.trans kept) (Nat.lt_of_succ_lt_succ enough) later
        exact ⟨m', b, n, (Reaches.one a first).trans before, rest⟩

/-- A run on fixed labels can be evaluated together with what it should lead to. -/
theorem ok_of_any {o : Except E S} {p : S → Bool} (h : o.toOption.any p) :
    ∃ s, o = .ok s ∧ p s := by
  cases o with
  | error e => cases h
  | ok s => exact ⟨s, rfl, h⟩

end Runs

/-! ## Functions that return what they did besides their result -/

section Effects
variable {T : Type*} {C : Type*}

/-- Run `f` on what `o` left behind; the calls of both are made in order. -/
def andThen (o : Except E (S × List C)) (f : S → Except E (T × List C)) :
    Except E (T × List C) :=
  match o with
  | .error e => .error e
  | .ok (s, calls) =>
    match f s with
    | .error e => .error e
    | .ok (t, more) => .ok (t, calls ++ more)

variable {o : Except E (S × List C)} {f : S → Except E (T × List C)}

theorem andThen_start (s : S) : andThen (.ok (s, [])) f = f s := by
  cases h : f s with
  | error e => simp only [andThen, h]
  | ok r => simp only [andThen, h, List.nil_append]

theorem andThen_pure (o : Except E (S × List C)) : andThen o (fun s => .ok (s, [])) = o := by
  cases o with
  | error e => rfl
  | ok r => simp only [andThen, List.append_nil]

theorem andThen_cases {t : T} {calls : List C} (h : andThen o f = .ok (t, calls)) :
    ∃ s first second, o = .ok (s, first) ∧ f s = .ok (t, second) ∧
      calls = first ++ second := by
  cases o with
  | error e => simp only [andThen, reduceCtorEq] at h
  | ok r =>
    obtain ⟨s, first⟩ := r
    cases hf : f s with
    | error e => simp only [andThen, hf, reduceCtorEq] at h
    | ok u =>
      obtain ⟨t', second⟩ := u
      simp only [andThen, hf, Except.ok.injEq, Prod.mk.injEq] at h
      obtain ⟨rfl, rfl⟩ := h
      exact ⟨s, first, second, rfl, hf, rfl⟩

theorem andThen_eq_error {e : E} :
    andThen o f = .error e ↔
      o = .error e ∨ ∃ s first, o = .ok (s, first) ∧ f s = .error e := by
  cases o with
  | error e' => simp [andThen]
  | ok r =>
    obtain ⟨s, first⟩ := r
    cases hf : f s with
    | error e' => simp [andThen, hf]
    | ok u => simp [andThen, hf]

end Effects

end Machine
