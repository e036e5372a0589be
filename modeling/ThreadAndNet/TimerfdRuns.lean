import ThreadAndNet.Timerfd
import ThreadAndNet.TimerRuns
import Mathlib.Tactic.SplitIfs

/-!
# When the descriptor is readable

The descriptor is set exactly when a timer is inserted before all others. So what it
was set to last is never later than any timer, and no timer is stranded. Only being
set again makes it unreadable: a read after which nothing comes first leaves it so.
-/

namespace ZDQ

open Machine

namespace TimeQueue

/-- Some timer in `timers_` expires then. -/
def Has (q : TimeQueue) (when : ℤ) : Prop := ∃ e ∈ q.timers.toList, e.time = when

def IsEarliest (q : TimeQueue) (when : ℤ) : Prop := q.Has when ∧ ∀ t, q.Has t → when ≤ t

/-- One of these expirations comes before all timers of the queue. -/
def Beaten (q : TimeQueue) (times : List ℤ) : Prop := ∃ x ∈ times, ∀ t, q.Has t → x < t

/-! ## Insertions -/

/-- What inserting timers with these expirations does to a queue. -/
structure Grown (q r : TimeQueue) (times : List ℤ) : Prop where
  has : ∀ t, r.Has t ↔ q.Has t ∨ t ∈ times
  set : q.Beaten times → ∃ before last, r.settings = q.settings ++ before ++ [last] ∧
    r.IsEarliest last
  unset : ¬ q.Beaten times → r.settings = q.settings

theorem Grown.of_same {q r : TimeQueue} (timers : r.timers = q.timers)
    (settings : r.settings = q.settings) : Grown q r [] := by
  refine ⟨?_, ?_, fun _ => settings⟩
  · intro t
    simp [Has, timers]
  · rintro ⟨x, mem, _⟩
    cases mem

/-- Timers that do not come first before or after the others do not come first. -/
theorem Grown.beaten_append {q r : TimeQueue} {xs ys : List ℤ} (h : Grown q r xs) :
    q.Beaten (xs ++ ys) ↔ q.Beaten xs ∨ r.Beaten ys := by
  constructor
  · rintro ⟨x, mem, first⟩
    by_cases early : q.Beaten xs
    · exact Or.inl early
    · refine Or.inr ⟨x, ?_, ?_⟩
      · rcases List.mem_append.mp mem with mem | mem
        · exact absurd ⟨x, mem, first⟩ early
        · exact mem
      · intro t has
        rcases (h.has t).mp has with old | mem'
        · exact first t old
        · -- `t` was inserted behind some timer of `q`, and `x` is before that one
          by_contra late
          exact early ⟨t, mem', fun u hu => lt_of_le_of_lt (not_lt.mp late) (first u hu)⟩
  · rintro (⟨x, mem, first⟩ | ⟨x, mem, first⟩)
    · exact ⟨x, List.mem_append_left _ mem, first⟩
    · exact ⟨x, List.mem_append_right _ mem, fun t has => first t ((h.has t).mpr (Or.inl has))⟩

theorem Grown.trans {q r s : TimeQueue} {xs ys : List ℤ} (h : Grown q r xs)
    (h' : Grown r s ys) : Grown q s (xs ++ ys) := by
  refine ⟨?_, ?_, ?_⟩
  · intro t
    rw [h'.has, h.has, List.mem_append, or_assoc]
  · intro beaten
    by_cases later : r.Beaten ys
    · obtain ⟨before, last, settings, earliest⟩ := h'.set later
      by_cases early : q.Beaten xs
      · obtain ⟨before', last', settings', _⟩ := h.set early
        exact ⟨before' ++ [last'] ++ before, last, by simp [settings, settings'], earliest⟩
      · exact ⟨before, last, by rw [settings, h.unset early], earliest⟩
    · have early := (h.beaten_append.mp beaten).resolve_right later
      obtain ⟨before, last, settings, earliest⟩ := h.set early
      refine ⟨before, last, (h'.unset later).trans settings, ?_, ?_⟩
      · exact (h'.has last).mpr (Or.inl earliest.1)
      · intro t has
        rcases (h'.has t).mp has with old | mem
        · exact earliest.2 t old
        · by_contra less
          exact later ⟨t, mem, fun u hu => lt_of_lt_of_le (not_le.mp less) (earliest.2 u hu)⟩
  · intro unbeaten
    rw [h.beaten_append, not_or] at unbeaten
    rw [h'.unset unbeaten.2, h.unset unbeaten.1]

theorem has_insert {q : TimeQueue} {e : Entry} {t : ℤ} :
    (q.insert e).Has t ↔ q.Has t ∨ t = e.time := by
  constructor
  · rintro ⟨x, mem, rfl⟩
    rw [timers_insert, OrderedSet.mem_insert] at mem
    rcases mem with rfl | old
    · exact Or.inr rfl
    · exact Or.inl ⟨x, old, rfl⟩
  · intro h
    rcases h with ⟨x, old, rfl⟩ | rfl
    · exact ⟨x, by rw [timers_insert, OrderedSet.mem_insert]; exact Or.inr old, rfl⟩
    · exact ⟨e, by rw [timers_insert, OrderedSet.mem_insert]; exact Or.inl rfl, rfl⟩

theorem head_time_le {l : List Entry} (sorted : l.Pairwise (· < ·)) {first : Entry}
    (head : l.head? = some first) : ∀ e ∈ l, first.time ≤ e.time := by
  cases l with
  | nil => cases head
  | cons x rest =>
    cases head
    rw [List.pairwise_cons] at sorted
    intro e mem
    rcases List.mem_cons.mp mem with rfl | later
    · exact le_refl _
    · exact time_le_of_lt (sorted.1 e later)

/-- The first element of the set expires first. -/
theorem earliest_of_head? {q : TimeQueue} {first : Entry}
    (head : q.timers.toList.head? = some first) : q.IsEarliest first.time := by
  refine ⟨⟨first, List.mem_of_head? head, rfl⟩, ?_⟩
  rintro _ ⟨e, mem, rfl⟩
  exact head_time_le q.timers.sorted head e mem

theorem IsEarliest.head? {q : TimeQueue} {when : ℤ} (earliest : q.IsEarliest when) :
    ∃ first, q.timers.toList.head? = some first ∧ first.time = when := by
  cases head : q.timers.toList.head? with
  | none =>
    obtain ⟨⟨e, mem, _⟩, _⟩ := earliest
    rw [List.head?_eq_none_iff.mp head] at mem
    cases mem
  | some first =>
    have least := earliest_of_head? head
    exact ⟨first, rfl, le_antisymm (least.2 when earliest.1) (earliest.2 _ least.1)⟩

theorem insert_grown (q : TimeQueue) (e : Entry) : Grown q (q.insert e) [e.time] := by
  refine ⟨fun t => by rw [has_insert, List.mem_singleton], ?_, ?_⟩
  · rintro ⟨x, mem, first⟩
    cases List.mem_singleton.mp mem
    refine ⟨[], e.time, ?_, has_insert.mpr (Or.inr rfl), ?_⟩
    · simp only [insert]
      split
      · simp [resetTimerfd]
      · rename_i old head
        rw [if_pos (first _ (earliest_of_head? head).1)]
        simp [resetTimerfd]
    · intro t has
      rcases has_insert.mp has with old | rfl
      · exact le_of_lt (first t old)
      · exact le_refl _
  · intro unbeaten
    simp only [insert]
    split
    · rename_i head
      refine absurd ⟨e.time, List.mem_singleton_self _, ?_⟩ unbeaten
      rintro t ⟨x, mem, _⟩
      rw [List.head?_eq_none_iff.mp head] at mem
      cases mem
    · rename_i old head
      have late : ¬ e.time < old.time := fun less =>
        unbeaten ⟨e.time, List.mem_singleton_self _,
          fun t has => lt_of_lt_of_le less ((earliest_of_head? head).2 t has)⟩
      rw [if_neg late]

/-- Entering a timer whose object has just been written. -/
theorem insert_at_grown {q r : TimeQueue} (timers : r.timers = q.timers)
    (settings : r.settings = q.settings) (when : ℤ) (address : ℕ) :
    Grown q (r.insert (toLex (when, address))) [when] :=
  (Grown.of_same timers settings).trans (insert_grown r (toLex (when, address)))

theorem addTimer_grown {q r : TimeQueue} {a : Addition} (h : q.addTimer a = .ok r) :
    Grown q r [a.when] := by
  unfold addTimer at h
  split at h
  · simp only [addTimerInloop, heap_see, heap_putInfo_self] at h
    cases h
    refine insert_at_grown ?_ ?_ a.when a.address <;> rfl
  · cases h

theorem run_addTimer_grown {additions : List Addition} {q r : TimeQueue}
    (h : run addTimer q additions = .ok r) : Grown q r (additions.map Addition.when) := by
  induction additions generalizing q with
  | nil =>
    cases h
    exact .of_same rfl rfl
  | cons a rest ih =>
    obtain ⟨m, hm, hrest⟩ := run_cons_inv h
    exact (addTimer_grown hm).trans (ih hrest)

/-! ## A read -/

/-- The expirations the callback of an expired timer inserts. -/
def addedBy (q : TimeQueue) (callback : ℕ → List Addition) (e : Entry) : List ℤ :=
  match q.heap e.timer with
  | none => []
  | some info => (callback info.sequence).map Addition.when

/-- The expiration an expired timer is put back with. -/
def putBackAt (q : TimeQueue) (now : ℤ) (e : Entry) : List ℤ :=
  match q.heap e.timer with
  | none => []
  | some info =>
    if info.IsRepeat then
      match Timestamp.nowAfter now info.interval with
      | .error _ => []
      | .ok expiration => [expiration]
    else []

/-- All expirations a read at this time inserts. -/
def inserted (q : TimeQueue) (now : ℤ) (callback : ℕ → List Addition) : List ℤ :=
  (q.dueAt now).flatMap (q.addedBy callback) ++ (q.dueAt now).flatMap (q.putBackAt now)

theorem runTimer_grown {q r : TimeQueue} {now : ℤ} {callback : ℕ → List Addition} {e : Entry}
    (h : q.runTimer now callback e = .ok r) :
    Grown q r (q.addedBy callback e) ∧ (q.heap e.timer).isSome := by
  unfold runTimer at h
  split at h
  · cases h
  · rename_i info live
    have seen : Grown q (q.see (.ran info.sequence info.expiration now)) [] := .of_same rfl rfl
    have grown := seen.trans (run_addTimer_grown h)
    rw [List.nil_append] at grown
    simp only [addedBy, live]
    exact ⟨grown, rfl⟩

theorem resetTimer_grown {q r : TimeQueue} {now : ℤ} {e : Entry}
    (h : q.resetTimer now e = .ok r) :
    Grown q r (q.putBackAt now e) ∧ ∀ p, p ≠ e.timer → r.heap p = q.heap p := by
  unfold resetTimer at h
  split at h
  · cases h
  rename_i info live
  split at h
  · rename_i again
    split at h
    · cases h
    · rename_i info' restarted
      simp only [TimerInfo.restart, again, if_true] at restarted
      split at restarted
      · cases restarted
      · rename_i expiration hafter
        cases restarted
        cases h
        constructor
        · simp only [putBackAt, live, again, if_true, hafter]
          refine insert_at_grown ?_ ?_ expiration e.timer <;> rfl
        · intro p other
          rw [heap_insert, heap_see, heap_putInfo_other _ _ other]
  · rename_i once
    cases h
    constructor
    · simp only [putBackAt, live, once]
      exact .of_same rfl rfl
    · intro p other
      rw [heap_see, heap_putInfo_other _ _ other]

theorem run_addTimer_heap {additions : List Addition} {q r : TimeQueue}
    (h : run addTimer q additions = .ok r) {p : ℕ} {info : TimerInfo}
    (live : q.heap p = some info) : r.heap p = some info :=
  Reaches.keeps (fun _ _ _ live added => (addTimer_added added).heap live) ⟨additions, h⟩ live

theorem runTimer_heap {q r : TimeQueue} {now : ℤ} {callback : ℕ → List Addition} {e : Entry}
    (h : q.runTimer now callback e = .ok r) {p : ℕ} {info : TimerInfo}
    (live : q.heap p = some info) : r.heap p = some info := by
  unfold runTimer at h
  split at h
  · cases h
  · exact run_addTimer_heap h live

theorem run_runTimer_grown {now : ℤ} {callback : ℕ → List Addition} {expired : List Entry}
    {q r : TimeQueue} (h : run (runTimer now callback) q expired = .ok r) :
    (∀ p info, q.heap p = some info → r.heap p = some info) ∧ ∃ times, Grown q r times ∧
      ((∀ e ∈ expired, (q.heap e.timer).isSome) →
        times = expired.flatMap (q.addedBy callback)) := by
  induction expired generalizing q with
  | nil =>
    cases h
    exact ⟨fun _ _ => id, [], .of_same rfl rfl, fun _ => rfl⟩
  | cons e rest ih =>
    obtain ⟨m, hm, hrest⟩ := run_cons_inv h
    obtain ⟨kept, times, later, exact⟩ := ih hrest
    refine ⟨fun p info live => kept p info (runTimer_heap hm live), _,
      (runTimer_grown hm).1.trans later, ?_⟩
    intro live
    have same : ∀ e' ∈ rest, m.heap e'.timer = q.heap e'.timer := by
      intro e' mem
      obtain ⟨info, here⟩ := Option.isSome_iff_exists.mp (live e' (List.mem_cons_of_mem e mem))
      rw [here, runTimer_heap hm here]
    rw [exact fun e' mem => by rw [same e' mem]; exact live e' (List.mem_cons_of_mem e mem),
      List.flatMap_cons]
    congr 1
    refine List.flatMap_congr fun e' mem => ?_
    rw [addedBy, addedBy, same e' mem]

theorem run_resetTimer_grown {now : ℤ} {expired : List Entry} {q r : TimeQueue}
    (h : run (resetTimer now) q expired = .ok r) :
    ∃ times, Grown q r times ∧
      ((expired.map Entry.timer).Nodup → times = expired.flatMap (q.putBackAt now)) := by
  induction expired generalizing q with
  | nil =>
    cases h
    exact ⟨[], .of_same rfl rfl, fun _ => rfl⟩
  | cons e rest ih =>
    obtain ⟨m, hm, hrest⟩ := run_cons_inv h
    obtain ⟨times, later, exact⟩ := ih hrest
    obtain ⟨grown, others⟩ := resetTimer_grown hm
    refine ⟨_, grown.trans later, ?_⟩
    intro nodup
    rw [List.map_cons, List.nodup_cons] at nodup
    rw [exact nodup.2, List.flatMap_cons]
    congr 1
    refine List.flatMap_congr fun e' mem => ?_
    have other : e'.timer ≠ e.timer := fun same =>
      nodup.1 (List.mem_map.mpr ⟨e', mem, same⟩)
    rw [putBackAt, putBackAt, others _ other]

theorem getAllExpiredTimers_cases {q r : TimeQueue} {now : ℤ} {expired : List Entry}
    (h : q.getAllExpiredTimers now = .ok (expired, r)) :
    expired = q.timers.below (nowEntry now) ∧
      r = { q with timers := q.timers.eraseBelow (nowEntry now) } := by
  unfold getAllExpiredTimers at h
  dsimp only at h
  split_ifs at h
  cases h
  exact ⟨rfl, rfl⟩

/-- The parts of a read that returns. -/
theorem handleRead_cases {q r : TimeQueue} {now : ℤ} {callback : ℕ → List Addition}
    (h : q.handleRead now callback = .ok r) :
    ∃ m, run (runTimer now callback) { q with timers := q.timers.eraseBelow (nowEntry now) }
        (q.timers.below (nowEntry now)) = .ok m ∧
      run (resetTimer now) m (q.timers.below (nowEntry now)) = .ok r := by
  unfold handleRead at h
  split at h
  · cases h
  rename_i expired taken htaken
  obtain ⟨rfl, rfl⟩ := getAllExpiredTimers_cases htaken
  split at h
  · cases h
  · rename_i m hran
    exact ⟨m, hran, h⟩

/-- Whatever a step does, it takes timers out without setting the descriptor, and then
inserts others. -/
theorem step_grown {q r : TimeQueue} {op : Op} (h : q.step op = .ok r) :
    ∃ taken times, (∀ t, taken.Has t → q.Has t) ∧ taken.settings = q.settings ∧
      Grown taken r times := by
  cases op with
  | addTimer a => exact ⟨q, [a.when], fun _ => id, rfl, addTimer_grown h⟩
  | handleRead now callback =>
    obtain ⟨m, hran, hreset⟩ := handleRead_cases h
    obtain ⟨_, xs, first, _⟩ := run_runTimer_grown hran
    obtain ⟨ys, second, _⟩ := run_resetTimer_grown hreset
    refine ⟨{ q with timers := q.timers.eraseBelow (nowEntry now) }, _, ?_, rfl,
      first.trans second⟩
    rintro t ⟨e, mem, rfl⟩
    exact ⟨e, (List.dropWhile_sublist _).subset mem, rfl⟩

/-! ## Addresses -/

/-- The timers of the set, and those taken out of it, are alive and have addresses of
their own. -/
structure Placed (q : TimeQueue) (out : List Entry) : Prop where
  nodup : ((q.timers.toList ++ out).map Entry.timer).Nodup
  live : ∀ e ∈ q.timers.toList ++ out, (q.heap e.timer).isSome
  small : ∀ p, (q.heap p).isSome → p < UINTPTR_MAX

theorem Placed.fresh {q : TimeQueue} {out : List Entry} (placed : Placed q out) {p : ℕ}
    (free : q.heap p = none) : ∀ e ∈ q.timers.toList ++ out, e.timer ≠ p := by
  intro e mem same
  have live := placed.live e mem
  rw [same, free] at live
  cases live

theorem Placed.addTimer {q r : TimeQueue} {out : List Entry} (placed : Placed q out)
    {a : Addition} (h : q.addTimer a = .ok r) : Placed r out := by
  have added := addTimer_added h
  have fresh := placed.fresh added.free
  have new : toLex (a.when, a.address) ∉ q.timers.toList := fun mem =>
    fresh _ (List.mem_append_left _ mem) rfl
  have perm : (r.timers.toList ++ out).Perm
      (toLex (a.when, a.address) :: (q.timers.toList ++ out)) := by
    rw [added.timers]
    exact (OrderedSet.insert_perm new).append_right out
  refine ⟨?_, ?_, ?_⟩
  · rw [(perm.map Entry.timer).nodup_iff, List.map_cons, List.nodup_cons]
    refine ⟨?_, placed.nodup⟩
    intro mem
    obtain ⟨e, he, same⟩ := List.mem_map.mp mem
    exact fresh e he same
  · intro e mem
    rcases List.mem_cons.mp (perm.mem_iff.mp mem) with rfl | old
    · show (r.heap a.address).isSome
      rw [added.self]
      rfl
    · rw [added.others _ (fresh e old)]
      exact placed.live e old
  · intro p live
    by_cases here : p = a.address
    · exact here ▸ added.small
    · rw [added.others p here] at live
      exact placed.small p live

theorem Placed.run_addTimer {additions : List Addition} {q r : TimeQueue} {out : List Entry}
    (placed : Placed q out) (h : run TimeQueue.addTimer q additions = .ok r) : Placed r out :=
  Reaches.keeps (fun _ _ _ (kept : Placed _ out) added => kept.addTimer added) ⟨additions, h⟩
    placed

theorem Placed.runTimer {now : ℤ} {callback : ℕ → List Addition} {e : Entry}
    {q r : TimeQueue} {out : List Entry} (placed : Placed q out)
    (h : q.runTimer now callback e = .ok r) : Placed r out := by
  unfold TimeQueue.runTimer at h
  split at h
  · cases h
  · rename_i info live
    have seen : Placed (q.see (.ran info.sequence info.expiration now)) out :=
      ⟨placed.nodup, placed.live, placed.small⟩
    exact seen.run_addTimer h

theorem Placed.run_runTimer {now : ℤ} {callback : ℕ → List Addition} {expired : List Entry}
    {q r : TimeQueue} {out : List Entry} (placed : Placed q out)
    (h : run (TimeQueue.runTimer now callback) q expired = .ok r) : Placed r out :=
  Reaches.keeps (fun _ _ _ (kept : Placed _ out) ran => kept.runTimer ran) ⟨expired, h⟩ placed

theorem Placed.resetTimer {now : ℤ} {e : Entry} {q r : TimeQueue} {out : List Entry}
    (placed : Placed q (e :: out)) (h : q.resetTimer now e = .ok r) : Placed r out := by
  have others := (resetTimer_grown h).2
  have apart := placed.nodup
  have perm : (q.timers.toList ++ e :: out).Perm (e :: (q.timers.toList ++ out)) :=
    List.perm_middle
  rw [(perm.map Entry.timer).nodup_iff, List.map_cons, List.nodup_cons] at apart
  have other : ∀ e' ∈ q.timers.toList ++ out, e'.timer ≠ e.timer := fun e' mem same =>
    apart.1 (List.mem_map.mpr ⟨e', mem, same⟩)
  have still : ∀ e' ∈ q.timers.toList ++ out, (r.heap e'.timer).isSome := by
    intro e' mem
    rw [others _ (other e' mem)]
    exact placed.live e' (perm.mem_iff.mpr (List.mem_cons_of_mem e mem))
  have small : ∀ p, (r.heap p).isSome → p < UINTPTR_MAX := by
    intro p live
    by_cases here : p = e.timer
    · exact here ▸ placed.small _ (placed.live e (perm.mem_iff.mpr List.mem_cons_self))
    · rw [others p here] at live
      exact placed.small p live
  unfold TimeQueue.resetTimer at h
  split at h
  · cases h
  split at h
  · split at h
    · cases h
    · rename_i info' _
      cases h
      have new : toLex (info'.expiration, e.timer) ∉ q.timers.toList := fun mem =>
        other _ (List.mem_append_left _ mem) rfl
      have inserted := (OrderedSet.insert_perm new).append_right out
      refine ⟨?_, ?_, small⟩
      · rw [timers_insert, timers_see, timers_putInfo, (inserted.map Entry.timer).nodup_iff,
          List.cons_append, List.map_cons, List.nodup_cons]
        exact apart
      · intro e' mem
        rw [timers_insert, timers_see, timers_putInfo, inserted.mem_iff] at mem
        rcases List.mem_cons.mp mem with rfl | old
        · rw [heap_insert, heap_see]
          show ((q.putInfo e.timer (some info')).heap e.timer).isSome
          rw [heap_putInfo_self]
          rfl
        · exact still e' old
  · cases h
    exact ⟨apart.2, still, small⟩

theorem Placed.reset {now : ℤ} {expired : List Entry} {q r : TimeQueue}
    (placed : Placed q expired) (h : run (TimeQueue.resetTimer now) q expired = .ok r) :
    Placed r [] := by
  induction expired generalizing q with
  | nil =>
    cases h
    exact placed
  | cons e rest ih =>
    obtain ⟨m, hm, hrest⟩ := run_cons_inv h
    exact ih (placed.resetTimer hm) hrest

/-- Taking the timers below a bound out of the set. -/
theorem Placed.take {q : TimeQueue} (placed : Placed q []) (k : Entry) :
    Placed { q with timers := q.timers.eraseBelow k } (q.timers.below k) := by
  have perm : ((q.timers.eraseBelow k).toList ++ q.timers.below k).Perm
      (q.timers.toList ++ []) := by
    rw [List.append_nil]
    exact List.perm_append_comm.trans (List.Perm.of_eq (q.timers.below_append_eraseBelow k))
  refine ⟨?_, fun e mem => placed.live e (perm.mem_iff.mp mem), placed.small⟩
  rw [(perm.map Entry.timer).nodup_iff]
  exact placed.nodup

theorem Placed.step {q r : TimeQueue} (placed : Placed q []) {op : Op}
    (h : q.step op = .ok r) : Placed r [] := by
  cases op with
  | addTimer a => exact placed.addTimer h
  | handleRead now callback =>
    obtain ⟨m, hran, hreset⟩ := handleRead_cases h
    exact ((placed.take (nowEntry now)).run_runTimer hran).reset hreset

theorem new_placed : Placed new [] :=
  ⟨List.nodup_nil, fun _ mem => absurd mem List.not_mem_nil, fun _ live => absurd live nofun⟩

theorem Placed.below_nowEntry {q : TimeQueue} (placed : Placed q []) (now : ℤ) :
    q.timers.below (nowEntry now) = q.dueAt now := by
  rw [OrderedSet.below_eq_filter, dueAt]
  refine List.filter_congr fun e mem => ?_
  rw [decide_eq_decide]
  exact lt_nowEntry (placed.small _ (placed.live e (by simpa using mem)))

/-- What is left in the set are the timers that are not due. -/
theorem Placed.has_eraseBelow {q : TimeQueue} (placed : Placed q []) (now t : ℤ) :
    ({ q with timers := q.timers.eraseBelow (nowEntry now) } : TimeQueue).Has t ↔
      q.Has t ∧ now < t := by
  have late : ∀ e ∈ q.timers.toList, (now < e.time ↔ ¬ e < nowEntry now) := by
    intro e mem
    rw [lt_nowEntry (placed.small _ (placed.live e (by simpa using mem))), not_le]
  constructor
  · rintro ⟨e, mem, rfl⟩
    have old := (List.dropWhile_sublist _).subset mem
    exact ⟨⟨e, old, rfl⟩, (late e old).mpr (not_lt.mpr (OrderedSet.le_of_mem_eraseBelow mem))⟩
  · rintro ⟨⟨e, mem, rfl⟩, later⟩
    refine ⟨e, ?_, rfl⟩
    rw [← q.timers.below_append_eraseBelow (nowEntry now)] at mem
    rcases List.mem_append.mp mem with gone | kept
    · have old : e ∈ q.timers.toList := by
        rw [← q.timers.below_append_eraseBelow (nowEntry now)]
        exact List.mem_append_left _ gone
      exact absurd (OrderedSet.lt_of_mem_below gone) ((late e old).mp later)
    · exact kept

/-- A read leaves the timers that are not due and inserts `inserted`. -/
theorem Placed.handleRead_grown {q r : TimeQueue} (placed : Placed q []) {now : ℤ}
    {callback : ℕ → List Addition} (h : q.handleRead now callback = .ok r) :
    Grown { q with timers := q.timers.eraseBelow (nowEntry now) } r
      (q.inserted now callback) := by
  obtain ⟨m, hran, hreset⟩ := handleRead_cases h
  have taken := placed.take (nowEntry now)
  obtain ⟨kept, xs, first, exact⟩ := run_runTimer_grown hran
  obtain ⟨ys, second, exact'⟩ := run_resetTimer_grown hreset
  have live : ∀ e ∈ q.timers.below (nowEntry now), (q.heap e.timer).isSome :=
    fun e mem => taken.live e (List.mem_append_right _ mem)
  have nodup := (taken.run_runTimer hran).nodup
  rw [List.map_append] at nodup
  have same : (q.timers.below (nowEntry now)).flatMap (m.putBackAt now) =
      (q.timers.below (nowEntry now)).flatMap (q.putBackAt now) := by
    refine List.flatMap_congr fun e mem => ?_
    obtain ⟨info, here⟩ := Option.isSome_iff_exists.mp (live e mem)
    rw [putBackAt, putBackAt, kept _ _ here, here]
  rw [inserted, ← placed.below_nowEntry now, ← same, ← exact' (List.Nodup.of_append_right nodup)]
  have added := exact live
  rw [added] at first
  exact first.trans second

end TimeQueue

namespace TimedQueue

open TimeQueue

/-! ## The descriptor after a step -/

theorem resetTimerfd_cases {s t : TimedQueue} {call : ℤ × ℤ} (h : s.resetTimerfd call = .ok t) :
    t.queue = s.queue ∧ t.timerfd.ArmedFor call.1 := by
  unfold resetTimerfd at h
  split at h
  · split at h
    · cases h
    · rename_i timerfd hset
      cases h
      exact ⟨rfl, call.2, Timerfd.resetTimerfd_cases hset⟩
  · cases h

theorem run_resetTimerfd_queue {calls : List (ℤ × ℤ)} {s t : TimedQueue}
    (h : run resetTimerfd s calls = .ok t) : t.queue = s.queue :=
  run_frame TimedQueue.queue (fun _ _ _ _ set => (resetTimerfd_cases set).1) h

/-- The last of several calls counts. -/
theorem run_resetTimerfd_last {before : List (ℤ × ℤ)} {last : ℤ × ℤ} {s t : TimedQueue}
    (h : run resetTimerfd s (before ++ [last]) = .ok t) : t.timerfd.ArmedFor last.1 := by
  rw [run_append] at h
  split at h
  · obtain ⟨m, hm, hrest⟩ := run_cons_inv h
    cases hrest
    exact (resetTimerfd_cases hm).2
  · cases h

theorem zip_last {whens readings : List ℤ} (length : whens.length = readings.length)
    {before : List ℤ} {last : ℤ} (h : whens = before ++ [last]) :
    ∃ calls reading, whens.zip readings = calls ++ [(last, reading)] := by
  subst h
  rcases List.eq_nil_or_concat readings with rfl | ⟨first, reading, rfl⟩
  · simp at length
  · simp only [List.concat_eq_append, List.length_append, List.length_singleton,
      Nat.add_right_cancel_iff] at length
    exact ⟨before.zip first, reading, by
      rw [List.concat_eq_append, List.zip_append length]
      rfl⟩

/-- What a step does to the queue and, through the settings it makes, to the descriptor. -/
theorem step_cases {s t : TimedQueue} {o : Op} (h : s.step o = .ok t) :
    s.queue.step o.op = .ok t.queue ∧ t.clock = o.returned ∧
      (t.queue.settings = s.queue.settings → t.timerfd = s.timerfd) ∧
      ∀ before last, t.queue.settings = s.queue.settings ++ before ++ [last] →
        t.timerfd.ArmedFor last := by
  unfold step at h
  split at h
  · cases h
  rename_i queue hqueue
  dsimp only at h
  split at h
  swap
  · cases h
  rename_i fits
  split at h
  · cases h
  rename_i m hm
  split at h
  swap
  · cases h
  cases h
  have same : m.queue = queue := run_resetTimerfd_queue hm
  refine ⟨by rw [hqueue]; exact congrArg Except.ok same.symm, rfl, ?_, ?_⟩
  · intro unset
    have none : queue.settings.drop s.queue.settings.length = [] := by
      rw [← same, unset, List.drop_length]
    rw [none, List.zip_nil_left] at hm
    cases hm
    rfl
  · intro before last set
    have some : queue.settings.drop s.queue.settings.length = before ++ [last] := by
      rw [← same, set, List.append_assoc, List.drop_left]
    obtain ⟨calls, reading, zipped⟩ := zip_last fits.2 some
    rw [zipped] at hm
    exact run_resetTimerfd_last hm

/-! ## No timer is stranded -/

/-- The descriptor was set last for no later than any of the timers. -/
def Covered (s : TimedQueue) : Prop :=
  ∀ t, s.queue.Has t → ∃ when, s.timerfd.ArmedFor when ∧ when ≤ t

theorem Covered.step {s t : TimedQueue} (covered : Covered s) {o : Op}
    (h : s.step o = .ok t) : Covered t := by
  obtain ⟨hqueue, _, unset, set⟩ := step_cases h
  obtain ⟨taken, times, subset, settings, grown⟩ := step_grown hqueue
  intro x has
  by_cases beaten : taken.Beaten times
  · obtain ⟨before, last, hset, earliest⟩ := grown.set beaten
    rw [settings] at hset
    exact ⟨last, set before last hset, earliest.2 x has⟩
  · rw [unset ((grown.unset beaten).trans settings)]
    rcases (grown.has x).mp has with old | mem
    · exact covered x (subset x old)
    · -- inserted behind a timer that the descriptor covers already
      by_contra none
      refine beaten ⟨x, mem, fun y hy => ?_⟩
      obtain ⟨when, armed, early⟩ := covered y (subset y hy)
      exact lt_of_lt_of_le (not_le.mp fun le => none ⟨when, armed, le⟩) early

theorem reached_covered {clock : ℤ} {s : TimedQueue} (reached : Reaches step (new clock) s) :
    Covered s := by
  refine Reaches.keeps (fun _ _ _ covered h => covered.step h) reached ?_
  rintro t ⟨e, mem, _⟩
  cases mem

/-- While timers wait, the descriptor is readable or will expire in time for the first
of them; setting it never disarms it. -/
theorem timers_not_stranded {clock : ℤ} {s : TimedQueue}
    (reached : Reaches step (new clock) s) :
    (∀ first, s.queue.timers.toList.head? = some first →
      ∃ setAt expiry, s.timerfd = .armed setAt expiry ∧
        (s.timerfd.Readable s.clock ∨ expiry ≤ max first.time (setAt + 100) * 1000)) ∧
    ∀ expiration now fd, Timerfd.resetTimerfd expiration now = .ok fd → fd ≠ .disarmed := by
  constructor
  · intro first head
    obtain ⟨when, ⟨setAt, armed⟩, early⟩ :=
      reached_covered reached _ (earliest_of_head? head).1
    refine ⟨setAt, _, armed, Or.inr ?_⟩
    omega
  · intro expiration now fd h
    rw [Timerfd.resetTimerfd_cases h]
    exact nofun

/-- Two timers, the second one earlier, and a read that serves the second. -/
def twoTimers : List Op :=
  [⟨.addTimer ⟨16, 900, .ofInt 0⟩, [3], 3⟩, ⟨.addTimer ⟨24, 500, .ofInt 0⟩, [10], 12⟩,
    ⟨.handleRead 600 (fun _ => []), [], 600⟩]

theorem timers_not_stranded_twoTimers : ∃ s, run step (new 0) twoTimers = .ok s ∧
    (∀ first, s.queue.timers.toList.head? = some first →
      ∃ setAt expiry, s.timerfd = .armed setAt expiry ∧
        (s.timerfd.Readable s.clock ∨ expiry ≤ max first.time (setAt + 100) * 1000)) ∧
    ∀ expiration now fd, Timerfd.resetTimerfd expiration now = .ok fd → fd ≠ .disarmed := by
  obtain ⟨s, hrun, _⟩ := ok_of_any (o := run step (new 0) twoTimers) (p := fun _ => true)
    (by decide +kernel)
  exact ⟨s, hrun, timers_not_stranded ⟨twoTimers, hrun⟩⟩

/-! ## After a read -/

/-- The descriptor waits for the first timer; with no timer, it is not readable. -/
def Acknowledged (s : TimedQueue) : Prop :=
  match s.queue.timers.toList.head? with
  | some first => s.timerfd.ArmedFor first.time
  | none => ¬ s.timerfd.Readable s.clock

/-- The timers a read at this time leaves in the set. -/
def remaining (q : TimeQueue) (now : ℤ) : List Entry :=
  q.timers.toList.filter (fun e => now < e.time)

theorem has_remaining {q : TimeQueue} (placed : Placed q []) {now x : ℤ} :
    ({ q with timers := q.timers.eraseBelow (nowEntry now) } : TimeQueue).Has x ↔
      ∃ e ∈ remaining q now, e.time = x := by
  rw [placed.has_eraseBelow]
  constructor
  · rintro ⟨⟨e, mem, rfl⟩, later⟩
    exact ⟨e, List.mem_filter.mpr ⟨mem, by simpa using later⟩, rfl⟩
  · rintro ⟨e, mem, rfl⟩
    obtain ⟨mem, later⟩ := List.mem_filter.mp mem
    exact ⟨⟨e, mem, rfl⟩, by simpa using later⟩

theorem beaten_remaining {q : TimeQueue} (placed : Placed q []) {now : ℤ} {times : List ℤ} :
    ({ q with timers := q.timers.eraseBelow (nowEntry now) } : TimeQueue).Beaten times ↔
      ∃ x ∈ times, ∀ e ∈ remaining q now, x < e.time := by
  constructor
  · rintro ⟨x, mem, first⟩
    exact ⟨x, mem, fun e he => first _ ((has_remaining placed).mpr ⟨e, he, rfl⟩)⟩
  · rintro ⟨x, mem, first⟩
    refine ⟨x, mem, fun y has => ?_⟩
    obtain ⟨e, he, rfl⟩ := (has_remaining placed).mp has
    exact first e he

/-- Nothing remained and nothing was inserted, which would have come first. -/
theorem empty_of_unbeaten {q r : TimeQueue} (placed : Placed q []) {now : ℤ} {times : List ℤ}
    (grown : Grown { q with timers := q.timers.eraseBelow (nowEntry now) } r times)
    (unbeaten : ¬ ∃ x ∈ times, ∀ e ∈ remaining q now, x < e.time)
    (empty : remaining q now = []) : r.timers.toList = [] := by
  rw [List.eq_nil_iff_forall_not_mem]
  intro e mem
  rcases (grown.has e.time).mp ⟨e, mem, rfl⟩ with old | new
  · obtain ⟨e', mem', _⟩ := (has_remaining placed).mp old
    rw [empty] at mem'
    cases mem'
  · exact unbeaten ⟨e.time, new, by simp [empty]⟩

/-- The first timer that remained is still the first. -/
theorem earliest_of_unbeaten {q r : TimeQueue} (placed : Placed q []) {now : ℤ}
    {times : List ℤ}
    (grown : Grown { q with timers := q.timers.eraseBelow (nowEntry now) } r times)
    (unbeaten : ¬ ∃ x ∈ times, ∀ e ∈ remaining q now, x < e.time) {first : Entry}
    (head : (remaining q now).head? = some first) : r.IsEarliest first.time := by
  have sorted : (remaining q now).Pairwise (· < ·) := q.timers.sorted.filter _
  have least := head_time_le sorted head
  constructor
  · have old := (has_remaining placed).mpr ⟨first, List.mem_of_head? head, rfl⟩
    exact (grown.has _).mpr (Or.inl old)
  · intro x has
    rcases (grown.has x).mp has with old | new
    · obtain ⟨e, mem, rfl⟩ := (has_remaining placed).mp old
      exact least e mem
    · by_contra late
      exact unbeaten ⟨x, new, fun e mem => lt_of_lt_of_le (not_le.mp late) (least e mem)⟩

/-- Something the read inserts comes before all timers that remain; or the descriptor
needs no setting, being unexpired and set for the first of these already. -/
def Rearms (s : TimedQueue) (now : ℤ) (callback : ℕ → List Addition) (returned : ℤ) : Prop :=
  (∃ x ∈ s.queue.inserted now callback, ∀ e ∈ remaining s.queue now, x < e.time) ∨
    match (remaining s.queue now).head? with
    | some first => s.timerfd.ArmedFor first.time
    | none => ¬ s.timerfd.Readable returned

theorem reached_placed {clock : ℤ} {s : TimedQueue} (reached : Reaches step (new clock) s) :
    Placed s.queue [] := by
  have keep : ∀ (s : TimedQueue) (op : Op) (t : TimedQueue), Placed s.queue [] →
      s.step op = .ok t → Placed t.queue [] :=
    fun s op t placed h => placed.step (step_cases h).1
  exact Reaches.keeps keep reached new_placed

/-- The descriptor is acknowledged exactly if something new comes before all that remains,
or it did not have to be. -/
theorem acknowledged_iff_rearms {clock : ℤ} {s t : TimedQueue}
    (reached : Reaches step (new clock) s) {now : ℤ} {callback : ℕ → List Addition}
    {readings : List ℤ} {returned : ℤ}
    (h : s.step ⟨.handleRead now callback, readings, returned⟩ = .ok t) :
    Acknowledged t ↔ Rearms s now callback returned := by
  have placed := reached_placed reached
  obtain ⟨hqueue, kept, unset, set⟩ := step_cases h
  have grown := placed.handleRead_grown hqueue
  by_cases beaten : ({ s.queue with timers := s.queue.timers.eraseBelow (nowEntry now) } :
      TimeQueue).Beaten (s.queue.inserted now callback)
  · refine iff_of_true ?_ (Or.inl ((beaten_remaining placed).mp beaten))
    obtain ⟨before, last, settings, earliest⟩ := grown.set beaten
    obtain ⟨first, head, time⟩ := earliest.head?
    simp only [Acknowledged, head, time]
    exact set before last settings
  have same : t.timerfd = s.timerfd := unset (grown.unset beaten)
  have notFirst := fun first => beaten ((beaten_remaining placed).mpr first)
  rw [Rearms, or_iff_right notFirst]
  cases head : (remaining s.queue now).head? with
  | none =>
    have empty := empty_of_unbeaten placed grown notFirst (List.head?_eq_none_iff.mp head)
    simp only [Acknowledged, empty, List.head?_nil, same, kept]
  | some first =>
    obtain ⟨first', head', time⟩ := (earliest_of_unbeaten placed grown notFirst head).head?
    simp only [Acknowledged, head', time, same]

/-- One timer, of this interval in seconds, is due after 5 microseconds. -/
def oneTimer (interval : ℤ) : List Op := [⟨.addTimer ⟨16, 5, .ofInt interval⟩, [0], 0⟩]

/-- The timer fires once: nothing is left to wait for, and the descriptor stays readable. -/
theorem not_acknowledged_oneTimer :
    ∃ s t, run step (new 0) (oneTimer 0) = .ok s ∧ s.timerfd.Readable 100 ∧
      s.step ⟨.handleRead 100 (fun _ => []), [], 100⟩ = .ok t ∧
      t.queue.timers.toList = [] ∧ t.timerfd.Readable t.clock ∧ ¬ Acknowledged t := by
  obtain ⟨s, hrun, readable⟩ := ok_of_any (o := run step (new 0) (oneTimer 0))
    (p := fun s => s.timerfd.Readable 100) (by decide +kernel)
  obtain ⟨t, hread, after⟩ := ok_of_any (o := run step (new 0) (oneTimer 0 ++
      [⟨.handleRead 100 (fun _ => []), [], 100⟩]))
    (p := fun t => t.queue.timers.toList = [] ∧ t.timerfd.Readable t.clock) (by decide +kernel)
  simp only [decide_eq_true_eq] at readable after
  rw [run_append, hrun] at hread
  obtain ⟨m, hstep, hnil⟩ := run_cons_inv hread
  cases hnil
  refine ⟨s, t, hrun, readable, hstep, after.1, after.2, ?_⟩
  simp only [Acknowledged, after.1, List.head?_nil, not_not]
  exact after.2

/-- It is put back for two seconds later, and the descriptor set for then. -/
theorem acknowledged_iff_rearms_oneTimer :
    ∃ s t, run step (new 0) (oneTimer 2) = .ok s ∧
      s.step ⟨.handleRead 100 (fun _ => []), [101], 101⟩ = .ok t ∧
      (Acknowledged t ↔ Rearms s 100 (fun _ => []) 101) := by
  obtain ⟨s, hrun, _⟩ := ok_of_any (o := run step (new 0) (oneTimer 2))
    (p := fun _ => true) (by decide +kernel)
  obtain ⟨t, hread, _⟩ := ok_of_any (o := run step (new 0) (oneTimer 2 ++
      [⟨.handleRead 100 (fun _ => []), [101], 101⟩])) (p := fun _ => true) (by decide +kernel)
  rw [run_append, hrun] at hread
  obtain ⟨m, hstep, hnil⟩ := run_cons_inv hread
  cases hnil
  exact ⟨s, t, hrun, hstep, acknowledged_iff_rearms ⟨_, hrun⟩ hstep⟩

end TimedQueue

end ZDQ
