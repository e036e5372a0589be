import ThreadAndNet.TimerRuns

/-!
# How often a timer runs

A repeating timer is put back for the reading of the clock plus its interval, so however late
its runs are, they are never closer to each other than that.
-/

namespace ZDQ

open Machine

/-- Steps at least `d` apart add up. -/
theorem le_of_isChain {d : ℤ} {l : List ℤ} (chain : l.IsChain (fun a b => a + d ≤ b)) {i j : ℕ}
    {a b : ℤ} (le : i ≤ j) (ha : l[i]? = some a) (hb : l[j]? = some b) :
    a + (j - i : ℕ) * d ≤ b := by
  induction le generalizing b with
  | refl =>
    cases ha.symm.trans hb
    simp
  | @step j le ih =>
    obtain ⟨inside, is_b⟩ := List.getElem?_eq_some_iff.mp hb
    have before := ih (List.getElem?_eq_getElem (Nat.lt_of_succ_lt inside))
    have last : l[j] + d ≤ l[j + 1] := List.isChain_iff_getElem.mp chain j inside
    have steps : ((j + 1 - i : ℕ) : ℤ) = (j - i : ℕ) + 1 := by
      have le : i ≤ j := le
      omega
    calc a + (j + 1 - i : ℕ) * d = a + (j - i : ℕ) * d + d := by
          rw [steps, add_mul, one_mul, add_assoc]
      _ ≤ l[j] + d := by omega
      _ ≤ b := is_b ▸ last

/-- When the timer of a history ran. -/
def ranAt (h : List TimerEvent) : List ℤ :=
  h.filterMap (fun x =>
    match x with
    | .ran _ _ now => some now
    | .added _ _ _ => none
    | .putBack _ _ _ => none
    | .freed _ => none)

theorem ranAt_append (g h : List TimerEvent) : ranAt (g ++ h) = ranAt g ++ ranAt h :=
  List.filterMap_append

/-- The runs of a timer that was added for `expiration`. -/
structure Paced (interval : Binary64) (expiration : ℤ) (times : List ℤ) : Prop where
  first : ∀ a ∈ times.head?, expiration ≤ a
  apart : ∀ delta, microSeconds interval = some delta →
    times.IsChain (fun a b => a + delta ≤ b)
  once : interval.positive = false → times.length ≤ 1

/-- What the next run waits for. -/
def Awaits (interval : Binary64) (expiration : ℤ) (times : List ℤ) : TimerStatus → Prop
  | .waiting e => times = [] ∧ e = expiration ∨ interval.positive = true ∧ ∃ last delta,
      times.getLast? = some last ∧ microSeconds interval = some delta ∧ e = last + delta
  | .running now => times.getLast? = some now
  | .gone => True

theorem Paced.ran {interval : Binary64} {expiration e now : ℤ} {times : List ℤ}
    (paced : Paced interval expiration times)
    (awaits : Awaits interval expiration times (.waiting e)) (due : e ≤ now) :
    Paced interval expiration (times ++ [now]) := by
  rcases awaits with ⟨rfl, rfl⟩ | ⟨again, last, delta, before, whole, rfl⟩
  · refine ⟨?_, fun _ _ => .singleton now, fun _ => Nat.le_refl 1⟩
    rintro _ ⟨⟩
    exact due
  · refine ⟨?_, fun d is_d => ?_, fun never => ?_⟩
    · cases times with
      | nil => cases before
      | cons x rest => exact paced.first
    · cases whole.symm.trans is_d
      refine List.isChain_append.mpr ⟨paced.apart delta whole, .singleton now, ?_⟩
      rintro x is_last _ ⟨⟩
      cases is_last.symm.trans before
      exact due
    · rw [again] at never
      cases never

theorem Story.paced {n : ℕ} {interval : Binary64} {h : List TimerEvent} {st : TimerStatus}
    (story : Story n interval h st) : ∃ expiration, .added n expiration interval ∈ h ∧
      Paced interval expiration (ranAt h) ∧ Awaits interval expiration (ranAt h) st := by
  induction story with
  | added expiration =>
    exact ⟨expiration, List.mem_singleton_self _, ⟨nofun, fun _ _ => .nil, fun _ => Nat.zero_le 1⟩,
      .inl ⟨rfl, rfl⟩⟩
  | ran _ due ih =>
    obtain ⟨expiration, added, paced, awaits⟩ := ih
    refine ⟨expiration, List.mem_append_left _ added, ?_, ?_⟩
    · rw [ranAt_append]
      exact paced.ran awaits due
    · rw [ranAt_append]
      exact List.getLast?_concat
  | freed _ _ ih =>
    obtain ⟨expiration, added, paced, awaits⟩ := ih
    refine ⟨expiration, List.mem_append_left _ added, ?_, trivial⟩
    rw [ranAt_append, show ranAt [.freed _] = [] from rfl, List.append_nil]
    exact paced
  | putBack _ again whole ih =>
    obtain ⟨expiration, added, paced, awaits⟩ := ih
    refine ⟨expiration, List.mem_append_left _ added, ?_, ?_⟩
    · rw [ranAt_append, show ranAt [.putBack _ _ _] = [] from rfl, List.append_nil]
      exact paced
    · rw [ranAt_append, show ranAt [.putBack _ _ _] = [] from rfl, List.append_nil]
      exact .inr ⟨again, _, _, awaits, whole, rfl⟩

namespace TimeQueue

/-- A timer runs at its expiration at the earliest, and a one-shot timer once at most. Two runs
of a repeating timer between which there were others are as many intervals apart. -/
theorem timers_paced {q : TimeQueue} (reached : ReachesBy step OnTime new q) {n : ℕ}
    (made : 1 ≤ n) (known : n ≤ q.numCreated) :
    ∃ expiration interval, .added n expiration interval ∈ q.history ∧
      (interval.positive = false → (ranAt (q.events n)).length ≤ 1) ∧
      (∀ a ∈ (ranAt (q.events n)).head?, expiration ≤ a) ∧
      ∀ delta, microSeconds interval = some delta → ∀ i j a b, i ≤ j →
        (ranAt (q.events n))[i]? = some a → (ranAt (q.events n))[j]? = some b →
        a + (j - i : ℕ) * delta ≤ b := by
  have keep : ∀ q op r, Inv q 0 [] [] → OnTime q op → q.step op = .ok r → Inv r 0 [] [] :=
    fun _ _ _ inv onTime h => inv.step onTime h
  have inv : Inv q 0 [] [] := ReachesBy.keeps keep reached (new_inv 0)
  have stories : ∃ interval st, Story n interval (q.events n) st := by
    rcases inv.kept.stories n made known with
      ⟨_, info, _, _, story⟩ | ⟨_, interval, story⟩
    · exact ⟨_, _, story⟩
    · exact ⟨_, _, story⟩
  obtain ⟨interval, st, story⟩ := stories
  obtain ⟨expiration, added, paced, _⟩ := story.paced
  refine ⟨expiration, interval, (List.mem_filter.mp added).1, paced.once, paced.first, ?_⟩
  intro delta whole i j a b le ha hb
  exact le_of_isChain (paced.apart delta whole) le ha hb

/-- A timer of every two seconds, read late twice. -/
def everyTwo : List Op :=
  [.addTimer ⟨8, 5, .ofInt 2⟩, .handleRead 7 (fun _ => []), .handleRead 2000010 (fun _ => [])]

/-- Only timer 8 is due, and it repeats every two seconds. -/
def onlyEight (q : TimeQueue) (now : ℤ) : Bool :=
  (q.dueAt now).map Entry.timer == [8] && (q.heap 8).any (fun info => info.interval == .ofInt 2)

theorem punctual_of_onlyEight {q : TimeQueue} {now : ℤ} (eight : onlyEight q now)
    (exactly : Timestamp.Exact now 2000000) : Punctual q now (q.dueAt now) := by
  simp only [onlyEight, Bool.and_eq_true, beq_iff_eq] at eight
  obtain ⟨due, repeats⟩ := eight
  intro e mem info here _
  have is_eight : e.timer ∈ [8] := due ▸ List.mem_map_of_mem mem
  rw [List.mem_singleton.mp is_eight] at here
  rw [here, Option.any_some, beq_iff_eq] at repeats
  rw [repeats]
  exact ⟨2000000, by decide, exactly⟩

theorem timers_paced_everyTwo : ∃ q, run step new everyTwo = .ok q ∧
    ranAt (q.events 1) = [7, 2000010] ∧ 7 + (1 - 0 : ℕ) * 2000000 ≤ (2000010 : ℤ) := by
  obtain ⟨o, ho, later⟩ := ok_of_any (o := new.step (.addTimer ⟨8, 5, .ofInt 2⟩))
    (p := fun o => o.onlyEight 7 &&
      (o.step (.handleRead 7 (fun _ => []))).toOption.any (fun p => p.onlyEight 2000010 &&
        (p.step (.handleRead 2000010 (fun _ => []))).toOption.any (fun q =>
          q.numCreated == 1 && q.history == [.added 1 5 (.ofInt 2), .ran 1 5 7,
            .putBack 1 7 2000007, .ran 1 2000007 2000010, .putBack 1 2000010 4000010])))
    (by decide +kernel)
  simp only [Bool.and_eq_true] at later
  obtain ⟨first, later⟩ := later
  obtain ⟨p, hp, later⟩ := ok_of_any later
  simp only [Bool.and_eq_true] at later
  obtain ⟨second, later⟩ := later
  obtain ⟨q, hq, told⟩ := ok_of_any later
  simp only [Bool.and_eq_true, beq_iff_eq] at told
  obtain ⟨created, history⟩ := told
  have ran : run step new everyTwo = .ok q := by
    rw [everyTwo, run_cons_ok ho, run_cons_ok hp, run_cons_ok hq]
    rfl
  have onTime : Along step OnTime new everyTwo := by
    refine (along_cons_ok ho).mpr ⟨trivial, (along_cons_ok hp).mpr ⟨?_, ?_⟩⟩
    · exact punctual_of_onlyEight first ⟨by decide, by decide, 2000007, 0, by decide, by decide⟩
    · refine (along_cons_ok hq).mpr ⟨punctual_of_onlyEight second ?_, trivial⟩
      exact ⟨by decide, by decide, 4000010, 0, by decide, by decide⟩
  obtain ⟨expiration, interval, added, _, _, apart⟩ :=
    timers_paced ⟨everyTwo, onTime, ran⟩ (n := 1) (Nat.le_refl 1) (by rw [created])
  have is_two : expiration = 5 ∧ interval = .ofInt 2 := by
    simpa [history] using added
  have times : ranAt (q.events 1) = [7, 2000010] := by
    rw [events, history]
    rfl
  rw [times] at apart
  exact ⟨q, ran, times, apart 2000000 (by rw [is_two.2]; decide) 0 1 7 2000010 (by decide) rfl rfl⟩

end TimeQueue

end ZDQ
