import ThreadAndNet.TimeQueue

/-!
# Runs of the queue of timers

Each timer has a story: it is added, it runs when it is due, and then it is freed or
put back. Inside `handleRead` the expired timers are out of `timers_`, first due and
then done; the invariant follows them through both lists.
-/

namespace ZDQ

open Machine

/-- The whole microseconds of an interval, as `nowAfter` computes them. -/
def microSeconds (interval : Binary64) : Option ℤ :=
  (interval.scale Timestamp.kMicroSecondsPerSecond).toInt?

inductive TimerStatus where
  | waiting (expiration : ℤ)
  | running (now : ℤ)
  | gone

/-- All that may ever happen to timer `n`, in order. It runs only when it is due; a
one-shot timer is freed then, a repeating one is put back for `now + interval`. -/
inductive Story (n : ℕ) (interval : Binary64) : List TimerEvent → TimerStatus → Prop where
  | added (expiration : ℤ) :
      Story n interval [.added n expiration interval] (.waiting expiration)
  | ran {h : List TimerEvent} {expiration now : ℤ} :
      Story n interval h (.waiting expiration) → expiration ≤ now →
      Story n interval (h ++ [.ran n expiration now]) (.running now)
  | freed {h : List TimerEvent} {now : ℤ} :
      Story n interval h (.running now) → interval.positive = false →
      Story n interval (h ++ [.freed n]) .gone
  | putBack {h : List TimerEvent} {now delta : ℤ} :
      Story n interval h (.running now) → interval.positive = true →
      microSeconds interval = some delta →
      Story n interval (h ++ [.putBack n now (now + delta)]) (.waiting (now + delta))

namespace TimeQueue

/-- What happened to timer `n`. -/
def events (q : TimeQueue) (n : ℕ) : List TimerEvent :=
  q.history.filter (fun x => x.timer == n)

/-- The timers a history ran, with the expirations they had. -/
def runs (h : List TimerEvent) : List (ℕ × ℤ) :=
  h.filterMap (fun x =>
    match x with
    | .ran timer expiration _ => some (timer, expiration)
    | .added _ _ _ => none
    | .putBack _ _ _ => none
    | .freed _ => none)

section Fields
variable (q : TimeQueue) (p n : ℕ) (info : Option TimerInfo) (x : TimerEvent) (e : Entry)

@[simp] theorem heap_see : (q.see x).heap = q.heap := rfl
@[simp] theorem timers_see : (q.see x).timers = q.timers := rfl
@[simp] theorem numCreated_see : (q.see x).numCreated = q.numCreated := rfl
@[simp] theorem history_see : (q.see x).history = q.history ++ [x] := rfl
@[simp] theorem timers_putInfo : (q.putInfo p info).timers = q.timers := rfl
@[simp] theorem numCreated_putInfo : (q.putInfo p info).numCreated = q.numCreated := rfl
@[simp] theorem history_putInfo : (q.putInfo p info).history = q.history := rfl

@[simp] theorem heap_putInfo_self : (q.putInfo p info).heap p = info :=
  Function.update_self ..

theorem heap_putInfo_other {p p' : ℕ} (other : p' ≠ p) :
    (q.putInfo p info).heap p' = q.heap p' := Function.update_of_ne other ..

@[simp] theorem timers_insert : (q.insert e).timers = q.timers.insert e := by
  simp only [insert]
  split
  · rfl
  · split <;> rfl

@[simp] theorem heap_insert : (q.insert e).heap = q.heap := by
  simp only [insert]
  split
  · rfl
  · split <;> rfl

@[simp] theorem numCreated_insert : (q.insert e).numCreated = q.numCreated := by
  simp only [insert]
  split
  · rfl
  · split <;> rfl

@[simp] theorem history_insert : (q.insert e).history = q.history := by
  simp only [insert]
  split
  · rfl
  · split <;> rfl

end Fields

theorem events_other {q r : TimeQueue} {x : TimerEvent} (h : r.history = q.history ++ [x])
    {n : ℕ} (other : x.timer ≠ n) : r.events n = q.events n := by
  simp [events, h, other]

theorem events_self {q r : TimeQueue} {x : TimerEvent} (h : r.history = q.history ++ [x]) :
    r.events x.timer = q.events x.timer ++ [x] := by
  simp [events, h]

/-- The object at address `p` and how far its story has got. -/
structure At (q : TimeQueue) (p : ℕ) (info : TimerInfo) (st : TimerStatus) : Prop where
  live : q.heap p = some info
  story : Story info.sequence info.interval (q.events info.sequence) st

/-- Between the steps of `handleRead`: `due` are the expired timers that have not run
yet, `done` those that have. -/
structure Inv (q : TimeQueue) (now : ℤ) (due done : List Entry) : Prop where
  nodup : ((q.timers.toList ++ due ++ done).map Entry.timer).Nodup
  listed : ∀ p info, q.heap p = some info →
    p ∈ (q.timers.toList ++ due ++ done).map Entry.timer
  waiting : ∀ e ∈ q.timers.toList ++ due, ∃ info, info.expiration = e.time ∧
    At q e.timer info (.waiting e.time)
  expired : ∀ e ∈ due, e.time ≤ now
  running : ∀ e ∈ done, ∃ info, At q e.timer info (.running now)
  address : ∀ p info, q.heap p = some info → p < UINTPTR_MAX
  numbered : ∀ p info, q.heap p = some info →
    1 ≤ info.sequence ∧ info.sequence ≤ q.numCreated
  distinct : ∀ p p' info info', q.heap p = some info → q.heap p' = some info' →
    info.sequence = info'.sequence → p = p'
  gone : ∀ n, 1 ≤ n → n ≤ q.numCreated →
    (∀ p info, q.heap p = some info → info.sequence ≠ n) →
    ∃ interval, Story n interval (q.events n) .gone
  unborn : ∀ n, q.numCreated < n → q.events n = []

/-- Another state in which an object and what happened to it are the same. -/
theorem At.frame {q r : TimeQueue} {p : ℕ} {info : TimerInfo} {st : TimerStatus}
    (h : At q p info st) (heap : r.heap p = q.heap p)
    (events : r.events info.sequence = q.events info.sequence) : At r p info st :=
  ⟨heap.trans h.live, by rw [events]; exact h.story⟩

theorem Inv.live {q : TimeQueue} {now : ℤ} {due done : List Entry}
    (inv : Inv q now due done) {e : Entry} (mem : e ∈ q.timers.toList ++ due ++ done) :
    ∃ info, q.heap e.timer = some info := by
  rcases List.mem_append.mp mem with mem | mem
  · obtain ⟨info, _, here⟩ := inv.waiting e mem
    exact ⟨info, here.live⟩
  · obtain ⟨info, here⟩ := inv.running e mem
    exact ⟨info, here.live⟩

/-! ## Adding a timer -/

/-- What `addTimer` does. -/
structure Added (q r : TimeQueue) (a : Addition) : Prop where
  small : a.address < UINTPTR_MAX
  free : q.heap a.address = none
  timers : r.timers = q.timers.insert (toLex (a.when, a.address))
  self : r.heap a.address = some ⟨a.when, a.interval, q.numCreated + 1⟩
  others : ∀ p, p ≠ a.address → r.heap p = q.heap p
  numCreated : r.numCreated = q.numCreated + 1
  history : r.history = q.history ++ [.added (q.numCreated + 1) a.when a.interval]

theorem addTimer_added {q r : TimeQueue} {a : Addition} (h : q.addTimer a = .ok r) :
    Added q r a := by
  unfold addTimer at h
  split at h
  · rename_i free
    simp only [addTimerInloop, heap_see, heap_putInfo_self] at h
    cases h
    refine ⟨free.1, Option.isNone_iff_eq_none.mp free.2, by simp, by simp, ?_, by simp,
      by simp⟩
    intro p other
    rw [heap_insert, heap_see, heap_putInfo_other _ _ other]
  · cases h

theorem addTimer_disabled {q : TimeQueue} {a : Addition} {f : Failure}
    (h : q.addTimer a = .error f) : f = .disabled := by
  unfold addTimer at h
  split at h
  · simp only [addTimerInloop, heap_see, heap_putInfo_self] at h
    cases h
  · cases h
    rfl

/-- What adding a timer does to the rest of the queue. -/
structure Adds (q r : TimeQueue) : Prop where
  heap : ∀ p info, q.heap p = some info → r.heap p = some info
  runs : TimeQueue.runs r.history = TimeQueue.runs q.history

theorem Adds.refl (q : TimeQueue) : Adds q q := ⟨fun _ _ => id, rfl⟩

theorem Adds.trans {q r t : TimeQueue} (h : Adds q r) (h' : Adds r t) : Adds q t :=
  ⟨fun p info live => h'.heap p info (h.heap p info live), h'.runs.trans h.runs⟩

theorem Added.heap {q r : TimeQueue} {a : Addition} (h : Added q r a) {p : ℕ}
    {info : TimerInfo} (live : q.heap p = some info) : r.heap p = some info := by
  have other : p ≠ a.address := by
    rintro rfl
    rw [h.free] at live
    cases live
  rw [h.others p other, live]

theorem Added.live_cases {q r : TimeQueue} {a : Addition} (h : Added q r a) {p : ℕ}
    {info : TimerInfo} (live : r.heap p = some info) :
    p = a.address ∧ info = ⟨a.when, a.interval, q.numCreated + 1⟩ ∨ q.heap p = some info := by
  by_cases here : p = a.address
  · subst here
    rw [h.self] at live
    exact Or.inl ⟨rfl, (Option.some.inj live).symm⟩
  · rw [h.others p here] at live
    exact Or.inr live

theorem Added.adds {q r : TimeQueue} {a : Addition} (h : Added q r a) : Adds q r :=
  ⟨fun _ _ live => h.heap live, by simp [h.history, TimeQueue.runs]⟩

section

variable {q r : TimeQueue} {now : ℤ} {due done : List Entry} {a : Addition}

/-- The new object is none of those that are known. -/
theorem Inv.added_fresh (inv : Inv q now due done) (h : Added q r a) :
    ∀ e ∈ q.timers.toList ++ due ++ done, e.timer ≠ a.address := by
  intro e mem same
  obtain ⟨info, live⟩ := inv.live mem
  rw [same, h.free] at live
  cases live

theorem Inv.added_perm (inv : Inv q now due done) (h : Added q r a) :
    r.timers.toList.Perm (toLex (a.when, a.address) :: q.timers.toList) := by
  have new : toLex (a.when, a.address) ∉ q.timers.toList := fun mem =>
    inv.added_fresh h _ (List.mem_append_left _ (List.mem_append_left _ mem)) rfl
  rw [h.timers]
  exact OrderedSet.insert_perm new

theorem Inv.added_at (inv : Inv q now due done) (h : Added q r a) {p : ℕ} {info : TimerInfo}
    {st : TimerStatus} (here : At q p info st) : At r p info st := by
  have old := (inv.numbered p info here.live).2
  exact here.frame ((h.heap here.live).trans here.live.symm) (events_other h.history (by
    show q.numCreated + 1 ≠ info.sequence
    omega))

/-- The new timer waits, with nothing before it in its story. -/
theorem Inv.added_waiting (inv : Inv q now due done) (h : Added q r a) :
    At r a.address ⟨a.when, a.interval, q.numCreated + 1⟩ (.waiting a.when) := by
  refine ⟨h.self, ?_⟩
  have born := events_self h.history
  rw [TimerEvent.timer, inv.unborn _ (Nat.lt_succ_self _)] at born
  rw [born]
  exact .added a.when

theorem Inv.added (inv : Inv q now due done) (h : Added q r a) : Inv r now due done where
  nodup := by
    have perm := ((inv.added_perm h).append_right due).append_right done
    rw [(perm.map Entry.timer).nodup_iff, List.cons_append, List.cons_append, List.map_cons,
      List.nodup_cons]
    refine ⟨?_, inv.nodup⟩
    intro mem
    obtain ⟨e, he, same⟩ := List.mem_map.mp mem
    exact inv.added_fresh h e he same
  listed := by
    intro p info live
    have perm := ((inv.added_perm h).append_right due).append_right done
    rw [(perm.map Entry.timer).mem_iff, List.cons_append, List.cons_append, List.map_cons,
      List.mem_cons]
    by_cases other : p = a.address
    · exact Or.inl other
    · rw [h.others p other] at live
      exact Or.inr (inv.listed p info live)
  waiting := by
    intro e mem
    rw [((inv.added_perm h).append_right due).mem_iff, List.cons_append, List.mem_cons] at mem
    rcases mem with rfl | old
    · exact ⟨_, rfl, inv.added_waiting h⟩
    · obtain ⟨info, time, here⟩ := inv.waiting e old
      exact ⟨info, time, inv.added_at h here⟩
  expired := inv.expired
  running := by
    intro e mem
    obtain ⟨info, here⟩ := inv.running e mem
    exact ⟨info, inv.added_at h here⟩
  address := by
    intro p info live
    rcases h.live_cases live with ⟨rfl, _⟩ | old
    · exact h.small
    · exact inv.address p info old
  numbered := by
    intro p info live
    rw [h.numCreated]
    rcases h.live_cases live with ⟨_, rfl⟩ | old
    · exact ⟨Nat.le_add_left _ _, Nat.le_refl _⟩
    · have := inv.numbered p info old
      omega
  distinct := by
    intro p p' info info' live live' same
    rcases h.live_cases live with ⟨rfl, rfl⟩ | old <;>
      rcases h.live_cases live' with ⟨rfl, rfl⟩ | old'
    · rfl
    · have := (inv.numbered p' info' old').2
      dsimp only at same
      omega
    · have := (inv.numbered p info old).2
      dsimp only at same
      omega
    · exact inv.distinct p p' info info' old old' same
  gone := by
    intro n first last dead
    rw [h.numCreated] at last
    have other : n ≠ q.numCreated + 1 := by
      rintro rfl
      exact dead _ _ h.self rfl
    rw [events_other h.history (Ne.symm other)]
    exact inv.gone n first (by omega) (fun p info live => dead p info (h.heap live))
  unborn := by
    intro n later
    rw [h.numCreated] at later
    rw [events_other h.history (show q.numCreated + 1 ≠ n by omega)]
    exact inv.unborn n (by omega)

end

theorem run_addTimer {now : ℤ} {due done : List Entry} {additions : List Addition}
    {q r : TimeQueue} (inv : Inv q now due done) (h : run addTimer q additions = .ok r) :
    Inv r now due done ∧ Adds q r := by
  induction additions generalizing q with
  | nil =>
    cases h
    exact ⟨inv, Adds.refl _⟩
  | cons a rest ih =>
    obtain ⟨m, hm, hrest⟩ := run_cons_inv h
    have first := addTimer_added hm
    obtain ⟨inv', later⟩ := ih (inv.added first) hrest
    exact ⟨inv', first.adds.trans later⟩

theorem run_addTimer_disabled {additions : List Addition} {q : TimeQueue} {f : Failure}
    (h : run addTimer q additions = .error f) : f = .disabled := by
  induction additions generalizing q with
  | nil => cases h
  | cons a rest ih =>
    cases hq : q.addTimer a with
    | ok m =>
      rw [run_cons_ok hq] at h
      exact ih h
    | error e =>
      rw [run_cons_error hq] at h
      cases h
      exact addTimer_disabled hq

/-! ## Taking and running the expired timers -/

theorem lt_nowEntry {now : ℤ} {e : Entry} (small : e.timer < UINTPTR_MAX) :
    e < nowEntry now ↔ e.time ≤ now := by
  rw [nowEntry, Prod.Lex.lt_iff]
  show e.time < now ∨ e.time = now ∧ e.timer < UINTPTR_MAX ↔ e.time ≤ now
  omega

theorem time_le_of_lt {e e' : Entry} (less : e < e') : e.time ≤ e'.time := by
  rw [Prod.Lex.lt_iff] at less
  rcases less with less | ⟨same, _⟩
  · exact le_of_lt less
  · exact le_of_eq same

/-- The entries of `timers_` that are due, in the order of the set. -/
def dueAt (q : TimeQueue) (now : ℤ) : List Entry :=
  q.timers.toList.filter (fun e => e.time ≤ now)

/-- As no address is `UINTPTR_MAX`, exactly the due timers are taken out, and the assertion
holds. -/
theorem getAllExpiredTimers_eq {q : TimeQueue}
    (small : ∀ e ∈ q.timers.toList, e.timer < UINTPTR_MAX) (now : ℤ) :
    q.getAllExpiredTimers now =
        .ok (q.dueAt now, { q with timers := q.timers.eraseBelow (nowEntry now) }) ∧
      q.dueAt now ++ (q.timers.eraseBelow (nowEntry now)).toList = q.timers.toList := by
  have split := q.timers.below_append_eraseBelow (nowEntry now)
  have rest : ∀ e ∈ (q.timers.eraseBelow (nowEntry now)).toList, now < e.time := by
    intro e mem
    have kept : e ∈ q.timers.toList := by
      rw [← split]
      exact List.mem_append_right _ mem
    have late := not_lt.mpr (OrderedSet.le_of_mem_eraseBelow mem)
    rw [lt_nowEntry (small e kept)] at late
    exact not_le.mp late
  have due : q.timers.below (nowEntry now) = q.dueAt now := by
    rw [OrderedSet.below_eq_filter, dueAt]
    refine List.filter_congr fun e mem => ?_
    rw [decide_eq_decide]
    exact lt_nowEntry (small e mem)
  refine ⟨?_, by rw [← due, split]⟩
  simp only [TimeQueue.getAllExpiredTimers, due]
  rw [if_pos]
  cases hfirst : (q.timers.eraseBelow (nowEntry now)).toList.head? with
  | none => rfl
  | some first =>
    rw [decide_eq_true_iff]
    exact rest first (List.mem_of_head? hfirst)

/-- Only where the entries are has changed. -/
theorem Inv.regroup {q r : TimeQueue} {now : ℤ} {due due' done : List Entry}
    (inv : Inv q now due done) (heap : r.heap = q.heap) (history : r.history = q.history)
    (numCreated : r.numCreated = q.numCreated)
    (perm : (r.timers.toList ++ due').Perm (q.timers.toList ++ due))
    (expired : ∀ e ∈ due', e.time ≤ now) : Inv r now due' done := by
  have all := (perm.append_right done).map Entry.timer
  have events : ∀ n, r.events n = q.events n := fun n => by rw [events, events, history]
  have here : ∀ {p info st}, At q p info st → At r p info st :=
    fun here => here.frame (by rw [heap]) (events _)
  refine ⟨?_, ?_, ?_, expired, ?_, ?_, ?_, ?_, ?_, ?_⟩
  · rw [all.nodup_iff]
    exact inv.nodup
  · intro p info live
    rw [heap] at live
    rw [all.mem_iff]
    exact inv.listed p info live
  · intro e mem
    obtain ⟨info, time, there⟩ := inv.waiting e (perm.mem_iff.mp mem)
    exact ⟨info, time, here there⟩
  · intro e mem
    obtain ⟨info, there⟩ := inv.running e mem
    exact ⟨info, here there⟩
  · rw [heap]
    exact inv.address
  · rw [heap, numCreated]
    exact inv.numbered
  · rw [heap]
    exact inv.distinct
  · simp only [heap, numCreated, events]
    exact inv.gone
  · simp only [numCreated, events]
    exact inv.unborn

/-- With no timer out of `timers_`, the clock plays no part. -/
theorem Inv.anytime {q : TimeQueue} {now : ℤ} (inv : Inv q now [] []) (later : ℤ) :
    Inv q later [] [] :=
  ⟨inv.nodup, inv.listed, inv.waiting, fun _ mem => absurd mem List.not_mem_nil,
    fun _ mem => absurd mem List.not_mem_nil, inv.address, inv.numbered, inv.distinct,
    inv.gone, inv.unborn⟩

/-- The first expired timers are taken out, and the assertion holds. -/
theorem Inv.getAllExpiredTimers {q : TimeQueue} {before : ℤ} (inv : Inv q before [] [])
    (now : ℤ) : ∃ r, q.getAllExpiredTimers now = .ok (q.dueAt now, r) ∧
      Inv r now (q.dueAt now) [] ∧ r.heap = q.heap ∧ r.history = q.history := by
  have small : ∀ e ∈ q.timers.toList, e.timer < UINTPTR_MAX := by
    intro e mem
    obtain ⟨info, live⟩ := inv.live (List.mem_append_left _ (List.mem_append_left _ mem))
    exact inv.address _ _ live
  obtain ⟨taken, split⟩ := getAllExpiredTimers_eq small now
  refine ⟨_, taken, (inv.anytime now).regroup rfl rfl rfl ?_ ?_, rfl, rfl⟩
  · rw [List.append_nil]
    exact List.perm_append_comm.trans (.of_eq split)
  · intro e mem
    exact of_decide_eq_true (List.mem_filter.mp mem).2

theorem Inv.apart {q : TimeQueue} {now : ℤ} {due done rest : List Entry}
    (inv : Inv q now due done) {e e' : Entry}
    (perm : (q.timers.toList ++ due ++ done).Perm (e :: rest)) (mem : e' ∈ rest) :
    e'.timer ≠ e.timer := by
  have nodup := inv.nodup
  rw [(perm.map Entry.timer).nodup_iff, List.map_cons, List.nodup_cons] at nodup
  intro same
  exact nodup.1 (List.mem_map.mpr ⟨e', mem, same⟩)

/-- Event `x` changed the object of one entry only, if any. -/
structure Changes (q r : TimeQueue) (e : Entry) (info : TimerInfo) (x : TimerEvent) : Prop where
  live : q.heap e.timer = some info
  self : ∀ i, r.heap e.timer = some i → i.sequence = info.sequence
  others : ∀ p, p ≠ e.timer → r.heap p = q.heap p
  numCreated : r.numCreated = q.numCreated
  seen : r.history = q.history ++ [x]
  about : x.timer = info.sequence

theorem Changes.before {q r : TimeQueue} {e : Entry} {info : TimerInfo} {x : TimerEvent}
    (h : Changes q r e info x) {p : ℕ} {i : TimerInfo} (live : r.heap p = some i) :
    ∃ i', q.heap p = some i' ∧ i'.sequence = i.sequence := by
  by_cases same : p = e.timer
  · subst same
    exact ⟨info, h.live, (h.self i live).symm⟩
  · exact ⟨i, (h.others p same).symm.trans live, rfl⟩

/-- What happens to the timer of one entry changes nothing for the others. -/
theorem Inv.carry {q r : TimeQueue} {now : ℤ} {due done rest : List Entry}
    (inv : Inv q now due done) {e e' : Entry}
    (perm : (q.timers.toList ++ due ++ done).Perm (e :: rest)) {info : TimerInfo}
    {x : TimerEvent} (h : Changes q r e info x) (mem : e' ∈ rest) {info' : TimerInfo}
    {st : TimerStatus} (here : At q e'.timer info' st) : At r e'.timer info' st := by
  have other := inv.apart perm mem
  refine here.frame (h.others _ other) (events_other h.seen ?_)
  intro same
  exact other (inv.distinct _ _ _ _ here.live h.live (same.symm.trans h.about))

/-- No timer gets another address or number. -/
theorem Inv.changes {q r : TimeQueue} {now : ℤ} {due done : List Entry}
    (inv : Inv q now due done) {e : Entry} {info : TimerInfo} {x : TimerEvent}
    (h : Changes q r e info x) :
    (∀ p i, r.heap p = some i → p < UINTPTR_MAX) ∧
    (∀ p i, r.heap p = some i → 1 ≤ i.sequence ∧ i.sequence ≤ r.numCreated) ∧
    (∀ p p' i i', r.heap p = some i → r.heap p' = some i' → i.sequence = i'.sequence → p = p') ∧
    (∀ n, r.numCreated < n → r.events n = []) := by
  refine ⟨?_, ?_, ?_, ?_⟩
  · intro p i live
    obtain ⟨i', live', _⟩ := h.before live
    exact inv.address p i' live'
  · intro p i live
    obtain ⟨i', live', same⟩ := h.before live
    rw [h.numCreated, ← same]
    exact inv.numbered p i' live'
  · intro p p' i i' live live' same
    obtain ⟨j, old, hj⟩ := h.before live
    obtain ⟨j', old', hj'⟩ := h.before live'
    exact inv.distinct p p' j j' old old' (hj.trans (same.trans hj'.symm))
  · intro n later
    rw [h.numCreated] at later
    have known := (inv.numbered e.timer info h.live).2
    have other : x.timer ≠ n := by
      rw [h.about]
      omega
    rw [events_other h.seen other]
    exact inv.unborn n later

/-- A timer whose story is over is none of those alive. -/
theorem Inv.gone_other {q r : TimeQueue} {now : ℤ} {due done : List Entry}
    (inv : Inv q now due done) {e : Entry} {info : TimerInfo} {x : TimerEvent}
    (h : Changes q r e info x) {n : ℕ} (low : 1 ≤ n) (high : n ≤ r.numCreated)
    (dead : ∀ p i, r.heap p = some i → i.sequence ≠ n) (other : info.sequence ≠ n) :
    ∃ interval, Story n interval (r.events n) .gone := by
  rw [h.numCreated] at high
  rw [events_other h.seen (by rw [h.about]; exact other)]
  refine inv.gone n low high fun p i live => ?_
  by_cases same : p = e.timer
  · subst same
    cases live.symm.trans h.live
    exact other
  · exact dead p i ((h.others p same).trans live)

theorem Inv.ran {q : TimeQueue} {now : ℤ} {e : Entry} {due done : List Entry}
    (inv : Inv q now (e :: due) done) {info : TimerInfo}
    (live : q.heap e.timer = some info) :
    Inv (q.see (.ran info.sequence info.expiration now)) now due (e :: done) := by
  have first : (q.timers.toList ++ e :: due ++ done).Perm
      (e :: (q.timers.toList ++ due ++ done)) := by
    rw [List.append_assoc, List.cons_append, List.append_assoc]
    exact List.perm_middle
  have perm : (q.timers.toList ++ due ++ e :: done).Perm
      (q.timers.toList ++ e :: due ++ done) := List.perm_middle.trans first.symm
  have h : Changes q (q.see (.ran info.sequence info.expiration now)) e info
      (.ran info.sequence info.expiration now) :=
    ⟨live, fun i hi => by rw [Option.some.inj (hi.symm.trans live)], fun _ _ => rfl, rfl, rfl, rfl⟩
  obtain ⟨address, numbered, distinct, unborn⟩ := inv.changes h
  obtain ⟨info', time, here⟩ := inv.waiting e (by simp)
  cases here.live.symm.trans live
  refine ⟨?_, ?_, ?_, ?_, ?_, address, numbered, distinct, ?_, unborn⟩
  · rw [timers_see, (perm.map Entry.timer).nodup_iff]
    exact inv.nodup
  · intro p info live
    rw [timers_see, (perm.map Entry.timer).mem_iff]
    exact inv.listed p info live
  · intro e' mem
    rw [timers_see] at mem
    have old : e' ∈ q.timers.toList ++ e :: due := by
      rcases List.mem_append.mp mem with mem | mem
      · exact List.mem_append_left _ mem
      · exact List.mem_append_right _ (List.mem_cons_of_mem e mem)
    obtain ⟨info', time, here⟩ := inv.waiting e' old
    exact ⟨info', time, inv.carry first h (List.mem_append_left _ mem) here⟩
  · exact fun e' mem => inv.expired e' (List.mem_cons_of_mem e mem)
  · intro e' mem
    rcases List.mem_cons.mp mem with rfl | mem
    · refine ⟨info, live, ?_⟩
      have told := events_self h.seen
      rw [TimerEvent.timer, time] at told
      rw [time, told]
      exact .ran here.story (inv.expired e' List.mem_cons_self)
    · obtain ⟨info', here⟩ := inv.running e' mem
      exact ⟨info', inv.carry first h (List.mem_append_right _ mem) here⟩
  · exact fun n low high dead => inv.gone_other h low high dead (dead _ _ live)

/-- The timer an entry stands for, as it is told of when it runs. -/
def told (q : TimeQueue) (e : Entry) : Option (ℕ × ℤ) :=
  (q.heap e.timer).map (fun info => (info.sequence, info.expiration))

theorem Inv.runTimer {q r : TimeQueue} {now : ℤ} {e : Entry} {due done : List Entry}
    (inv : Inv q now (e :: due) done) {callback : ℕ → List Addition}
    (h : q.runTimer now callback e = .ok r) :
    Inv r now due (e :: done) ∧
      (∀ p info, q.heap p = some info → r.heap p = some info) ∧
      runs r.history = runs q.history ++ (q.told e).toList := by
  unfold TimeQueue.runTimer at h
  split at h
  · cases h
  · rename_i info live
    obtain ⟨inv', adds⟩ := run_addTimer (inv.ran live) h
    refine ⟨inv', adds.heap, ?_⟩
    rw [adds.runs]
    simp [runs, told, live]

theorem Inv.run_runTimer {now : ℤ} {callback : ℕ → List Addition} {due done : List Entry}
    {q r : TimeQueue} (inv : Inv q now due done)
    (h : run (TimeQueue.runTimer now callback) q due = .ok r) :
    Inv r now [] (due.reverse ++ done) ∧
      (∀ p info, q.heap p = some info → r.heap p = some info) ∧
      runs r.history = runs q.history ++ due.filterMap q.told := by
  induction due generalizing q done with
  | nil =>
    cases h
    exact ⟨inv, fun _ _ => id, by simp⟩
  | cons e rest ih =>
    obtain ⟨m, hm, hrest⟩ := run_cons_inv h
    obtain ⟨first, kept, ran⟩ := inv.runTimer hm
    obtain ⟨last, kept', ran'⟩ := ih first hrest
    have same : rest.filterMap m.told = rest.filterMap q.told := by
      refine List.filterMap_congr fun e' mem => ?_
      obtain ⟨info, live⟩ := inv.live (e := e') (by simp [mem])
      simp [told, live, kept _ _ live]
    refine ⟨by simpa using last, fun p info live => kept' p info (kept p info live), ?_⟩
    rw [ran', ran, same, List.append_assoc]
    congr 1
    obtain ⟨info, live⟩ := inv.live (e := e) (by simp)
    simp [told, live]

/-! ## Freeing the expired timers or putting them back -/

theorem Inv.freed {q : TimeQueue} {now : ℤ} {e : Entry} {done : List Entry}
    (inv : Inv q now [] (e :: done)) {info : TimerInfo} (live : q.heap e.timer = some info)
    (once : info.IsRepeat = false) :
    Inv ((q.putInfo e.timer none).see (.freed info.sequence)) now [] done := by
  have perm : (q.timers.toList ++ [] ++ e :: done).Perm (e :: (q.timers.toList ++ [] ++ done)) :=
    List.perm_middle
  have nodup := inv.nodup
  rw [(perm.map Entry.timer).nodup_iff, List.map_cons, List.nodup_cons] at nodup
  have none : ((q.putInfo e.timer none).see (.freed info.sequence)).heap e.timer = none := by
    rw [heap_see, heap_putInfo_self]
  have h : Changes q ((q.putInfo e.timer Option.none).see (.freed info.sequence)) e info
      (.freed info.sequence) :=
    ⟨live, fun i hi => absurd (none.symm.trans hi) (by simp),
      fun p other => heap_putInfo_other _ _ other, rfl, rfl, rfl⟩
  obtain ⟨address, numbered, distinct, unborn⟩ := inv.changes h
  refine ⟨nodup.2, ?_, ?_, fun _ mem => absurd mem List.not_mem_nil, ?_, address, numbered,
    distinct, ?_, unborn⟩
  · intro p i hp
    have other : p ≠ e.timer := by
      rintro rfl
      cases none.symm.trans hp
    have mem := inv.listed p i ((h.others p other).symm.trans hp)
    rw [(perm.map Entry.timer).mem_iff, List.map_cons, List.mem_cons] at mem
    exact mem.resolve_left other
  · intro e' mem
    obtain ⟨info', time, here⟩ := inv.waiting e' mem
    exact ⟨info', time, inv.carry perm h (List.mem_append_left _ mem) here⟩
  · intro e' mem
    obtain ⟨info', here⟩ := inv.running e' (List.mem_cons_of_mem e mem)
    exact ⟨info', inv.carry perm h (List.mem_append_right _ mem) here⟩
  · intro n low high dead
    by_cases this : info.sequence = n
    · subst this
      obtain ⟨info', here⟩ := inv.running e List.mem_cons_self
      cases here.live.symm.trans live
      have told := events_self h.seen
      rw [TimerEvent.timer] at told
      rw [told]
      exact ⟨info.interval, .freed here.story once⟩
    · exact inv.gone_other h low high dead this

theorem Inv.putBack {q r : TimeQueue} {now delta : ℤ} {e : Entry} {done : List Entry}
    (inv : Inv q now [] (e :: done)) {info : TimerInfo} (live : q.heap e.timer = some info)
    (again : info.IsRepeat = true) (whole : microSeconds info.interval = some delta)
    (hr : r = ((q.putInfo e.timer (some { info with expiration := now + delta })).see
      (.putBack info.sequence now (now + delta))).insert (toLex (now + delta, e.timer))) :
    Inv r now [] done := by
  have perm : (q.timers.toList ++ [] ++ e :: done).Perm (e :: (q.timers.toList ++ [] ++ done)) :=
    List.perm_middle
  have new : toLex (now + delta, e.timer) ∉ q.timers.toList := fun mem =>
    inv.apart perm (List.mem_append_left _ (List.mem_append_left _ mem)) rfl
  have inserted : r.timers.toList.Perm (toLex (now + delta, e.timer) :: q.timers.toList) := by
    rw [hr, timers_insert]
    exact OrderedSet.insert_perm new
  -- the entry is another one, of the same timer
  have timers : ((r.timers.toList ++ [] ++ done).map Entry.timer).Perm
      ((q.timers.toList ++ [] ++ e :: done).map Entry.timer) := by
    have moved := (inserted.append_right ([] ++ done)).map Entry.timer
    have renamed : (toLex (now + delta, e.timer) :: q.timers.toList ++ ([] ++ done)).map
        Entry.timer = (e :: (q.timers.toList ++ [] ++ done)).map Entry.timer := by
      simp [Entry.timer]
    rw [← List.append_assoc, renamed] at moved
    exact moved.trans (perm.map Entry.timer).symm
  have self : r.heap e.timer = some { info with expiration := now + delta } := by
    rw [hr, heap_insert, heap_see, heap_putInfo_self]
  have h : Changes q r e info (.putBack info.sequence now (now + delta)) := by
    refine ⟨live, fun i hi => by rw [Option.some.inj (hi.symm.trans self)], ?_, ?_, ?_, rfl⟩
    · intro p other
      rw [hr, heap_insert, heap_see, heap_putInfo_other _ _ other]
    · rw [hr, numCreated_insert]
      rfl
    · rw [hr, history_insert]
      rfl
  obtain ⟨address, numbered, distinct, unborn⟩ := inv.changes h
  refine ⟨?_, ?_, ?_, fun _ mem => absurd mem List.not_mem_nil, ?_, address, numbered,
    distinct, ?_, unborn⟩
  · rw [timers.nodup_iff]
    exact inv.nodup
  · intro p i hp
    obtain ⟨i', hq, _⟩ := h.before hp
    rw [timers.mem_iff]
    exact inv.listed p i' hq
  · intro e' mem
    rw [List.append_nil, inserted.mem_iff, List.mem_cons] at mem
    rcases mem with rfl | mem
    · refine ⟨_, rfl, self, ?_⟩
      obtain ⟨info', here⟩ := inv.running e List.mem_cons_self
      cases here.live.symm.trans live
      have told := events_self h.seen
      rw [TimerEvent.timer] at told
      rw [told]
      exact .putBack here.story again whole
    · have waits : e' ∈ q.timers.toList ++ [] := List.mem_append_left _ mem
      obtain ⟨info', time, here⟩ := inv.waiting e' waits
      exact ⟨info', time, inv.carry perm h (List.mem_append_left _ waits) here⟩
  · intro e' mem
    obtain ⟨info', here⟩ := inv.running e' (List.mem_cons_of_mem e mem)
    exact ⟨info', inv.carry perm h (List.mem_append_right _ mem) here⟩
  · intro n low high dead
    exact inv.gone_other h low high dead (dead e.timer { info with expiration := now + delta } self)

/-- The timers of these entries can be put back at the exact time. -/
def Punctual (q : TimeQueue) (now : ℤ) (entries : List Entry) : Prop :=
  ∀ e ∈ entries, ∀ info, q.heap e.timer = some info → info.IsRepeat = true →
    ∃ delta, microSeconds info.interval = some delta ∧ Timestamp.Exact now delta

/-- A timer that is put back at the exact time. -/
theorem resetTimer_putBack {q : TimeQueue} {now delta : ℤ} {e : Entry} {info : TimerInfo}
    (live : q.heap e.timer = some info) (again : info.IsRepeat = true)
    (whole : microSeconds info.interval = some delta) (exact : Timestamp.Exact now delta) :
    q.resetTimer now e =
      .ok (((q.putInfo e.timer (some { info with expiration := now + delta })).see
        (.putBack info.sequence now (now + delta))).insert (toLex (now + delta, e.timer))) := by
  have restarted : info.restart now = .ok { info with expiration := now + delta } := by
    simp only [TimerInfo.restart, again, if_true, (Timestamp.nowAfter_eq_iff whole).mpr exact]
  simp only [TimeQueue.resetTimer, live, again, if_true, restarted]

theorem resetTimer_freed {q : TimeQueue} {e : Entry} {info : TimerInfo}
    (live : q.heap e.timer = some info) (once : info.IsRepeat = false) (now : ℤ) :
    q.resetTimer now e =
      .ok ((q.putInfo e.timer none).see (.freed info.sequence)) := by
  simp only [TimeQueue.resetTimer, live, once, Bool.false_eq_true, if_false]

theorem resetTimer_ok {q : TimeQueue} {now : ℤ} {e : Entry} {done : List Entry}
    (inv : Inv q now [] (e :: done)) (punctual : Punctual q now (e :: done)) :
    ∃ r, q.resetTimer now e = .ok r ∧ Inv r now [] done ∧ Punctual r now done ∧
      runs r.history = runs q.history := by
  obtain ⟨info, here⟩ := inv.running e List.mem_cons_self
  have live := here.live
  have perm : (q.timers.toList ++ [] ++ e :: done).Perm (e :: (q.timers.toList ++ [] ++ done)) :=
    List.perm_middle
  have kept : ∀ {r : TimeQueue}, (∀ p, p ≠ e.timer → r.heap p = q.heap p) →
      Punctual r now done := by
    intro r others e' mem info' live' again
    rw [others _ (inv.apart perm (List.mem_append_right _ mem))] at live'
    exact punctual e' (List.mem_cons_of_mem e mem) info' live' again
  cases again : info.IsRepeat with
  | true =>
    obtain ⟨delta, whole, exact⟩ := punctual e List.mem_cons_self info live again
    refine ⟨_, resetTimer_putBack live again whole exact, inv.putBack live again whole rfl,
      kept ?_, ?_⟩
    · intro p other
      rw [heap_insert, heap_see, heap_putInfo_other _ _ other]
    · simp [runs]
  | false =>
    refine ⟨_, resetTimer_freed live again now, inv.freed live again, kept ?_, ?_⟩
    · intro p other
      rw [heap_see, heap_putInfo_other _ _ other]
    · simp [runs]

theorem reset_ok {now : ℤ} {done : List Entry} {q : TimeQueue} (inv : Inv q now [] done)
    (punctual : Punctual q now done) :
    ∃ r, q.reset done now = .ok r ∧ Inv r now [] [] ∧ runs r.history = runs q.history := by
  induction done generalizing q with
  | nil => exact ⟨q, rfl, inv, rfl⟩
  | cons e rest ih =>
    obtain ⟨m, hm, inv', punctual', same⟩ := resetTimer_ok inv punctual
    obtain ⟨r, hr, last, same'⟩ := ih inv' punctual'
    refine ⟨r, ?_, last, same'.trans same⟩
    rw [reset, run_cons_ok hm]
    exact hr

/-! ## Whole reads -/

theorem Inv.perm_done {q : TimeQueue} {now : ℤ} {due done done' : List Entry}
    (inv : Inv q now due done) (perm : done.Perm done') : Inv q now due done' := by
  have all := ((List.Perm.refl (q.timers.toList ++ due)).append perm).map Entry.timer
  refine ⟨?_, ?_, inv.waiting, inv.expired, ?_, inv.address, inv.numbered, inv.distinct,
    inv.gone, inv.unborn⟩
  · rw [← all.nodup_iff]
    exact inv.nodup
  · intro p info live
    rw [← all.mem_iff]
    exact inv.listed p info live
  · exact fun e mem => inv.running e (perm.mem_iff.mpr mem)

theorem run_runTimer_disabled {now : ℤ} {callback : ℕ → List Addition}
    {due done : List Entry} {q : TimeQueue} (inv : Inv q now due done) {f : Failure}
    (h : run (TimeQueue.runTimer now callback) q due = .error f) : f = .disabled := by
  induction due generalizing q done with
  | nil => cases h
  | cons e rest ih =>
    cases hq : q.runTimer now callback e with
    | ok m =>
      rw [run_cons_ok hq] at h
      exact ih (inv.runTimer hq).1 h
    | error g =>
      rw [run_cons_error hq] at h
      cases h
      obtain ⟨info, live⟩ := inv.live (e := e) (by simp)
      simp only [TimeQueue.runTimer, live] at hq
      exact run_addTimer_disabled hq

/-- The timers that were due ran, each once, in the order of their expirations. -/
def Served (q : TimeQueue) (now : ℤ) (r : TimeQueue) : Prop :=
  ∃ ran, runs r.history = runs q.history ++ ran ∧
    ran.map some = (q.dueAt now).map q.told ∧ ran.Pairwise (fun x y => x.2 ≤ y.2)

theorem Inv.ran_in_order {q : TimeQueue} {now : ℤ} (inv : Inv q now [] []) :
    ((q.dueAt now).filterMap q.told).map some = (q.dueAt now).map q.told ∧
      ((q.dueAt now).filterMap q.told).Pairwise (fun x y => x.2 ≤ y.2) := by
  have live : ∀ e ∈ q.dueAt now, ∃ n, q.told e = some (n, e.time) := by
    intro e mem
    obtain ⟨info, time, here⟩ := inv.waiting e (by
      rw [List.append_nil]
      exact (List.mem_filter.mp mem).1)
    exact ⟨info.sequence, by simp [told, here.live, time]⟩
  have sorted : (q.dueAt now).Pairwise (fun e e' => e.time ≤ e'.time) :=
    (q.timers.sorted.imp time_le_of_lt).filter _
  constructor
  · have whole : ∀ l : List Entry, (∀ e ∈ l, ∃ n, q.told e = some (n, e.time)) →
        (l.filterMap q.told).map some = l.map q.told := by
      intro l
      induction l with
      | nil => exact fun _ => rfl
      | cons e rest ih =>
        intro all
        obtain ⟨n, hn⟩ := all e List.mem_cons_self
        simp [hn, ih (fun e' mem => all e' (List.mem_cons_of_mem e mem))]
    exact whole _ live
  · rw [List.pairwise_filterMap]
    refine sorted.imp_of_mem ?_
    intro e e' mem mem' le x hx y hy
    obtain ⟨n, hn⟩ := live e mem
    obtain ⟨n', hn'⟩ := live e' mem'
    cases hn.symm.trans hx
    cases hn'.symm.trans hy
    exact le

/-- One read of the timer: only an impossible address stops it, and it serves
exactly the timers that were due. -/
theorem Inv.handleRead {q : TimeQueue} {before now : ℤ} (inv : Inv q before [] [])
    (punctual : Punctual q now (q.dueAt now)) (callback : ℕ → List Addition) :
    (∀ f, q.handleRead now callback = .error f → f = .disabled) ∧
      ∀ r, q.handleRead now callback = .ok r → Inv r now [] [] ∧ Served q now r := by
  obtain ⟨taken, htaken, inv', heap, history⟩ := inv.getAllExpiredTimers now
  simp only [TimeQueue.handleRead, htaken]
  cases hran : run (TimeQueue.runTimer now callback) taken (q.dueAt now) with
  | error f =>
    refine ⟨?_, nofun⟩
    rintro g ⟨⟩
    exact run_runTimer_disabled inv' hran
  | ok m =>
    obtain ⟨ranAll, kept, events⟩ := inv'.run_runTimer hran
    have done : Inv m now [] (q.dueAt now) := by
      rw [List.append_nil] at ranAll
      exact ranAll.perm_done (List.reverse_perm _)
    have still : Punctual m now (q.dueAt now) := by
      intro e mem info live again
      obtain ⟨info', old⟩ := inv'.live (e := e) (by simp [mem])
      cases live.symm.trans (kept _ _ old)
      rw [heap] at old
      exact punctual e mem info old again
    obtain ⟨r, hr, last, same⟩ := reset_ok done still
    dsimp only
    rw [hr]
    refine ⟨nofun, ?_⟩
    rintro _ ⟨⟩
    refine ⟨last, (q.dueAt now).filterMap q.told, ?_, (inv.anytime now).ran_in_order⟩
    have told_same : taken.told = q.told := by
      funext e
      rw [told, told, heap]
    rw [same, events, history, told_same]

/-! ## Whole runs -/

/-- Between steps: the living timers are in `timers_`, once and under their expiration,
nothing else is, and each timer ever made is one of them or was freed. -/
structure Kept (q : TimeQueue) : Prop where
  listed : ∀ p info, q.heap p = some info →
    ∀ t, toLex (t, p) ∈ q.timers.toList ↔ t = info.expiration
  living : ∀ e ∈ q.timers.toList, ∃ info, q.heap e.timer = some info
  stories : ∀ n, 1 ≤ n → n ≤ q.numCreated →
    (∃ p info, q.heap p = some info ∧ info.sequence = n ∧
      Story n info.interval (q.events n) (.waiting info.expiration)) ∨
    (∀ p info, q.heap p = some info → info.sequence ≠ n) ∧
      ∃ interval, Story n interval (q.events n) .gone

theorem Inv.kept {q : TimeQueue} {now : ℤ} (inv : Inv q now [] []) : Kept q := by
  have entry : ∀ p info, q.heap p = some info →
      toLex (info.expiration, p) ∈ q.timers.toList ∧
        Story info.sequence info.interval (q.events info.sequence)
          (.waiting info.expiration) := by
    intro p info live
    obtain ⟨e, mem, rfl⟩ := List.mem_map.mp (inv.listed p info live)
    simp only [List.append_nil] at mem
    obtain ⟨info', time, here⟩ := inv.waiting e (by simpa using mem)
    cases here.live.symm.trans live
    rw [time]
    exact ⟨mem, here.story⟩
  refine ⟨?_, ?_, ?_⟩
  · intro p info live t
    constructor
    · intro mem
      obtain ⟨info', time, here⟩ := inv.waiting (toLex (t, p)) (by simpa using mem)
      cases here.live.symm.trans live
      exact time.symm
    · rintro rfl
      exact (entry p info live).1
  · exact fun e mem => inv.live (by simpa using mem)
  · intro n low high
    by_cases living : ∃ p info, q.heap p = some info ∧ info.sequence = n
    · obtain ⟨p, info, live, rfl⟩ := living
      exact Or.inl ⟨p, info, live, rfl, (entry p info live).2⟩
    · have dead : ∀ p info, q.heap p = some info → info.sequence ≠ n :=
        fun p info live same => living ⟨p, info, live, same⟩
      exact Or.inr ⟨dead, inv.gone n low high dead⟩

/-- Every due repeating timer can be put back at the exact time. -/
def OnTime (q : TimeQueue) : Op → Prop
  | .addTimer _ => True
  | .handleRead now _ => Punctual q now (q.dueAt now)

theorem new_inv (now : ℤ) : Inv new now [] [] where
  nodup := List.nodup_nil
  listed _ _ live := absurd live nofun
  waiting _ mem := absurd mem List.not_mem_nil
  expired _ mem := absurd mem List.not_mem_nil
  running _ mem := absurd mem List.not_mem_nil
  address _ _ live := absurd live nofun
  numbered _ _ live := absurd live nofun
  distinct _ _ _ _ live := absurd live nofun
  gone _ low high := absurd (Nat.le_trans low high) (Nat.not_succ_le_zero 0)
  unborn _ _ := rfl

theorem Inv.step {q r : TimeQueue} {op : Op} (inv : Inv q 0 [] []) (onTime : OnTime q op)
    (h : q.step op = .ok r) : Inv r 0 [] [] := by
  cases op with
  | addTimer a => exact inv.added (addTimer_added h)
  | handleRead now callback => exact ((inv.handleRead onTime callback).2 r h).1.anytime 0

/-- In every run whose repeating timers can be put back exactly, timers live, run and
are freed as they should, and each read serves exactly the timers that are due. -/
theorem timers_served_on_time {q : TimeQueue} (reached : ReachesBy step OnTime new q) :
    Kept q ∧ ∀ op, OnTime q op →
      (∀ f, q.step op = .error f → f = .disabled) ∧
      ∀ now callback r, op = .handleRead now callback → q.step op = .ok r →
        Served q now r := by
  have keep : ∀ q op r, Inv q 0 [] [] → OnTime q op → q.step op = .ok r → Inv r 0 [] [] :=
    fun _ _ _ inv onTime h => inv.step onTime h
  have inv : Inv q 0 [] [] := ReachesBy.keeps keep reached (new_inv 0)
  refine ⟨inv.kept, ?_⟩
  intro op onTime
  cases op with
  | addTimer a => exact ⟨fun f h => addTimer_disabled h, nofun⟩
  | handleRead now callback =>
    obtain ⟨stops, serves⟩ := inv.handleRead onTime callback
    refine ⟨stops, ?_⟩
    rintro _ _ r ⟨⟩ h
    exact (serves r h).2

section Schedules

/-- 10 ^ 10 seconds: more than three hundred years. -/
def centuries : Binary64 := .ofInt (10 ^ 10)

def recurringLate : List Op :=
  [.addTimer ⟨16, 0, centuries⟩, .handleRead 1470000000000001 (fun _ => [])]

/-- The sum of the clock and the interval has 54 significant bits; the last is lost. -/
theorem putBack_early_centuries :
    microSeconds centuries = some (10 ^ 16) ∧
      ∃ q, run step new recurringLate = .ok q ∧
        q.history = [.added 1 0 centuries, .ran 1 0 1470000000000001,
          .putBack 1 1470000000000001 (1470000000000001 + 10 ^ 16 - 1)] := by
  refine ⟨by decide, ?_⟩
  have history : (run step new recurringLate).toOption.map history =
      some [.added 1 0 centuries, .ran 1 0 1470000000000001,
        .putBack 1 1470000000000001 (1470000000000001 + 10 ^ 16 - 1)] := by decide +kernel
  cases hrun : run step new recurringLate with
  | error f =>
    rw [hrun] at history
    cases history
  | ok q =>
    rw [hrun] at history
    exact ⟨q, rfl, Option.some.inj history⟩

/-- A one-shot timer and one of every two seconds are due together; a third is not. -/
def threeTimers : List Op :=
  [.addTimer ⟨16, 5, .ofInt 0⟩, .addTimer ⟨8, 5, .ofInt 2⟩, .addTimer ⟨24, 9, .ofInt 0⟩]

/-- The first one's callback adds a timer that is past already. -/
def adding : ℕ → List Addition
  | 1 => [⟨32, 3, .ofInt 0⟩]
  | _ => []

theorem threeTimers_runs : ∃ q, run step new threeTimers = .ok q ∧
    q.dueAt 7 = [toLex (5, 8), toLex (5, 16)] ∧ q.heap 8 = some ⟨5, .ofInt 2, 2⟩ ∧
    q.heap 16 = some ⟨5, .ofInt 0, 1⟩ ∧ ∃ r, q.step (.handleRead 7 adding) = .ok r :=
  ⟨_, rfl, rfl, rfl, rfl, _, rfl⟩

theorem threeTimers_punctual {q : TimeQueue}
    (due : q.dueAt 7 = [toLex (5, 8), toLex (5, 16)]) (second : q.heap 8 = some ⟨5, .ofInt 2, 2⟩)
    (first : q.heap 16 = some ⟨5, .ofInt 0, 1⟩) : Punctual q 7 (q.dueAt 7) := by
  intro e mem info live again
  simp only [due, List.mem_cons, List.not_mem_nil, or_false] at mem
  rcases mem with rfl | rfl
  · cases live.symm.trans second
    exact ⟨2000000, by decide, by decide, by decide, 2000007, 0, by decide, by decide⟩
  · cases live.symm.trans first
    cases again

theorem timers_served_on_time_threeTimers :
    ∃ q r, run step new threeTimers = .ok q ∧ q.step (.handleRead 7 adding) = .ok r ∧
      Kept q ∧ Served q 7 r := by
  obtain ⟨q, hrun, due, second, first, r, hread⟩ := threeTimers_runs
  have onTime : Along step OnTime new threeTimers := by
    refine along_of_mem ?_ new
    intro op mem q
    simp only [threeTimers, List.mem_cons, List.not_mem_nil, or_false] at mem
    rcases mem with rfl | rfl | rfl <;> trivial
  have all := timers_served_on_time ⟨threeTimers, onTime, hrun⟩
  have next := (all.2 (.handleRead 7 adding) (threeTimers_punctual due second first)).2
  exact ⟨q, r, hrun, hread, all.1, next 7 adding r rfl hread⟩

end Schedules

end TimeQueue

end ZDQ
