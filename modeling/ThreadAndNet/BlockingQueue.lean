import ThreadAndNet.CondVar
import ThreadAndNet.Failure
import ThreadAndNet.Machine

/-!
# The blocking queue

`put` and a round of the loop in `take` run under `mutex_` from beginning to end, so
each is one step. A round ends with a wait on `notEmpty_` or with the return of `take`;
a thread that comes back from its wait starts with the next round. The assertion in
`Condition::wait` is left aside here.
-/

namespace ZDQ

open Machine

structure BlockingQueue (X T : Type*) where
  queue_ : List X
  notEmpty_ : CondVar T

namespace BlockingQueue

variable {X T : Type*}

def new : BlockingQueue X T := ⟨[], .new⟩

/-- `take` behind its loop. -/
def takeFront (q : BlockingQueue X T) : Except Failure (X × BlockingQueue X T) :=
  match q.queue_ with
  | [] => .error .assertion
  | front :: rest => .ok (front, { q with queue_ := rest })

/-- `take` of the thread `t` from a test of its loop on; no item if it waits. -/
def take (q : BlockingQueue X T) (t : T) : Except Failure (Option X × BlockingQueue X T) :=
  if q.queue_.isEmpty then .ok (none, { q with notEmpty_ := q.notEmpty_.wait t })
  else q.takeFront.map (fun r => (some r.1, r.2))

/-- `chosen` is the thread the signal wakes. -/
def put [DecidableEq T] (q : BlockingQueue X T) (x : X) (chosen : Option T) :
    Except Failure (BlockingQueue X T) :=
  (offered (q.notEmpty_.notify chosen)).map (fun cv => ⟨q.queue_ ++ [x], cv⟩)

/-- What a round does: it waits next to an empty queue or takes the first item. -/
theorem take_cases (q : BlockingQueue X T) (t : T) :
    q.queue_ = [] ∧ q.take t = .ok (none, { q with notEmpty_ := q.notEmpty_.wait t }) ∨
      ∃ front rest, q.queue_ = front :: rest ∧
        q.take t = .ok (some front, { q with queue_ := rest }) := by
  cases items : q.queue_ with
  | nil => exact .inl ⟨rfl, by simp [take, items]⟩
  | cons front rest =>
    refine .inr ⟨front, rest, rfl, ?_⟩
    simp [take, takeFront, items, Except.map]

/-! ## Any number of threads on one queue -/

/-- The queue with all items that were ever put and taken. -/
structure Journal (X T : Type*) where
  queue : BlockingQueue X T
  items : List X
  taken : List X

namespace Journal

def new : Journal X T := ⟨.new, [], []⟩

inductive Op (X T : Type*) where
  | put (t : T) (x : X) (chosen : Option T)
  | take (t : T)
  | spurious (t : T)
  /-- `t` has `mutex_` back and tests the condition of its loop again -/
  | resume (t : T)

/-- A round of `take` with what it took. -/
def take (j : Journal X T) (t : T) : Except Failure (Journal X T) :=
  (j.queue.take t).map
    (fun r => { j with queue := r.2, taken := j.taken ++ r.1.toList })

/-- Somebody inside a wait does not call anything. -/
def step [DecidableEq T] (j : Journal X T) : Op X T → Except Failure (Journal X T)
  | .put t x chosen =>
    if j.queue.notEmpty_.Inside t then .error .disabled
    else (j.queue.put x chosen).map
      (fun q => { j with queue := q, items := j.items ++ [x] })
  | .take t =>
    if j.queue.notEmpty_.Inside t then .error .disabled else j.take t
  | .spurious t =>
    (offered (j.queue.notEmpty_.rouse t)).map
      (fun cv => { j with queue := { j.queue with notEmpty_ := cv } })
  | .resume t =>
    match j.queue.notEmpty_.resume t with
    | some cv => { j with queue := { j.queue with notEmpty_ := cv } }.take t
    | none => .error .disabled

/-- Taken and queued items are the items put, in this order, and for every item that is
queued while somebody sleeps another thread is on its way. -/
structure Inv (j : Journal X T) : Prop where
  order : j.taken ++ j.queue.queue_ = j.items
  covered : j.queue.notEmpty_.Covers j.queue.queue_.length

theorem Inv.new : Inv (.new : Journal X T) := ⟨rfl, CondVar.covers_new 0⟩

/-- A round needs one thread less on the way than there are items. -/
theorem take_inv {j k : Journal X T} {t : T} (order : j.taken ++ j.queue.queue_ = j.items)
    (covered : j.queue.notEmpty_.Covers (j.queue.queue_.length - 1)) (h : j.take t = .ok k) :
    Inv k := by
  obtain ⟨empty, round⟩ | ⟨front, rest, items, round⟩ := j.queue.take_cases t
  · simp only [take, round, Except.map, Except.ok.injEq] at h
    subst h
    constructor
    · simpa using order
    · rw [empty]
      exact CondVar.covers_wait _ t
  · simp only [take, round, Except.map, Except.ok.injEq] at h
    subst h
    rw [items] at order covered
    constructor
    · simpa using order
    · exact covered

theorem take_ne_assertion (j : Journal X T) (t : T) : j.take t ≠ .error .assertion := by
  obtain ⟨_, round⟩ | ⟨_, _, _, round⟩ := j.queue.take_cases t
  · rw [take, round]
    exact nofun
  · rw [take, round]
    exact nofun

variable [DecidableEq T]

theorem Inv.put {j k : Journal X T} {t : T} {x : X} {chosen : Option T} (inv : Inv j)
    (h : j.step (.put t x chosen) = .ok k) : Inv k := by
  simp only [step] at h
  split at h
  · cases h
  · obtain ⟨q, stored, rfl⟩ := map_cases h
    obtain ⟨cv, signalled, rfl⟩ := offered_cases stored
    constructor
    · have order := inv.order
      simp only [← List.append_assoc, order]
    · have covered := inv.covered.notify signalled
      rw [List.length_append, List.length_singleton]
      exact covered

theorem Inv.step {j k : Journal X T} {op : Op X T} (inv : Inv j) (h : j.step op = .ok k) :
    Inv k := by
  cases op with
  | put t x chosen => exact inv.put h
  | take t =>
    simp only [Journal.step] at h
    split at h
    · cases h
    · exact take_inv inv.order (inv.covered.mono (Nat.sub_le _ 1)) h
  | spurious t =>
    obtain ⟨cv, roused, rfl⟩ := offered_cases h
    exact ⟨inv.order, inv.covered.rouse roused⟩
  | resume t =>
    simp only [Journal.step] at h
    split at h
    · rename_i cv back
      apply take_inv _ _ h
      · exact inv.order
      · exact inv.covered.resume back
    · cases h

/-- `take` never looks for the first item of an empty queue. -/
theorem step_ne_assertion (j : Journal X T) (op : Op X T) :
    j.step op ≠ .error .assertion := by
  cases op with
  | put t x chosen =>
    simp only [step]
    split
    · exact nofun
    · cases signal : j.queue.notEmpty_.notify chosen with
      | none => simp [BlockingQueue.put, signal, offered, Except.map]
      | some cv => simp [BlockingQueue.put, signal, offered, Except.map]
  | take t =>
    simp only [step]
    split
    · exact nofun
    · exact take_ne_assertion j t
  | spurious t => exact offered_ne_assertion _ _
  | resume t =>
    simp only [step]
    split
    · exact take_ne_assertion _ t
    · exact nofun

/-- In every state that any threads can bring about, the items taken and then those in
the queue are the items put, no `take` meets an empty queue behind its loop, and while
somebody sleeps there are no more items than threads on the way to them. -/
theorem taken_append_queue {j : Journal X T} (reached : Reaches step new j) :
    j.taken ++ j.queue.queue_ = j.items ∧
    (∀ op, j.step op ≠ .error .assertion) ∧
    (j.queue.notEmpty_.waiting ≠ [] →
      j.queue.queue_.length ≤ j.queue.notEmpty_.signalled.length) := by
  have inv : Inv j := Reaches.keeps (fun _ _ _ h hstep => h.step hstep) reached Inv.new
  exact ⟨inv.order, step_ne_assertion j, inv.covered⟩

/-- Threads 0 and 1 wait, thread 2 puts an item and takes it itself, and the woken
thread 0 waits once more. -/
def barging : List (Op Nat Nat) :=
  [.take 0, .take 1, .put 2 7 (some 0), .take 2, .resume 0, .put 2 8 (some 1)]

theorem taken_append_queue_barging :
    ∃ j, run step (new (X := Nat) (T := Nat)) barging = .ok j ∧
      j.taken = [7] ∧ j.queue.queue_ = [8] ∧ j.queue.notEmpty_.waiting = [0] ∧
      j.queue.notEmpty_.signalled = [1] ∧ j.taken ++ j.queue.queue_ = j.items :=
  ⟨_, rfl, rfl, rfl, rfl, rfl, (taken_append_queue ⟨barging, rfl⟩).1⟩

end Journal

end BlockingQueue

end ZDQ
