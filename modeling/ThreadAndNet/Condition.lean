import ThreadAndNet.Failure
import ThreadAndNet.Monitor

/-!
# The mutex that knows whether it is locked, and its conditions

`MutexLock` keeps a flag beside the pthread mutex, and `Condition::wait` asserts
the flag. `pthread_cond_wait` gives the mutex up and takes it back without
touching the flag: what the flag says after a wait is what the last thread that
gave the mutex up has left there.
-/

namespace ZDQ

open Machine

structure MutexLock (T C : Type*) where
  mutex_ : Monitor T C
  is_lock_ : Bool

namespace MutexLock

variable {T C : Type*} [DecidableEq T]

def new : MutexLock T C := ⟨.free, false⟩

/-- After a step of the pthread mutex, with the flag as the step leaves it. -/
def pthread (next : Option (Monitor T C)) (is_lock_ : Bool) :
    Except Failure (MutexLock T C) :=
  match next with
  | some n => .ok ⟨n, is_lock_⟩
  | none => .error .disabled

omit [DecidableEq T] in
theorem pthread_cases {S : Type*} {next : Option (Monitor T C)} {is_lock_ : Bool}
    {f : MutexLock T C → S} {s : S} (h : (pthread next is_lock_).map f = .ok s) :
    ∃ n, next = some n ∧ s = f ⟨n, is_lock_⟩ := by
  cases next with
  | none => cases h
  | some n =>
    cases h
    exact ⟨n, rfl, rfl⟩

def lock (m : MutexLock T C) (t : T) : Except Failure (MutexLock T C) :=
  pthread (m.mutex_.lock t) true

def unlock (m : MutexLock T C) (t : T) : Except Failure (MutexLock T C) :=
  pthread (m.mutex_.unlock t) false

/-- `Condition::wait`, up to the point where the thread sleeps. -/
def wait (m : MutexLock T C) (t : T) (c : C) : Except Failure (MutexLock T C) :=
  if m.is_lock_ then pthread (m.mutex_.wait t c) m.is_lock_ else .error .assertion

end MutexLock

/-! ## Threads that share one mutex -/

/-- How the mutex was given up. -/
inductive Release where
  | unlock
  | wait
deriving DecidableEq

/-- The mutex, and how it was given up last; the latter is not in the code. -/
structure Shared (T C : Type*) where
  lock : MutexLock T C
  released : Option Release

namespace Shared

variable {T C : Type*} [DecidableEq T] [DecidableEq C]

/-- The constructor and destructor of a `MutexLockGuard`, the two halves of
`Condition::wait`, and what wakes the threads between them. -/
inductive Op (T C : Type*) where
  | acquire (t : T)
  | release (t : T)
  | wait (t : T) (c : C)
  | notify (c : C) (chosen : Option T)
  | notifyAll (c : C)
  | spurious (t : T) (c : C)
  | reacquire (t : T) (c : C)

def new : Shared T C := ⟨.new, none⟩

/-- A step of the pthread mutex that does not touch the flag. -/
def still (s : Shared T C) (next : Option (Monitor T C)) : Except Failure (Shared T C) :=
  (MutexLock.pthread next s.lock.is_lock_).map (fun m => { s with lock := m })

def step (s : Shared T C) : Op T C → Except Failure (Shared T C)
  | .acquire t => (s.lock.lock t).map (fun m => { s with lock := m })
  | .release t => (s.lock.unlock t).map (fun m => ⟨m, some .unlock⟩)
  | .wait t c =>
    -- only under a guard of the thread
    if s.lock.mutex_.owner = some t then
      (s.lock.wait t c).map (fun m => ⟨m, some .wait⟩)
    else .error .disabled
  | .notify c chosen => s.still (s.lock.mutex_.signal c chosen)
  | .notifyAll c => s.still (some (s.lock.mutex_.broadcast c))
  | .spurious t c => s.still (s.lock.mutex_.wake t c)
  | .reacquire t c => s.still (s.lock.mutex_.resume t c)

/-- Whoever holds the mutex finds the flag set. -/
def Marked (s : Shared T C) : Prop := s.lock.mutex_.owner ≠ none → s.lock.is_lock_ = true

/-- A thread takes the mutex back only where another wait has just given it up. -/
def Relayed (s : Shared T C) : Op T C → Prop
  | .reacquire t c => (t, c) ∈ s.lock.mutex_.woken → s.lock.mutex_.owner = none →
    s.released = some .wait
  | _ => True

/-- While nobody holds the mutex the flag tells how it was given up. -/
def Inv (s : Shared T C) : Prop :=
  s.lock.mutex_.owner = none → (s.lock.is_lock_ = true ↔ s.released = some .wait)

/-- What a step did to the owner, the flag and the history. -/
inductive Effect (s t : Shared T C) : Op T C → Prop where
  | acquire (a : T) : s.lock.mutex_.owner = none → t.lock.mutex_.owner ≠ none →
      t.lock.is_lock_ = true → Effect s t (.acquire a)
  | release (a : T) : t.lock.mutex_.owner = none → t.lock.is_lock_ = false →
      t.released = some .unlock → Effect s t (.release a)
  | wait (a : T) (c : C) : t.lock.mutex_.owner = none → t.lock.is_lock_ = true →
      t.released = some .wait → Effect s t (.wait a c)
  | still (op : Op T C) : (∀ a c, op ≠ .reacquire a c) →
      t.lock.mutex_.owner = s.lock.mutex_.owner → t.lock.is_lock_ = s.lock.is_lock_ →
      t.released = s.released → Effect s t op
  | reacquire (a : T) (c : C) : (a, c) ∈ s.lock.mutex_.woken →
      s.lock.mutex_.owner = none → t.lock.mutex_.owner ≠ none →
      t.lock.is_lock_ = s.lock.is_lock_ → Effect s t (.reacquire a c)

theorem step_effect {s t : Shared T C} {op : Op T C} (h : s.step op = .ok t) :
    Effect s t op := by
  cases op with
  | acquire a =>
    obtain ⟨n, hn, rfl⟩ := MutexLock.pthread_cases h
    obtain ⟨free, taken⟩ := Monitor.owner_lock hn
    exact .acquire a free (by simp [taken]) rfl
  | release a =>
    obtain ⟨n, hn, rfl⟩ := MutexLock.pthread_cases h
    exact .release a (Monitor.owner_unlock hn).2 rfl rfl
  | wait a c =>
    simp only [step, MutexLock.wait] at h
    split at h
    · split at h
      · rename_i marked
        obtain ⟨n, hn, rfl⟩ := MutexLock.pthread_cases h
        exact .wait a c (Monitor.owner_wait hn).2 marked rfl
      · cases h
    · cases h
  | notify c chosen =>
    obtain ⟨n, hn, rfl⟩ := MutexLock.pthread_cases h
    exact .still _ (by simp) (Monitor.owner_signal hn) rfl rfl
  | notifyAll c =>
    cases h
    exact .still _ (by simp) rfl rfl rfl
  | spurious a c =>
    obtain ⟨n, hn, rfl⟩ := MutexLock.pthread_cases h
    exact .still _ (by simp) (Monitor.owner_wake hn) rfl rfl
  | reacquire a c =>
    obtain ⟨n, hn, rfl⟩ := MutexLock.pthread_cases h
    obtain ⟨woken, free, taken⟩ := Monitor.owner_resume hn
    exact .reacquire a c woken free (by simp [taken]) rfl

omit [DecidableEq T] [DecidableEq C] in
theorem Effect.inv {s t : Shared T C} {op : Op T C} (h : Effect s t op) (inv : Inv s) :
    Inv t := by
  intro free
  cases h with
  | acquire a _ taken => exact absurd free taken
  | release a _ unmarked by_ => simp [unmarked, by_]
  | wait a c _ marked by_ => simp [marked, by_]
  | still _ _ owner flag by_ =>
    rw [flag, by_]
    exact inv (owner ▸ free)
  | reacquire a c _ _ taken => exact absurd free taken

omit [DecidableEq T] [DecidableEq C] in
/-- Exactly a wait that ends behind an `unlock` leaves a holder without the flag. -/
theorem Effect.marked_iff {s t : Shared T C} {op : Op T C} (h : Effect s t op)
    (inv : Inv s) (marked : Marked s) : Marked t ↔ Relayed s op := by
  cases h with
  | acquire a _ _ flag => exact iff_of_true (fun _ => flag) trivial
  | release a free => exact iff_of_true (fun taken => absurd free taken) trivial
  | wait a c free => exact iff_of_true (fun taken => absurd free taken) trivial
  | still _ notBack owner flag =>
    refine iff_of_true ?_ ?_
    · rw [Marked, owner, flag]
      exact marked
    · cases op with
      | reacquire a c => exact absurd rfl (notBack a c)
      | _ => trivial
  | reacquire a c woken free taken flag =>
    have relayed : Relayed s (.reacquire a c) ↔ s.released = some .wait :=
      ⟨fun h => h woken free, fun h _ _ => h⟩
    have holds : Marked t ↔ t.lock.is_lock_ = true := ⟨fun h => h taken, fun h _ => h⟩
    rw [relayed, holds, flag]
    exact inv free

theorem step_not_assertion {s : Shared T C} (marked : Marked s) (op : Op T C) :
    s.step op ≠ .error .assertion := by
  have pthread : ∀ {S : Type _} (next : Option (Monitor T C)) flag (f : MutexLock T C → S),
      (MutexLock.pthread next flag).map f ≠ .error .assertion := by
    intro S next flag f
    cases next <;> exact nofun
  cases op with
  | wait a c =>
    simp only [step, MutexLock.wait]
    split
    · rename_i holds
      rw [if_pos (marked (by simp [holds]))]
      exact pthread _ _ _
    · exact nofun
  | acquire a => exact pthread _ _ _
  | release a => exact pthread _ _ _
  | notify c chosen => exact pthread _ _ _
  | notifyAll c => exact nofun
  | spurious a c => exact pthread _ _ _
  | reacquire a c => exact pthread _ _ _

/-- A step that is not taken cannot be a wait that ends at the wrong moment. -/
theorem relayed_of_error {s : Shared T C} {op : Op T C} {e : Failure}
    (h : s.step op = .error e) : Relayed s op := by
  cases op with
  | reacquire a c =>
    intro woken free
    simp [step, still, Monitor.resume, woken, free, MutexLock.pthread, Except.map] at h
  | _ => trivial

theorem marked_iff_relayed {s : Shared T C} (inv : Inv s) (marked : Marked s)
    (ops : List (Op T C)) :
    (Throughout step Marked s ops ∧ run step s ops ≠ .error .assertion) ↔
      Along step Relayed s ops := by
  induction ops generalizing s with
  | nil => exact iff_of_true ⟨marked, nofun⟩ trivial
  | cons op rest ih =>
    cases hs : s.step op with
    | error e =>
      refine iff_of_true ⟨⟨marked, ?_⟩, ?_⟩ ⟨relayed_of_error hs, ?_⟩
      · rw [hs]
        trivial
      · rw [run_cons_error hs]
        rintro ⟨⟩
        exact step_not_assertion marked op hs
      · rw [hs]
        trivial
    | ok t =>
      have effect := step_effect hs
      rw [throughout_cons_ok hs, run_cons_ok hs, along_cons_ok hs,
        ← effect.marked_iff inv marked]
      constructor
      · rintro ⟨⟨_, later⟩, safe⟩
        exact ⟨later.start, (ih (effect.inv inv) later.start).mp ⟨later, safe⟩⟩
      · rintro ⟨holds, later⟩
        obtain ⟨through, safe⟩ := (ih (effect.inv inv) holds).mpr later
        exact ⟨⟨marked, through⟩, safe⟩

/-- Along a run the flag is set whenever the mutex is held, and no wait asserts,
exactly if no thread comes back from a wait into a mutex given up by an `unlock`. -/
theorem holder_marked_iff_relayed (ops : List (Op T C)) :
    (Throughout step Marked new ops ∧ run step new ops ≠ .error .assertion) ↔
      Along step Relayed new ops := by
  refine marked_iff_relayed ?_ ?_ ops
  · intro _
    simp [new, MutexLock.new]
  · intro held
    exact absurd rfl held

/-- Thread 0 takes from an empty `BlockingQueue`, thread 1 puts, and thread 2 takes
before thread 0 has the mutex back. -/
def barging : List (Op Nat Unit) :=
  [.acquire 0, .wait 0 (), .acquire 1, .notify () (some 0), .release 1, .acquire 2,
    .release 2, .reacquire 0 ()]

/-- Thread 0 holds the mutex without the flag, and its next wait asserts. -/
theorem holder_unmarked_barging :
    (∃ s, run step (new (T := Nat) (C := Unit)) barging = .ok s ∧
      s.lock.mutex_.owner = some 0 ∧ s.lock.is_lock_ = false) ∧
    run step (new (T := Nat) (C := Unit)) (barging ++ [.wait 0 ()]) = .error .assertion :=
  ⟨⟨_, rfl, rfl, rfl⟩, rfl⟩

end Shared

end ZDQ
