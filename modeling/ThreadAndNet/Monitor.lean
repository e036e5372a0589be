import Mathlib.Data.List.Basic
import Mathlib.Tactic.TypeStar

/-!
# A mutex with condition variables

Any number of threads `T` and of conditions `C`. Waiting gives up the mutex and
falls asleep in one step; a sleeper is woken by a signal, a broadcast or for no
reason, and is then one of those who want the mutex back. Whoever takes the mutex
is chosen from outside, so every schedule is a run.
-/

namespace Machine

structure Monitor (T C : Type*) where
  owner : Option T
  /-- asleep on a condition -/
  waiting : List (T × C)
  /-- woken, but without the mutex yet -/
  woken : List (T × C)

namespace Monitor

variable {T C : Type*}

def free : Monitor T C := ⟨none, [], []⟩

/-- The thread is inside a wait. -/
def Inside (m : Monitor T C) (t : T) : Prop :=
  t ∈ m.waiting.map Prod.fst ∨ t ∈ m.woken.map Prod.fst

variable [DecidableEq T]

instance (m : Monitor T C) (t : T) : Decidable (m.Inside t) :=
  inferInstanceAs (Decidable (_ ∨ _))

/-! Each operation is `none` where the thread cannot take the step. -/

def lock (m : Monitor T C) (t : T) : Option (Monitor T C) :=
  if m.owner = none ∧ ¬ m.Inside t then some { m with owner := some t } else none

def unlock (m : Monitor T C) (t : T) : Option (Monitor T C) :=
  if m.owner = some t then some { m with owner := none } else none

def wait (m : Monitor T C) (t : T) (c : C) : Option (Monitor T C) :=
  if m.owner = some t then some { m with owner := none, waiting := m.waiting ++ [(t, c)] }
  else none

variable {m n : Monitor T C} {t : T} {c : C}

theorem lock_iff : m.lock t = some n ↔
    (m.owner = none ∧ ¬ m.Inside t) ∧ { m with owner := some t } = n := by
  rw [lock, Option.ite_none_right_eq_some, Option.some_inj]

theorem unlock_iff : m.unlock t = some n ↔ m.owner = some t ∧ { m with owner := none } = n := by
  rw [unlock, Option.ite_none_right_eq_some, Option.some_inj]

theorem wait_iff : m.wait t c = some n ↔
    m.owner = some t ∧ { m with owner := none, waiting := m.waiting ++ [(t, c)] } = n := by
  rw [wait, Option.ite_none_right_eq_some, Option.some_inj]

theorem owner_lock (h : m.lock t = some n) : m.owner = none ∧ n.owner = some t := by
  rw [lock] at h
  split at h
  · rename_i free
    cases h
    exact ⟨free.1, rfl⟩
  · cases h

theorem owner_unlock (h : m.unlock t = some n) : m.owner = some t ∧ n.owner = none := by
  rw [unlock] at h
  split at h
  · rename_i holds
    cases h
    exact ⟨holds, rfl⟩
  · cases h

theorem owner_wait (h : m.wait t c = some n) : m.owner = some t ∧ n.owner = none := by
  rw [wait] at h
  split at h
  · rename_i holds
    cases h
    exact ⟨holds, rfl⟩
  · cases h

variable [DecidableEq C]

/-- Wake one sleeper, by a signal or spuriously. -/
def wake (m : Monitor T C) (t : T) (c : C) : Option (Monitor T C) :=
  if (t, c) ∈ m.waiting then
    some { m with waiting := m.waiting.erase (t, c), woken := m.woken ++ [(t, c)] }
  else none

/-- `chosen` is the sleeper that is woken, `none` if nobody sleeps on `c`. -/
def signal (m : Monitor T C) (c : C) (chosen : Option T) : Option (Monitor T C) :=
  match chosen with
  | some t => m.wake t c
  | none => if c ∈ m.waiting.map Prod.snd then none else some m

def broadcast (m : Monitor T C) (c : C) : Monitor T C :=
  { m with
    waiting := m.waiting.filter (fun w => w.2 ≠ c)
    woken := m.woken ++ m.waiting.filter (fun w => w.2 = c) }

/-- A woken thread gets the mutex back and returns from its wait. -/
def resume (m : Monitor T C) (t : T) (c : C) : Option (Monitor T C) :=
  if (t, c) ∈ m.woken ∧ m.owner = none then
    some { m with owner := some t, woken := m.woken.erase (t, c) }
  else none

theorem wake_iff : m.wake t c = some n ↔ (t, c) ∈ m.waiting ∧
    { m with waiting := m.waiting.erase (t, c), woken := m.woken ++ [(t, c)] } = n := by
  rw [wake, Option.ite_none_right_eq_some, Option.some_inj]

theorem resume_iff : m.resume t c = some n ↔ ((t, c) ∈ m.woken ∧ m.owner = none) ∧
    { m with owner := some t, woken := m.woken.erase (t, c) } = n := by
  rw [resume, Option.ite_none_right_eq_some, Option.some_inj]

theorem owner_wake (h : m.wake t c = some n) : n.owner = m.owner := by
  rw [wake] at h
  split at h
  · cases h
    rfl
  · cases h

theorem owner_signal {chosen : Option T} (h : m.signal c chosen = some n) :
    n.owner = m.owner := by
  cases chosen with
  | some t => exact owner_wake h
  | none =>
    rw [signal] at h
    split at h
    · cases h
    · cases h
      rfl

/-- Some signal is always possible. -/
theorem exists_signal (m : Monitor T C) (c : C) : ∃ chosen n, m.signal c chosen = some n := by
  by_cases sleeps : c ∈ m.waiting.map Prod.snd
  · obtain ⟨⟨t, _⟩, mem, rfl⟩ := List.mem_map.mp sleeps
    exact ⟨some t, _, wake_iff.mpr ⟨mem, rfl⟩⟩
  · exact ⟨none, m, by rw [signal, if_neg sleeps]⟩

theorem owner_resume (h : m.resume t c = some n) :
    (t, c) ∈ m.woken ∧ m.owner = none ∧ n.owner = some t := by
  rw [resume] at h
  split at h
  · rename_i ready
    cases h
    exact ⟨ready.1, ready.2, rfl⟩
  · cases h

end Monitor

end Machine
