import Mathlib.Data.List.Basic
import Mathlib.Tactic.TypeStar

/-!
# A condition variable between atomic critical sections

The critical sections of one mutex are single steps here. A thread that waits falls
asleep at the end of its section. It is woken by a signal, by a broadcast or for no
reason, and resumes in a later section of its own; until then others may come first.
-/

namespace Machine

structure CondVar (T : Type*) where
  /-- asleep -/
  waiting : List T
  /-- signalled, but not resumed yet -/
  signalled : List T
  /-- woken for no reason, but not resumed yet -/
  roused : List T

namespace CondVar

variable {T : Type*}

def new : CondVar T := ⟨[], [], []⟩

/-- The thread is inside a wait. -/
def Inside (cv : CondVar T) (t : T) : Prop :=
  t ∈ cv.waiting ∨ t ∈ cv.signalled ∨ t ∈ cv.roused

def wait (cv : CondVar T) (t : T) : CondVar T := { cv with waiting := cv.waiting ++ [t] }

def notifyAll (cv : CondVar T) : CondVar T :=
  { cv with
    waiting := []
    signalled := cv.signalled ++ cv.waiting }

variable [DecidableEq T]

instance (cv : CondVar T) (t : T) : Decidable (cv.Inside t) :=
  inferInstanceAs (Decidable (_ ∨ _))

/-! The others are `none` where the step cannot be taken. -/

/-- `chosen` is the sleeper that is woken, `none` if nobody sleeps. -/
def notify (cv : CondVar T) (chosen : Option T) : Option (CondVar T) :=
  match chosen with
  | some t =>
    if t ∈ cv.waiting then
      some { cv with
        waiting := cv.waiting.erase t
        signalled := cv.signalled ++ [t] }
    else none
  | none => if cv.waiting.isEmpty then some cv else none

/-- A spurious wake-up. -/
def rouse (cv : CondVar T) (t : T) : Option (CondVar T) :=
  if t ∈ cv.waiting then
    some { cv with
      waiting := cv.waiting.erase t
      roused := cv.roused ++ [t] }
  else none

/-- The thread has the mutex back. -/
def resume (cv : CondVar T) (t : T) : Option (CondVar T) :=
  if t ∈ cv.signalled then some { cv with signalled := cv.signalled.erase t }
  else if t ∈ cv.roused then some { cv with roused := cv.roused.erase t }
  else none

/-! ## Enough threads are awake -/

/-- Nobody sleeps, or at least `n` threads were signalled that have not resumed: for each
of `n` things that are there to be had, somebody is on the way. -/
def Covers (cv : CondVar T) (n : Nat) : Prop := cv.waiting ≠ [] → n ≤ cv.signalled.length

section Covers
variable {cv d : CondVar T} {n m : Nat} {t : T}

omit [DecidableEq T]

theorem covers_zero (cv : CondVar T) : cv.Covers 0 := fun _ => Nat.zero_le _

theorem covers_new (n : Nat) : (new : CondVar T).Covers n := fun asleep => absurd rfl asleep

theorem covers_notifyAll (cv : CondVar T) (n : Nat) : cv.notifyAll.Covers n :=
  fun asleep => absurd rfl asleep

/-- A thread that waits finds nothing to be had. -/
theorem covers_wait (cv : CondVar T) (t : T) : (cv.wait t).Covers 0 := covers_zero _

theorem Covers.mono (h : cv.Covers n) (le : m ≤ n) : cv.Covers m :=
  fun asleep => Nat.le_trans le (h asleep)

variable [DecidableEq T]

/-- One signal for one thing more. -/
theorem Covers.notify (h : cv.Covers n) {chosen : Option T} (hd : cv.notify chosen = some d) :
    d.Covers (n + 1) := by
  intro asleep
  cases chosen with
  | some t =>
    simp only [CondVar.notify] at hd
    split at hd
    · rename_i mem
      cases hd
      have enough := h (List.ne_nil_of_mem mem)
      simp only [List.length_append, List.length_singleton]
      omega
    · cases hd
  | none =>
    simp only [CondVar.notify] at hd
    split at hd
    · rename_i none
      cases hd
      exact absurd (List.isEmpty_iff.mp none) asleep
    · cases hd

theorem Covers.rouse (h : cv.Covers n) (hd : cv.rouse t = some d) : d.Covers n := by
  rw [CondVar.rouse] at hd
  split at hd
  · rename_i mem
    cases hd
    exact fun _ => h (List.ne_nil_of_mem mem)
  · cases hd

/-- The thread that resumes is no longer on the way; it may take one thing. -/
theorem Covers.resume (h : cv.Covers n) (hd : cv.resume t = some d) : d.Covers (n - 1) := by
  rw [CondVar.resume] at hd
  split at hd
  · rename_i mem
    cases hd
    intro asleep
    have enough := h asleep
    simp only [List.length_erase_of_mem mem]
    omega
  split at hd
  · cases hd
    exact fun asleep => Nat.le_trans (Nat.sub_le n 1) (h asleep)
  · cases hd

end Covers

/-! ## Everybody inside -/

section Threads
variable {cv d : CondVar T} {t : T}

def threads (cv : CondVar T) : List T := cv.waiting ++ cv.signalled ++ cv.roused

omit [DecidableEq T] in
theorem mem_threads : t ∈ cv.threads ↔ cv.Inside t := by
  simp [threads, Inside]

omit [DecidableEq T] in
theorem threads_wait (cv : CondVar T) (t : T) : (cv.wait t).threads.Perm (t :: cv.threads) := by
  simp only [threads, wait, List.append_assoc, List.singleton_append]
  exact List.perm_middle

theorem threads_notify {chosen : Option T} (h : cv.notify chosen = some d) :
    d.threads.Perm cv.threads := by
  cases chosen with
  | some t =>
    simp only [notify] at h
    split at h
    · rename_i mem
      cases h
      refine List.perm_iff_count.mpr fun a => ?_
      have moved := (List.perm_cons_erase mem).count_eq a
      simp only [threads, List.count_append, List.count_cons, List.count_nil] at moved ⊢
      omega
    · cases h
  | none =>
    simp only [notify] at h
    split at h
    · cases h
      exact .refl _
    · cases h

theorem threads_rouse (h : cv.rouse t = some d) : d.threads.Perm cv.threads := by
  rw [rouse] at h
  split at h
  · rename_i mem
    cases h
    refine List.perm_iff_count.mpr fun a => ?_
    have moved := (List.perm_cons_erase mem).count_eq a
    simp only [threads, List.count_append, List.count_cons, List.count_nil] at moved ⊢
    omega
  · cases h

theorem threads_resume (h : cv.resume t = some d) : cv.threads.Perm (t :: d.threads) := by
  rw [resume] at h
  refine List.perm_iff_count.mpr fun a => ?_
  split at h
  · rename_i mem
    cases h
    have moved := (List.perm_cons_erase mem).count_eq a
    simp only [threads, List.count_append, List.count_cons] at moved ⊢
    omega
  split at h
  · rename_i mem
    cases h
    have moved := (List.perm_cons_erase mem).count_eq a
    simp only [threads, List.count_append, List.count_cons] at moved ⊢
    omega
  · cases h

omit [DecidableEq T] in
theorem threads_notifyAll (cv : CondVar T) : cv.notifyAll.threads.Perm cv.threads :=
  List.Perm.append_right _ (by simpa [notifyAll] using List.perm_append_comm)

end Threads

/-! ## Who is awake stays awake -/

section Awake
variable {cv d : CondVar T} {t : T}

theorem waiting_notify {chosen : Option T} (h : cv.notify chosen = some d)
    (awake : cv.waiting = []) : d.waiting = [] := by
  cases chosen with
  | some t => simp [notify, awake] at h
  | none =>
    simp only [notify, awake, List.isEmpty_nil, if_true, Option.some.injEq] at h
    rw [← h, awake]

theorem waiting_rouse (h : cv.rouse t = some d) (awake : cv.waiting = []) : d.waiting = [] := by
  simp [rouse, awake] at h

theorem waiting_resume (h : cv.resume t = some d) : d.waiting = cv.waiting := by
  simp only [resume] at h
  split at h
  · cases h
    rfl
  split at h
  · cases h
    rfl
  · cases h

/-- Some signal can always be given. -/
theorem exists_notify (cv : CondVar T) : ∃ chosen d, cv.notify chosen = some d := by
  cases sleepers : cv.waiting with
  | nil => exact ⟨none, cv, by simp [notify, sleepers]⟩
  | cons t rest => exact ⟨some t, _, by rw [notify, if_pos (by simp [sleepers])]⟩

/-- Who is inside and not asleep can come back. -/
theorem exists_resume (inside : cv.Inside t) (awake : t ∉ cv.waiting) :
    ∃ d, cv.resume t = some d := by
  by_cases signalled : t ∈ cv.signalled
  · exact ⟨_, by rw [resume, if_pos signalled]⟩
  · have roused := (inside.resolve_left awake).resolve_left signalled
    exact ⟨_, by rw [resume, if_neg signalled, if_pos roused]⟩

end Awake

end CondVar

end Machine
