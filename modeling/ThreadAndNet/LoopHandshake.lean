import ThreadAndNet.Condition
import ThreadAndNet.ThreadRelease

/-!
# How a loop gets from its thread to the one that wants it

`startLoop` waits until `creadLoop` has stored the address of its loop. Mutex and condition are
taken line by line, with the flag that `Condition::wait` asserts. Thread `i` of a pool runs
loop `i + 1`.
-/

namespace ZDQ

open Machine

/-- The threads that share the mutex of an `EventLoopThread`. -/
inductive Party where
  | owner
  | creator
deriving DecidableEq

/-- How far the new thread is in `creadLoop`. -/
inductive CreadLine where
  /-- `pthread_create` has failed -/
  | unstarted
  /-- `EventLoop loop;`, then the guard -/
  | constructing
  | locked
  | stored
  | notified
  /-- behind the guard, in `loop()` -/
  | looping
deriving DecidableEq

/-- Where the base loop's thread is in `start`, and in `startLoop` for the last thread. -/
inductive StartPhase where
  | outside
  /-- at the test of the `for` -/
  | next
  /-- `startLoop` is about to make its guard -/
  | entering
  /-- at the test of the `while` -/
  | testing
  /-- about to call `cond_.wait()` -/
  | calling
  | waiting
  /-- at the end of the guard -/
  | leaving
  /-- at `return loop_` -/
  | returning
deriving DecidableEq

/-- An `EventLoopThread` with the thread it has made. -/
structure LoopThread where
  thread_ : Thread
  loop_ : Option Nat
  lock : MutexLock Party Unit
  line : CreadLine

namespace LoopThread

def new : LoopThread := ⟨.new, none, .new, .unstarted⟩

/-- `startLoop` up to its guard. -/
def start (t : LoopThread) (created : Option Nat) : Except Failure LoopThread :=
  -- `assert(!thread_.IsStarted())`
  if t.thread_.is_start_ then .error .assertion
  else
    (t.thread_.start created).map fun r =>
      { t with
        thread_ := r.1
        line := if created.isSome then .constructing else .unstarted }

/-- With what a function of the mutex or of the condition made of the lock. -/
def locking (t : LoopThread) (lock : Except Failure (MutexLock Party Unit)) :
    Except Failure LoopThread :=
  lock.map fun m => { t with lock := m }

/-- A step of the pthread mutex that does not touch the flag. -/
def waking (t : LoopThread) (next : Option (Monitor Party Unit)) : Except Failure LoopThread :=
  t.locking (MutexLock.pthread next t.lock.is_lock_)

/-- The next line of `creadLoop` in thread `i`; `chosen` is whom the signal wakes. Nobody quits
the loop here: the return of `loop()` and what follows it are left out. -/
def cread (i : Nat) (chosen : Option Party) (t : LoopThread) : Except Failure LoopThread :=
  match t.line with
  | .constructing => { t with line := .locked }.locking (t.lock.lock .creator)
  | .locked => .ok { t with loop_ := some (i + 1), line := .stored }
  | .stored => { t with line := .notified }.waking (t.lock.mutex_.signal () chosen)
  | .notified => { t with line := .looping }.locking (t.lock.unlock .creator)
  | .unstarted | .looping => .error .disabled

end LoopThread

/-! ## The two threads of one `startLoop` -/

/-- The base loop's thread holds the mutex. -/
def StartPhase.holds : StartPhase → Bool
  | .testing | .calling | .leaving => true
  | _ => false

/-- It is in `startLoop`. -/
def StartPhase.inside : StartPhase → Bool
  | .outside | .next => false
  | _ => true

/-- It may still call `wait`. -/
def StartPhase.waits : StartPhase → Bool
  | .testing | .calling | .waiting => true
  | _ => false

/-- The new thread holds the mutex. -/
def CreadLine.holds : CreadLine → Bool
  | .locked | .stored | .notified => true
  | _ => false

/-- The new thread has still to signal. -/
def CreadLine.signals : CreadLine → Bool
  | .unstarted | .constructing | .locked | .stored => true
  | _ => false

/-- What `loop_` is. -/
def CreadLine.loop (i : Nat) : CreadLine → Option Nat
  | .stored | .notified | .looping => some (i + 1)
  | _ => none

/-- A thread that does not hold the mutex is in its loop or has still to signal. -/
theorem CreadLine.signals_of_early {line : CreadLine} (idle : line.holds = false)
    (early : line ≠ .looping) : line.signals = true := by
  cases line with
  | looping => exact absurd rfl early
  | unstarted => rfl
  | constructing => rfl
  | _ => cases idle

theorem CreadLine.looping_of_loop {i : Nat} {line : CreadLine} (idle : line.holds = false)
    (stored : line.loop i ≠ none) : line = .looping := by
  cases line with
  | looping => rfl
  | unstarted => exact absurd rfl stored
  | constructing => exact absurd rfl stored
  | _ => cases idle

/-- How thread `i` and the one that waits for it stand to each other. The latter only sleeps
while the signal is still to come, and as long as it may call `wait` nobody has cleared the
flag. -/
structure Handshake (i : Nat) (phase : StartPhase) (t : LoopThread) : Prop where
  owner : t.lock.mutex_.owner =
    if phase.holds then some .owner else if t.line.holds then some .creator else none
  apart : phase.holds = true → t.line.holds = false
  loop : t.loop_ = t.line.loop i
  awake : phase ≠ .waiting → t.lock.mutex_.waiting = [] ∧ t.lock.mutex_.woken = []
  waits : phase = .waiting →
    t.lock.mutex_.waiting = [(.owner, ())] ∧ t.lock.mutex_.woken = [] ∧ t.line.signals = true ∨
      t.lock.mutex_.waiting = [] ∧ t.lock.mutex_.woken = [(.owner, ())]
  flag : phase.waits = true → t.line ≠ .looping → t.lock.is_lock_ = true
  null : phase = .calling → t.line ≠ .looping
  found : phase = .leaving ∨ phase = .returning → t.line = .looping

namespace Handshake

variable {i : Nat} {phase : StartPhase} {t u : LoopThread}

theorem start {created : Option Nat} (h : LoopThread.new.start created = .ok t) :
    Handshake i .entering t ∧ (t.line = .unstarted ↔ created = none) := by
  cases created with
  | none =>
    cases h
    exact ⟨⟨rfl, nofun, rfl, fun _ => ⟨rfl, rfl⟩, nofun, nofun, nofun, nofun⟩, by simp⟩
  | some pid =>
    cases h
    exact ⟨⟨rfl, nofun, rfl, fun _ => ⟨rfl, rfl⟩, nofun, nofun, nofun, nofun⟩, by simp⟩

/-- While neither thread holds the mutex it is free. -/
theorem free (h : Handshake i phase t) (idle : phase.holds = false) :
    t.lock.mutex_.owner = none ↔ t.line.holds = false := by
  rw [h.owner, idle]
  cases t.line.holds <;> simp

theorem lock (h : Handshake i .entering t) (made : t.locking (t.lock.lock .owner) = .ok u) :
    Handshake i .testing u ∧ u.line = t.line := by
  obtain ⟨n, hn, rfl⟩ := MutexLock.pthread_cases made
  obtain ⟨⟨free, _⟩, rfl⟩ := Monitor.lock_iff.mp hn
  have idle := (h.free rfl).mp free
  exact ⟨⟨rfl, fun _ => idle, h.loop, fun _ => h.awake nofun, nofun, fun _ _ => rfl, nofun, nofun⟩,
    rfl⟩

theorem found_loop (h : Handshake i .testing t) (found : t.loop_ ≠ none) :
    Handshake i .leaving t := by
  have apart := h.apart rfl
  rw [h.loop] at found
  have looping := CreadLine.looping_of_loop apart found
  exact ⟨h.owner, h.apart, h.loop, fun _ => h.awake nofun, nofun, nofun, nofun, fun _ => looping⟩

theorem found_null (h : Handshake i .testing t) (null : t.loop_ = none) :
    Handshake i .calling t := by
  refine ⟨h.owner, h.apart, h.loop, fun _ => h.awake nofun, nofun, fun _ => h.flag rfl,
    fun _ looping => ?_, nofun⟩
  rw [h.loop, looping] at null
  cases null

theorem wait (h : Handshake i .calling t) (made : t.locking (t.lock.wait .owner ()) = .ok u) :
    Handshake i .waiting u ∧ u.line = t.line ∧ u.lock.mutex_.woken = [] := by
  have null := h.null rfl
  have flag := h.flag rfl null
  obtain ⟨asleep, woken⟩ := h.awake (fun waiting => by cases waiting)
  have idle := h.apart rfl
  rw [MutexLock.wait, if_pos flag] at made
  obtain ⟨n, hn, rfl⟩ := MutexLock.pthread_cases made
  obtain ⟨_, rfl⟩ := Monitor.wait_iff.mp hn
  have signals := CreadLine.signals_of_early idle null
  refine ⟨⟨?_, (fun held => by cases held), h.loop, fun other => absurd rfl other,
    fun _ => .inl ⟨?_, woken, signals⟩, fun _ _ => flag, (fun calling => by cases calling), ?_⟩,
    rfl, woken⟩
  · simp only [idle, StartPhase.holds, Bool.false_eq_true, if_false]
  · simp only [asleep, List.nil_append]
  · rintro (leaving | returning)
    · cases leaving
    · cases returning

theorem rouse (h : Handshake i .waiting t)
    (made : t.waking (t.lock.mutex_.wake .owner ()) = .ok u) :
    Handshake i .waiting u ∧ u.line = t.line := by
  obtain ⟨n, hn, rfl⟩ := MutexLock.pthread_cases made
  obtain ⟨sleeps, rfl⟩ := Monitor.wake_iff.mp hn
  obtain ⟨asleep, woken, _⟩ | ⟨none, _⟩ := h.waits rfl
  · refine ⟨⟨h.owner, nofun, h.loop, fun other => absurd rfl other, fun _ => .inr ⟨?_, ?_⟩,
      h.flag, nofun, nofun⟩, rfl⟩
    · simp [asleep]
    · simp [woken]
  · rw [none] at sleeps
    cases sleeps

theorem resume (h : Handshake i .waiting t)
    (made : t.waking (t.lock.mutex_.resume .owner ()) = .ok u) :
    Handshake i .testing u ∧ u.line = t.line ∧ t.lock.mutex_.woken ≠ [] := by
  obtain ⟨n, hn, rfl⟩ := MutexLock.pthread_cases made
  obtain ⟨⟨mem, free⟩, rfl⟩ := Monitor.resume_iff.mp hn
  have idle := (h.free rfl).mp free
  obtain ⟨_, none, _⟩ | ⟨none, woken⟩ := h.waits rfl
  · rw [none] at mem
    cases mem
  · refine ⟨⟨rfl, fun _ => idle, h.loop, fun _ => ⟨none, ?_⟩, nofun, fun _ => h.flag rfl, nofun,
      nofun⟩, rfl, List.ne_nil_of_mem mem⟩
    simp [woken]

theorem unlock (h : Handshake i .leaving t) (made : t.locking (t.lock.unlock .owner) = .ok u) :
    Handshake i .returning u ∧ u.line = t.line := by
  obtain ⟨n, hn, rfl⟩ := MutexLock.pthread_cases made
  obtain ⟨_, rfl⟩ := Monitor.unlock_iff.mp hn
  have looping := h.found (.inl rfl)
  refine ⟨⟨?_, nofun, h.loop, fun _ => h.awake nofun, nofun, nofun, nofun, fun _ => looping⟩, rfl⟩
  rw [looping]
  rfl

/-! The lines of `creadLoop`. -/

theorem before_loop (h : Handshake i phase t) (early : t.line ≠ .looping) :
    ¬ (phase = .leaving ∨ phase = .returning) :=
  fun late => early (h.found late)

theorem cread_lock (h : Handshake i phase t) (line : t.line = .constructing)
    (made : ({ t with line := .locked } : LoopThread).locking (t.lock.lock .creator) = .ok u) :
    Handshake i phase u ∧ u.line = .locked ∧ u.lock.mutex_.woken = t.lock.mutex_.woken := by
  obtain ⟨n, hn, rfl⟩ := MutexLock.pthread_cases made
  obtain ⟨⟨free, _⟩, rfl⟩ := Monitor.lock_iff.mp hn
  have early : t.line ≠ .looping := by simp [line]
  have idle : phase.holds = false := by
    rw [h.owner] at free
    cases holds : phase.holds with
    | false => rfl
    | true => simp [holds] at free
  have signals : t.line.signals = CreadLine.locked.signals := by rw [line]; rfl
  refine ⟨⟨?_, fun holds => ?_, ?_, h.awake, ?_, fun _ _ => rfl, (fun _ same => by cases same),
    fun late => absurd late (h.before_loop early)⟩, rfl, rfl⟩
  · simp only [idle, CreadLine.holds, Bool.false_eq_true, if_false, if_true]
  · rw [idle] at holds
    cases holds
  · rw [h.loop, line]
    rfl
  · rw [← signals]
    exact h.waits

theorem cread_store (h : Handshake i phase t) (line : t.line = .locked) :
    Handshake i phase { t with loop_ := some (i + 1), line := .stored } := by
  have early : t.line ≠ .looping := by simp [line]
  have holds : t.line.holds = CreadLine.stored.holds := by rw [line]; rfl
  have signals : t.line.signals = CreadLine.stored.signals := by rw [line]; rfl
  refine ⟨?_, ?_, rfl, h.awake, ?_, fun waits _ => h.flag waits early,
    (fun _ same => by cases same), fun late => absurd late (h.before_loop early)⟩
  · rw [← holds]
    exact h.owner
  · rw [← holds]
    exact h.apart
  · rw [← signals]
    exact h.waits

/-- The signal wakes whoever sleeps. -/
theorem cread_notify (h : Handshake i phase t) (line : t.line = .stored) {chosen : Option Party}
    (made : ({ t with line := .notified } : LoopThread).waking
      (t.lock.mutex_.signal () chosen) = .ok u) :
    Handshake i phase u ∧ u.line = .notified := by
  obtain ⟨n, hn, rfl⟩ := MutexLock.pthread_cases made
  have early : t.line ≠ .looping := by simp [line]
  have holds : t.line.holds = CreadLine.notified.holds := by rw [line]; rfl
  have owner := Monitor.owner_signal hn
  have slept : (phase ≠ .waiting → n.waiting = [] ∧ n.woken = []) ∧
      (phase = .waiting → n.waiting = [] ∧ n.woken = [(.owner, ())]) := by
    cases chosen with
    | none =>
      rw [Monitor.signal] at hn
      split at hn
      · cases hn
      · rename_i nobody
        cases hn
        refine ⟨h.awake, fun waiting => (h.waits waiting).resolve_left fun sleeps => nobody ?_⟩
        simp [sleeps.1]
    | some p =>
      obtain ⟨sleeps, rfl⟩ := Monitor.wake_iff.mp hn
      constructor
      · intro awake
        rw [(h.awake awake).1] at sleeps
        cases sleeps
      · intro waiting
        rcases h.waits waiting with ⟨asleep, woken, _⟩ | ⟨none, _⟩
        · rw [asleep, List.mem_singleton] at sleeps
          simp [asleep, woken, sleeps]
        · rw [none] at sleeps
          cases sleeps
  refine ⟨⟨?_, ?_, ?_, slept.1, fun waiting => .inr (slept.2 waiting),
    fun waits _ => h.flag waits early, (fun _ same => by cases same),
    fun late => absurd late (h.before_loop early)⟩, rfl⟩
  · rw [owner, ← holds]
    exact h.owner
  · rw [← holds]
    exact h.apart
  · rw [h.loop, line]
    rfl

theorem cread_unlock (h : Handshake i phase t) (line : t.line = .notified)
    (made : ({ t with line := .looping } : LoopThread).locking (t.lock.unlock .creator) = .ok u) :
    Handshake i phase u ∧ u.line = .looping ∧ u.lock.mutex_.woken = t.lock.mutex_.woken := by
  obtain ⟨n, hn, rfl⟩ := MutexLock.pthread_cases made
  obtain ⟨_, rfl⟩ := Monitor.unlock_iff.mp hn
  have early : t.line ≠ .looping := by simp [line]
  have idle : phase.holds = false := by
    cases holds : phase.holds with
    | false => rfl
    | true =>
      have apart := h.apart holds
      rw [line] at apart
      cases apart
  refine ⟨⟨?_, fun _ => rfl, ?_, h.awake, fun waiting => .inr ?_, fun _ late => absurd rfl late,
    fun calling => ?_, fun _ => rfl⟩, rfl, rfl⟩
  · simp only [idle, CreadLine.holds, Bool.false_eq_true, if_false]
  · rw [h.loop, line]
    rfl
  · refine (h.waits waiting).resolve_left fun sleeps => ?_
    rw [line] at sleeps
    cases sleeps.2.2
  · rw [calling] at idle
    cases idle

end Handshake

/-- How many lines of `creadLoop` come before `loop()`. -/
def CreadLine.left : CreadLine → Nat
  | .constructing => 4
  | .locked => 3
  | .stored => 2
  | .notified => 1
  | .unstarted | .looping => 0

namespace LoopThread

variable {t u : LoopThread}

/-- How many lines of `startLoop` are left if the thread that waits is not woken in vain any
more. -/
def left (t : LoopThread) : StartPhase → Nat
  | .entering => 7
  | .testing => if t.loop_ = none then 6 else 3
  | .calling => 5
  | .waiting => if t.loop_ = none ∧ t.lock.mutex_.woken ≠ [] then 7 else 4
  | .leaving => 2
  | .returning => 1
  | .outside | .next => 0

theorem left_le (phase : StartPhase) (null : u.loop_ = none →
    t.loop_ = none ∧ u.lock.mutex_.woken = t.lock.mutex_.woken) : u.left phase ≤ t.left phase := by
  by_cases here : u.loop_ = none
  · obtain ⟨before, woken⟩ := null here
    cases phase <;> simp [left, here, before, woken]
  · cases phase with
    | testing =>
      simp only [left, here, if_false]
      split <;> omega
    | waiting =>
      simp only [left, here, false_and, if_false]
      split <;> omega
    | _ => exact Nat.le_refl _

end LoopThread

/-- The next line of `creadLoop`. -/
theorem Handshake.cread {i : Nat} {phase : StartPhase} {t u : LoopThread}
    (h : Handshake i phase t) {chosen : Option Party} (made : t.cread i chosen = .ok u) :
    Handshake i phase u ∧ u.line.left + 1 = t.line.left ∧ u.left phase ≤ t.left phase ∧
      u.line ≠ .unstarted := by
  rw [LoopThread.cread] at made
  split at made
  · rename_i line
    obtain ⟨kept, now, woken⟩ := h.cread_lock line made
    refine ⟨kept, by rw [now, line]; rfl, LoopThread.left_le phase fun _ => ⟨?_, woken⟩, ?_⟩
    · rw [h.loop, line]
      rfl
    · simp [now]
  · rename_i line
    cases made
    have kept := h.cread_store line
    refine ⟨kept, by rw [line]; rfl, LoopThread.left_le phase fun null => ?_, by simp⟩
    cases null
  · rename_i line
    obtain ⟨kept, now⟩ := h.cread_notify line made
    refine ⟨kept, by rw [now, line]; rfl, LoopThread.left_le phase fun null => ?_, by simp [now]⟩
    rw [kept.loop, now] at null
    cases null
  · rename_i line
    obtain ⟨kept, now, _⟩ := h.cread_unlock line made
    refine ⟨kept, by rw [now, line]; rfl, LoopThread.left_le phase fun null => ?_, by simp [now]⟩
    rw [kept.loop, now] at null
    cases null
  · cases made
  · cases made

theorem exists_locking (u : LoopThread) (flag : Bool) {next : Option (Monitor Party Unit)}
    {n : Monitor Party Unit} (h : next = some n) :
    ∃ v, u.locking (MutexLock.pthread next flag) = .ok v := by
  rw [h]
  exact ⟨_, rfl⟩

/-- A thread that holds the mutex of its `creadLoop` goes on. -/
theorem Handshake.cread_goes_on {k : Nat} {phase : StartPhase} {u : LoopThread}
    (h : Handshake k phase u) (holds : u.line.holds = true) :
    ∃ chosen v, u.cread k chosen = .ok v := by
  have idle : phase.holds = false := by
    cases both : phase.holds with
    | false => rfl
    | true =>
      rw [h.apart both] at holds
      cases holds
  have owner : u.lock.mutex_.owner = some .creator := by
    rw [h.owner, idle, holds]
    rfl
  cases line : u.line with
  | locked => exact ⟨none, _, by rw [LoopThread.cread, line]⟩
  | stored =>
    obtain ⟨chosen, n, signalled⟩ := u.lock.mutex_.exists_signal ()
    obtain ⟨v, made⟩ := exists_locking { u with line := .notified } u.lock.is_lock_ signalled
    exact ⟨chosen, v, by rw [LoopThread.cread, line]; exact made⟩
  | notified =>
    obtain ⟨v, made⟩ := exists_locking { u with line := .looping } false
      (Monitor.unlock_iff.mpr ⟨owner, rfl⟩)
    exact ⟨none, v, by rw [LoopThread.cread, line]; exact made⟩
  | unstarted | constructing | looping =>
    rw [line] at holds
    cases holds

end ZDQ
