import ThreadAndNet.CondVar
import ThreadAndNet.Failure

/-!
# The thread pool

A task is known by the call of `addTask` that brings it. A round of the loop in
`addTask` or in `take` runs under `mutex_` and is one step, and so is the critical
section of `stop`. The rest of `stop` and the test in `runInThread` do without the
mutex. The assertion in `Condition::wait` is left aside here.
-/

namespace ZDQ

open Machine

/-- Where a thread of the pool is in `runInThread`. -/
inductive Worker (A : Type*) where
  /-- about to test `is_start_` -/
  | test
  /-- about to enter `take` -/
  | take
  /-- in the wait in `take` -/
  | waiting
  /-- with a task taken that has not returned -/
  | run (task : A)
  | ended
deriving DecidableEq

/-- Where the owner of the pool is in `stop`. -/
inductive StopPhase where
  /-- neither in `start` nor in `stop` -/
  | outside
  /-- joining the threads -/
  | joining
  /-- in the loop that empties `b_queue_` -/
  | discarding
  /-- behind that loop -/
  | clearing
deriving DecidableEq

structure ThreadPool (A : Type*) where
  size_queue_ : Nat
  b_queue_ : List A
  threads_ : List (Worker A)
  cond_notFull_ : CondVar A
  cond_notEmpty_ : CondVar Nat
  is_start_ : Bool
  phase : StopPhase

namespace ThreadPool

variable {A : Type*}

def new : ThreadPool A := ⟨0, [], [], .new, .new, false, .outside⟩

/-- The threads are started one by one; one that is not started yet has not come to its
first test. -/
def start (p : ThreadPool A) (size_queue size_thread : Nat) : Except Failure (ThreadPool A) :=
  match p.phase with
  | .outside =>
    -- `Thread::start` asserts that its thread has not been started
    if p.threads_.isEmpty then
      .ok { p with
        size_queue_ := size_queue
        is_start_ := true
        threads_ := List.replicate size_thread .test }
    else .error .assertion
  | _ => .error .disabled

/-- `stop` up to the end of its critical section. -/
def stop (p : ThreadPool A) : Except Failure (ThreadPool A) :=
  match p.phase with
  | .outside =>
    .ok (if p.is_start_ then
      { p with
        is_start_ := false
        cond_notEmpty_ := p.cond_notEmpty_.notifyAll
        phase := .joining }
    else p)
  | _ => .error .disabled

def setWorker (p : ThreadPool A) (i : Nat) (w : Worker A) : ThreadPool A :=
  { p with threads_ := p.threads_.set i w }

variable [DecidableEq A]

/-- `join` has returned for every thread. -/
def joined (p : ThreadPool A) : Except Failure (ThreadPool A) :=
  guarded (p.phase = .joining ∧ ∀ w ∈ p.threads_, w = .ended) { p with phase := .discarding }

/-- One turn of the loop that empties `b_queue_`; it does not take the mutex. -/
def discard (p : ThreadPool A) : Except Failure (ThreadPool A) :=
  guarded (p.phase = .discarding ∧ p.b_queue_ ≠ []) { p with b_queue_ := p.b_queue_.tail }

def discarded (p : ThreadPool A) : Except Failure (ThreadPool A) :=
  guarded (p.phase = .discarding ∧ p.b_queue_ = []) { p with phase := .clearing }

def stopReturn (p : ThreadPool A) : Except Failure (ThreadPool A) :=
  guarded (p.phase = .clearing) { p with threads_ := [], phase := .outside }

/-- `addTask` of the call `t` from a test of its loop on; `chosen` is the worker the signal
wakes. -/
def addTask (p : ThreadPool A) (t : A) (chosen : Option Nat) : Except Failure (ThreadPool A) :=
  if p.size_queue_ ≤ p.b_queue_.length then
    .ok { p with cond_notFull_ := p.cond_notFull_.wait t }
  else if p.b_queue_.length < p.size_queue_ then
    (offered (p.cond_notEmpty_.notify chosen)).map
      (fun cv => { p with b_queue_ := p.b_queue_ ++ [t], cond_notEmpty_ := cv })
  else .error .assertion

/-- `take` of the worker `i` from a test of its loop on; `chosen` is the producer the
signal wakes. -/
def take (p : ThreadPool A) (i : Nat) (chosen : Option A) : Except Failure (ThreadPool A) :=
  match p.b_queue_ with
  | [] =>
    .ok (if p.is_start_ then
      { p with cond_notEmpty_ := p.cond_notEmpty_.wait i }.setWorker i .waiting
    else p.setWorker i .test)
  | t :: rest =>
    (offered (p.cond_notFull_.notify chosen)).map
      (fun cv => { p with b_queue_ := rest, cond_notFull_ := cv }.setWorker i (.run t))

inductive Op (A : Type*) where
  | start (size_queue size_thread : Nat)
  | stop
  | joined
  | discard
  | discarded
  | stopReturn
  /-- the loop of `runInThread` tests its condition -/
  | test (i : Nat)
  | take (i : Nat) (chosen : Option A)
  | spuriousTake (i : Nat)
  | resumeTake (i : Nat) (chosen : Option A)
  /-- the task has returned, or was empty and is not run -/
  | finish (i : Nat)
  | addTask (t : A) (chosen : Option Nat)
  | spuriousAdd (t : A)
  | resumeAdd (t : A) (chosen : Option Nat)

def step (p : ThreadPool A) : Op A → Except Failure (ThreadPool A)
  | .start size_queue size_thread => p.start size_queue size_thread
  | .stop => p.stop
  | .joined => p.joined
  | .discard => p.discard
  | .discarded => p.discarded
  | .stopReturn => p.stopReturn
  | .test i =>
    guarded (p.threads_[i]? = some .test)
      (p.setWorker i (if p.is_start_ then .take else .ended))
  | .take i chosen =>
    if p.threads_[i]? = some .take then p.take i chosen else .error .disabled
  | .spuriousTake i =>
    (offered (p.cond_notEmpty_.rouse i)).map (fun cv => { p with cond_notEmpty_ := cv })
  | .resumeTake i chosen =>
    match p.threads_[i]?, p.cond_notEmpty_.resume i with
    | some .waiting, some cv => { p with cond_notEmpty_ := cv }.take i chosen
    | _, _ => .error .disabled
  | .finish i =>
    match p.threads_[i]? with
    | some (.run _) => .ok (p.setWorker i .test)
    | _ => .error .disabled
  | .addTask t chosen =>
    if p.cond_notFull_.Inside t then .error .disabled else p.addTask t chosen
  | .spuriousAdd t =>
    (offered (p.cond_notFull_.rouse t)).map (fun cv => { p with cond_notFull_ := cv })
  | .resumeAdd t chosen =>
    match p.cond_notFull_.resume t with
    | some cv => { p with cond_notFull_ := cv }.addTask t chosen
    | none => .error .disabled

/-! ## What each operation does -/

section Cases
variable {p r : ThreadPool A}

omit [DecidableEq A] in
theorem start_cases {q n : Nat} (h : p.start q n = .ok r) :
    p.phase = .outside ∧ p.threads_ = [] ∧
      r = { p with size_queue_ := q, is_start_ := true, threads_ := List.replicate n .test } := by
  simp only [start] at h
  split at h
  · rename_i outside
    split at h
    · rename_i none
      cases h
      exact ⟨outside, List.isEmpty_iff.mp none, rfl⟩
    · cases h
  · cases h

omit [DecidableEq A] in
theorem stop_cases (h : p.stop = .ok r) :
    r = p ∨ r = { p with
      is_start_ := false, cond_notEmpty_ := p.cond_notEmpty_.notifyAll, phase := .joining } := by
  simp only [stop] at h
  split at h
  · cases h
    split
    · exact .inr rfl
    · exact .inl rfl
  · cases h

omit [DecidableEq A] in
/-- A producer waits next to a full queue or fills a free place and signals. -/
theorem addTask_cases {t : A} {chosen : Option Nat} (h : p.addTask t chosen = .ok r) :
    p.size_queue_ ≤ p.b_queue_.length ∧
        r = { p with cond_notFull_ := p.cond_notFull_.wait t } ∨
      p.b_queue_.length < p.size_queue_ ∧ ∃ cv, p.cond_notEmpty_.notify chosen = some cv ∧
        r = { p with b_queue_ := p.b_queue_ ++ [t], cond_notEmpty_ := cv } := by
  simp only [addTask] at h
  split at h
  · rename_i full
    cases h
    exact .inl ⟨full, rfl⟩
  split at h
  · rename_i room
    obtain ⟨cv, signalled, rfl⟩ := offered_cases h
    exact .inr ⟨room, cv, signalled, rfl⟩
  · cases h

/-- A worker finds nothing, and waits only while the pool is started; or it takes the
first task and signals. -/
theorem take_cases {i : Nat} {chosen : Option A} (h : p.take i chosen = .ok r) :
    p.b_queue_ = [] ∧
        (r = { p with cond_notEmpty_ := p.cond_notEmpty_.wait i }.setWorker i .waiting ∨
          r = p.setWorker i .test) ∨
      ∃ t rest cv, p.b_queue_ = t :: rest ∧ p.cond_notFull_.notify chosen = some cv ∧
        r = { p with b_queue_ := rest, cond_notFull_ := cv }.setWorker i (.run t) := by
  unfold take at h
  split at h
  · rename_i empty
    cases h
    refine .inl ⟨empty, ?_⟩
    split
    · exact .inl rfl
    · exact .inr rfl
  · rename_i t rest items
    obtain ⟨cv, signalled, rfl⟩ := offered_cases h
    exact .inr ⟨t, rest, cv, items, signalled, rfl⟩

theorem step_take_cases {i : Nat} {chosen : Option A} (h : p.step (.take i chosen) = .ok r) :
    p.threads_[i]? = some .take ∧ p.take i chosen = .ok r := by
  simp only [step] at h
  split at h
  · rename_i at_i
    exact ⟨at_i, h⟩
  · cases h

theorem resumeTake_cases {i : Nat} {chosen : Option A}
    (h : p.step (.resumeTake i chosen) = .ok r) :
    ∃ cv, p.threads_[i]? = some .waiting ∧ p.cond_notEmpty_.resume i = some cv ∧
      { p with cond_notEmpty_ := cv }.take i chosen = .ok r := by
  simp only [step] at h
  split at h
  · rename_i cv waiting back
    exact ⟨cv, waiting, back, h⟩
  · cases h

theorem finish_cases {i : Nat} (h : p.step (.finish i) = .ok r) :
    ∃ t, p.threads_[i]? = some (.run t) ∧ r = p.setWorker i .test := by
  simp only [step] at h
  split at h
  · rename_i t runs
    cases h
    exact ⟨t, runs, rfl⟩
  · cases h

theorem step_addTask_cases {t : A} {chosen : Option Nat}
    (h : p.step (.addTask t chosen) = .ok r) :
    ¬ p.cond_notFull_.Inside t ∧ p.addTask t chosen = .ok r := by
  simp only [step] at h
  split at h
  · cases h
  · rename_i outside
    exact ⟨outside, h⟩

theorem resumeAdd_cases {t : A} {chosen : Option Nat}
    (h : p.step (.resumeAdd t chosen) = .ok r) :
    ∃ cv, p.cond_notFull_.resume t = some cv ∧
      { p with cond_notFull_ := cv }.addTask t chosen = .ok r := by
  simp only [step] at h
  split at h
  · rename_i cv back
    exact ⟨cv, back, h⟩
  · cases h

/-- Steps that have to do with neither the queue nor the condition variables. -/
def Op.Quiet : Op A → Prop
  | .joined | .discarded | .stopReturn | .test _ | .finish _ => True
  | _ => False

/-- The queue is the same, and the same threads wait for it. -/
structure Still (p r : ThreadPool A) : Prop where
  size_queue_ : r.size_queue_ = p.size_queue_
  b_queue_ : r.b_queue_ = p.b_queue_
  cond_notFull_ : r.cond_notFull_ = p.cond_notFull_
  cond_notEmpty_ : r.cond_notEmpty_ = p.cond_notEmpty_

theorem step_still {op : Op A} (h : p.step op = .ok r) (quiet : op.Quiet) : Still p r := by
  cases op with
  | joined =>
    obtain ⟨_, rfl⟩ := guarded_ok.mp h
    exact ⟨rfl, rfl, rfl, rfl⟩
  | discarded =>
    obtain ⟨_, rfl⟩ := guarded_ok.mp h
    exact ⟨rfl, rfl, rfl, rfl⟩
  | stopReturn =>
    obtain ⟨_, rfl⟩ := guarded_ok.mp h
    exact ⟨rfl, rfl, rfl, rfl⟩
  | test i =>
    obtain ⟨_, rfl⟩ := guarded_ok.mp h
    exact ⟨rfl, rfl, rfl, rfl⟩
  | finish i =>
    obtain ⟨_, _, rfl⟩ := finish_cases h
    exact ⟨rfl, rfl, rfl, rfl⟩
  | _ => exact quiet.elim

end Cases

end ThreadPool

end ZDQ
