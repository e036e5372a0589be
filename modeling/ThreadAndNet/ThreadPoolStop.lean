import ThreadAndNet.Machine
import ThreadAndNet.ThreadPool

/-!
# `stop` returns

Once `is_start_` is false nobody falls asleep on `cond_notEmpty_` any more, and those who
slept were woken. So each worker ends after at most three steps, and `stop` has one turn of
its loop for every task that is left. Tasks are taken to return.
-/

namespace ZDQ

open Machine

/-- How many steps a worker takes at most once the pool is stopped. -/
def Worker.left {A : Type*} : Worker A → Nat
  | .ended => 0
  | .test => 1
  | .run _ => 2
  | .take | .waiting => 3

/-- How many steps `stop` has before it, with `n` tasks in the queue. -/
def StopPhase.left (n : Nat) : StopPhase → Nat
  | .outside => 0
  | .joining => 3 + n
  | .discarding => 2 + n
  | .clearing => 1

namespace ThreadPool

variable {A : Type*} {p r : ThreadPool A}

def workersLeft (p : ThreadPool A) : Nat := (p.threads_.map Worker.left).sum

/-- How many steps `stop` and the workers take at most. -/
def left (p : ThreadPool A) : Nat := p.workersLeft + p.phase.left p.b_queue_.length

/-- Who waits for a task is inside the wait, the worker `i` left aside; and a pool that is not
started has nobody asleep there, as `stop` has woken them all. -/
structure StopsBut (p : ThreadPool A) (i : Option Nat) : Prop where
  inside : ∀ k, some k ≠ i → p.threads_[k]? = some .waiting → p.cond_notEmpty_.Inside k
  awake : p.is_start_ = false → p.cond_notEmpty_.waiting = []
  stopping : p.phase ≠ .outside → p.is_start_ = false
  left : p.phase = .outside → p.is_start_ = false → p.threads_ = []

abbrev Stops (p : ThreadPool A) : Prop := StopsBut p none

theorem StopsBut.setWorker {i : Nat} {w v : Worker A} (h : StopsBut p (some i))
    (there : p.threads_[i]? = some w) (waits : v = .waiting → p.cond_notEmpty_.Inside i) :
    Stops (p.setWorker i v) := by
  obtain ⟨lt, _⟩ := List.getElem?_eq_some_iff.mp there
  refine ⟨fun k _ waiting => ?_, h.awake, h.stopping, fun outside stopped => ?_⟩
  · by_cases same : k = i
    · subst same
      rw [ThreadPool.setWorker, List.getElem?_set_self lt] at waiting
      exact waits (Option.some.inj waiting)
    · rw [ThreadPool.setWorker, List.getElem?_set_ne (Ne.symm same)] at waiting
      exact h.inside k (fun e => same (Option.some.inj e)) waiting
  · rw [h.left outside stopped] at there
    cases there

theorem Stops.but (h : Stops p) (i : Option Nat) : StopsBut p i :=
  ⟨fun k _ => h.inside k nofun, h.awake, h.stopping, h.left⟩

/-- The same threads wait. -/
theorem StopsBut.of_perm {i : Option Nat} (h : StopsBut p i) {cv : CondVar Nat}
    (perm : cv.threads.Perm p.cond_notEmpty_.threads)
    (awake : p.cond_notEmpty_.waiting = [] → cv.waiting = []) :
    StopsBut { p with cond_notEmpty_ := cv } i := by
  refine ⟨fun k other waiting => ?_, fun stopped => awake (h.awake stopped), h.stopping, h.left⟩
  exact CondVar.mem_threads.mp (perm.mem_iff.mpr (CondVar.mem_threads.mpr
    (h.inside k other waiting)))

variable [DecidableEq A]

/-- `take` tests `is_start_` under the mutex: in a stopped pool it does not wait. -/
theorem take_stopped {i : Nat} {chosen : Option A} (stopped : p.is_start_ = false)
    (h : p.take i chosen = .ok r) :
    p.b_queue_ = [] ∧ r = p.setWorker i .test ∨
      ∃ t rest cv, p.b_queue_ = t :: rest ∧
        r = { p with b_queue_ := rest, cond_notFull_ := cv }.setWorker i (.run t) := by
  obtain ⟨empty, _⟩ | ⟨t, rest, cv, items, _, rfl⟩ := take_cases h
  · left
    simp only [take, empty, stopped, Bool.false_eq_true, if_false, Except.ok.injEq] at h
    exact ⟨empty, h.symm⟩
  · exact .inr ⟨t, rest, cv, items, rfl⟩

theorem StopsBut.take {i : Nat} {w : Worker A} {chosen : Option A} (h : StopsBut p (some i))
    (there : p.threads_[i]? = some w) (ht : p.take i chosen = .ok r) : Stops r := by
  cases running : p.is_start_ with
  | false =>
    obtain ⟨_, rfl⟩ | ⟨t, rest, cv, _, rfl⟩ := take_stopped running ht
    · exact h.setWorker there nofun
    · have same : StopsBut { p with b_queue_ := rest, cond_notFull_ := cv } (some i) :=
        ⟨h.inside, h.awake, h.stopping, h.left⟩
      exact same.setWorker there nofun
  | true =>
    obtain ⟨_, rfl | rfl⟩ | ⟨t, rest, cv, _, _, rfl⟩ := take_cases ht
    · have slept : StopsBut { p with cond_notEmpty_ := p.cond_notEmpty_.wait i } (some i) := by
        refine ⟨fun k other waiting => ?_, fun stopped => ?_, h.stopping, h.left⟩
        · have before := CondVar.mem_threads.mpr (h.inside k other waiting)
          exact CondVar.mem_threads.mp
            ((CondVar.threads_wait _ i).mem_iff.mpr (List.mem_cons_of_mem i before))
        · rw [running] at stopped
          cases stopped
      apply slept.setWorker there
      intro _
      exact CondVar.mem_threads.mp ((CondVar.threads_wait _ i).mem_iff.mpr List.mem_cons_self)
    · exact h.setWorker there nofun
    · have same : StopsBut { p with b_queue_ := rest, cond_notFull_ := cv } (some i) :=
        ⟨h.inside, h.awake, h.stopping, h.left⟩
      exact same.setWorker there nofun

omit [DecidableEq A] in
theorem Stops.addTask {t : A} {chosen : Option Nat} (h : Stops p)
    (ha : p.addTask t chosen = .ok r) : Stops r := by
  obtain ⟨_, rfl⟩ | ⟨_, cv, signalled, rfl⟩ := addTask_cases ha
  · exact ⟨h.inside, h.awake, h.stopping, h.left⟩
  · have same := h.of_perm (CondVar.threads_notify signalled) (CondVar.waiting_notify signalled)
    exact ⟨same.inside, same.awake, same.stopping, same.left⟩

theorem Stops.step {op : Op A} (h : Stops p) (hs : p.step op = .ok r) : Stops r := by
  cases op with
  | start q n =>
    obtain ⟨outside, _, rfl⟩ := start_cases hs
    refine ⟨fun k _ waiting => ?_, nofun, fun inside => absurd outside inside, nofun⟩
    have mem := List.mem_of_getElem? waiting
    cases List.eq_of_mem_replicate mem
  | stop =>
    obtain rfl | rfl := stop_cases hs
    · exact h
    · refine ⟨fun k _ waiting => ?_, fun _ => rfl, fun _ => rfl, nofun⟩
      have before := CondVar.mem_threads.mpr (h.inside k nofun waiting)
      exact CondVar.mem_threads.mp ((CondVar.threads_notifyAll _).mem_iff.mpr before)
  | joined =>
    obtain ⟨⟨joining, _⟩, rfl⟩ := guarded_ok.mp hs
    exact ⟨h.inside, h.awake, fun _ => h.stopping (by rw [joining]; nofun), nofun⟩
  | discard =>
    obtain ⟨_, rfl⟩ := guarded_ok.mp hs
    exact ⟨h.inside, h.awake, h.stopping, h.left⟩
  | discarded =>
    obtain ⟨⟨discarding, _⟩, rfl⟩ := guarded_ok.mp hs
    exact ⟨h.inside, h.awake, fun _ => h.stopping (by rw [discarding]; nofun), nofun⟩
  | stopReturn =>
    obtain ⟨_, rfl⟩ := guarded_ok.mp hs
    exact ⟨nofun, h.awake, fun inside => absurd rfl inside, fun _ _ => rfl⟩
  | test i =>
    obtain ⟨there, rfl⟩ := guarded_ok.mp hs
    apply (h.but i).setWorker there
    split <;> exact nofun
  | take i chosen =>
    obtain ⟨there, ht⟩ := step_take_cases hs
    exact (h.but i).take there ht
  | spuriousTake i =>
    obtain ⟨cv, roused, rfl⟩ := offered_cases hs
    exact h.of_perm (CondVar.threads_rouse roused) (CondVar.waiting_rouse roused)
  | resumeTake i chosen =>
    obtain ⟨cv, there, back, ht⟩ := resumeTake_cases hs
    have rest : StopsBut { p with cond_notEmpty_ := cv } (some i) := by
      refine ⟨fun k other waiting => ?_, fun stopped => ?_, h.stopping, h.left⟩
      · have before := CondVar.mem_threads.mpr (h.inside k nofun waiting)
        have left := (CondVar.threads_resume back).mem_iff.mp before
        rcases List.mem_cons.mp left with rfl | mem
        · exact absurd rfl other
        · exact CondVar.mem_threads.mp mem
      · rw [← h.awake stopped]
        exact CondVar.waiting_resume back
    exact rest.take there ht
  | finish i =>
    obtain ⟨t, there, rfl⟩ := finish_cases hs
    exact (h.but i).setWorker there nofun
  | addTask t chosen => exact h.addTask (step_addTask_cases hs).2
  | spuriousAdd t =>
    obtain ⟨cv, _, rfl⟩ := offered_cases hs
    exact ⟨h.inside, h.awake, h.stopping, h.left⟩
  | resumeAdd t chosen =>
    obtain ⟨cv, _, hadd⟩ := resumeAdd_cases hs
    have same : Stops { p with cond_notFull_ := cv } := ⟨h.inside, h.awake, h.stopping, h.left⟩
    exact same.addTask hadd

/-! ## Every step of the pool costs -/

/-- The steps of the workers. -/
def Op.ofWorker : Op A → Bool
  | .test _ | .take _ _ | .resumeTake _ _ | .finish _ => true
  | _ => false

def Op.starts : Op A → Bool
  | .start _ _ => true
  | _ => false

omit [DecidableEq A] in
theorem sum_setWorker {i : Nat} {w : Worker A} (there : p.threads_[i]? = some w)
    (v : Worker A) (f : Worker A → ℕ) :
    ((p.setWorker i v).threads_.map f).sum + f w = (p.threads_.map f).sum + f v := by
  obtain ⟨lt, is_w⟩ := List.getElem?_eq_some_iff.mp there
  obtain ⟨pre, post, all, _, set⟩ := @List.exists_of_set _ i v p.threads_ lt
  rw [is_w] at all
  simp only [ThreadPool.setWorker, set]
  rw [all]
  simp only [List.map_append, List.map_cons, List.sum_append, List.sum_cons]
  omega

omit [DecidableEq A] in
theorem sum_le {f : Worker A → ℕ} {n : Nat} (most : ∀ w, f w ≤ n) (p : ThreadPool A) :
    (p.threads_.map f).sum ≤ n * p.threads_.length := by
  induction p.threads_ with
  | nil => exact Nat.le_refl _
  | cons w rest ih =>
    have here := most w
    rw [List.map_cons, List.sum_cons, List.length_cons, Nat.mul_succ]
    omega

omit [DecidableEq A] in
/-- With the same workers only the queue counts. -/
theorem left_le {n : Nat} (workers : r.threads_ = p.threads_) (phase : r.phase = p.phase)
    (queue : r.b_queue_.length ≤ p.b_queue_.length + n) : r.left ≤ p.left + n := by
  rw [left, left, workersLeft, workersLeft, workers, phase]
  cases p.phase <;> simp only [StopPhase.left] <;> omega

theorem take_enabled (p : ThreadPool A) (i : Nat) : ∃ chosen r, p.take i chosen = .ok r := by
  cases queue : p.b_queue_ with
  | nil => exact ⟨none, _, by rw [take, queue]⟩
  | cons t rest =>
    obtain ⟨chosen, cv, signalled⟩ := p.cond_notFull_.exists_notify
    refine ⟨chosen, { p with b_queue_ := rest, cond_notFull_ := cv }.setWorker i (.run t), ?_⟩
    rw [take, queue]
    simp only [signalled, offered, Except.map]

/-- A worker that has not ended can go on, unless it waits and is not awake. -/
theorem worker_enabled {i : Nat} {w : Worker A} (there : p.threads_[i]? = some w)
    (runs : w ≠ .ended) (back : w = .waiting → ∃ cv, p.cond_notEmpty_.resume i = some cv) :
    ∃ op : Op A, op.ofWorker ∧ ∃ r, p.step op = .ok r := by
  cases w with
  | ended => exact absurd rfl runs
  | test => exact ⟨.test i, rfl, _, guarded_ok.mpr ⟨there, rfl⟩⟩
  | run t => exact ⟨.finish i, rfl, p.setWorker i .test, by simp only [step, there]⟩
  | take =>
    obtain ⟨chosen, r, taken⟩ := p.take_enabled i
    exact ⟨.take i chosen, rfl, r, by simp only [step, there, if_true, taken]⟩
  | waiting =>
    obtain ⟨cv, back⟩ := back rfl
    obtain ⟨chosen, r, taken⟩ := ({ p with cond_notEmpty_ := cv } : ThreadPool A).take_enabled i
    exact ⟨.resumeTake i chosen, rfl, r, by simp only [step, there, back, taken]⟩

end ThreadPool

end ZDQ
