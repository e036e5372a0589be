import ThreadAndNet.ThreadPoolSignals
import ThreadAndNet.ThreadPoolStop
import ThreadAndNet.ThreadPoolTasks

/-!
# Every task is taken

While the pool is started no task is left in the queue, whatever the producers do: a worker
that does not sleep comes to `take` after at most two steps, and where all of them are in the
wait one was signalled. What is in front of a task costs three steps for each task that a
worker takes.
-/

namespace ZDQ

open Machine

/-- How many steps a worker is away from `take`. -/
def Worker.away {A : Type*} : Worker A → ℕ
  | .run _ => 2
  | .test => 1
  | _ => 0

namespace ThreadPool

variable {A : Type*}

def away (p : ThreadPool A) : ℕ := (p.threads_.map Worker.away).sum

/-! ## Who is in the wait of `take` -/

/-- The worker `i` left aside, those inside `cond_notEmpty_` are the workers that wait. Nobody
ends while the pool is started, and everybody has behind the joins. -/
structure WaitsBut (p : ThreadPool A) (i : Option ℕ) : Prop where
  once : p.cond_notEmpty_.threads.Nodup
  inside : ∀ k, k ∈ p.cond_notEmpty_.threads ↔ some k ≠ i ∧ p.threads_[k]? = some .waiting
  alive : p.is_start_ = true → ∀ w ∈ p.threads_, w ≠ .ended
  ended : p.phase = .discarding ∨ p.phase = .clearing → ∀ w ∈ p.threads_, w = .ended

abbrev Waits (p : ThreadPool A) : Prop := WaitsBut p none

variable {p r : ThreadPool A}

theorem new_waits : Waits (new : ThreadPool A) :=
  ⟨List.nodup_nil, by simp [new, CondVar.new, CondVar.threads],
    fun _ => List.forall_mem_nil _, fun _ => List.forall_mem_nil _⟩

theorem Waits.inside_iff (h : Waits p) (k : ℕ) :
    k ∈ p.cond_notEmpty_.threads ↔ p.threads_[k]? = some .waiting := by
  rw [h.inside k]
  exact and_iff_right (Option.some_ne_none k)

/-- A worker that does not wait can be left aside. -/
theorem Waits.but (h : Waits p) {i : ℕ} {w : Worker A} (there : p.threads_[i]? = some w)
    (idle : w ≠ .waiting) : WaitsBut p (some i) := by
  refine ⟨h.once, fun k => ?_, h.alive, h.ended⟩
  rw [h.inside_iff]
  refine ⟨fun waits => ⟨fun same => ?_, waits⟩, And.right⟩
  rw [Option.some.inj same, there] at waits
  exact idle (Option.some.inj waits)

theorem WaitsBut.of_perm {i : Option ℕ} (h : WaitsBut p i) {cv : CondVar ℕ}
    (perm : cv.threads.Perm p.cond_notEmpty_.threads) :
    WaitsBut { p with cond_notEmpty_ := cv } i :=
  ⟨perm.nodup_iff.mpr h.once, fun k => perm.mem_iff.trans (h.inside k), h.alive, h.ended⟩

theorem Waits.resume [DecidableEq A] (h : Waits p) {i : ℕ} {cv : CondVar ℕ}
    (back : p.cond_notEmpty_.resume i = some cv) :
    WaitsBut { p with cond_notEmpty_ := cv } (some i) := by
  have perm := CondVar.threads_resume back
  obtain ⟨apart, once⟩ := List.nodup_cons.mp (perm.nodup_iff.mp h.once)
  refine ⟨once, fun k => ?_, h.alive, h.ended⟩
  have before := h.inside_iff k
  rw [perm.mem_iff, List.mem_cons] at before
  constructor
  · intro mem
    refine ⟨fun same => ?_, before.mp (.inr mem)⟩
    rw [Option.some.inj same] at mem
    exact apart mem
  · rintro ⟨other, waits⟩
    exact (before.mpr waits).resolve_left fun same => other (congrArg some same)

section SetWorker
variable {i : ℕ} {w v : Worker A}

theorem WaitsBut.all_alive (h : WaitsBut p (some i)) (there : p.threads_[i]? = some w)
    (runs : w ≠ .ended) (runs' : p.is_start_ = true → v ≠ .ended) :
    (p.is_start_ = true → ∀ u ∈ (p.setWorker i v).threads_, u ≠ .ended) ∧
      (p.phase = .discarding ∨ p.phase = .clearing →
        ∀ u ∈ (p.setWorker i v).threads_, u = .ended) := by
  constructor
  · intro started u mem
    rcases List.mem_or_eq_of_mem_set mem with mem | rfl
    · exact h.alive started u mem
    · exact runs' started
  · intro late
    exact absurd (h.ended late w (List.mem_of_getElem? there)) runs

/-- The worker that was left aside does not wait. -/
theorem WaitsBut.setWorker (h : WaitsBut p (some i)) (there : p.threads_[i]? = some w)
    (runs : w ≠ .ended) (runs' : p.is_start_ = true → v ≠ .ended) (idle : v ≠ .waiting) :
    Waits (p.setWorker i v) := by
  obtain ⟨alive, ended⟩ := h.all_alive there runs runs'
  obtain ⟨lt, _⟩ := List.getElem?_eq_some_iff.mp there
  refine ⟨h.once, fun k => ?_, alive, ended⟩
  refine (h.inside k).trans ?_
  by_cases same : k = i
  · subst same
    simp [ThreadPool.setWorker, lt, idle]
  · simp [ThreadPool.setWorker, same, List.getElem?_set_ne (Ne.symm same)]

theorem WaitsBut.sleeps (h : WaitsBut p (some i)) (there : p.threads_[i]? = some w)
    (runs : w ≠ .ended) :
    Waits ({ p with cond_notEmpty_ := p.cond_notEmpty_.wait i }.setWorker i .waiting) := by
  obtain ⟨alive, ended⟩ := h.all_alive (v := .waiting) there runs (by simp)
  obtain ⟨lt, _⟩ := List.getElem?_eq_some_iff.mp there
  have perm := CondVar.threads_wait p.cond_notEmpty_ i
  have apart : i ∉ p.cond_notEmpty_.threads := fun mem => ((h.inside i).mp mem).1 rfl
  refine ⟨perm.nodup_iff.mpr (List.nodup_cons.mpr ⟨apart, h.once⟩), fun k => ?_, alive, ended⟩
  refine (perm.mem_iff.trans List.mem_cons).trans ?_
  rw [h.inside k]
  by_cases same : k = i
  · subst same
    simp [ThreadPool.setWorker, lt]
  · simp [ThreadPool.setWorker, same, List.getElem?_set_ne (Ne.symm same)]

variable [DecidableEq A]

theorem WaitsBut.take {chosen : Option A} (h : WaitsBut p (some i))
    (there : p.threads_[i]? = some w) (runs : w ≠ .ended) (ht : p.take i chosen = .ok r) :
    Waits r := by
  obtain ⟨_, rfl | rfl⟩ | ⟨t, rest, cv, _, _, rfl⟩ := take_cases ht
  · exact h.sleeps there runs
  · exact h.setWorker there runs (by simp) (by simp)
  · have same : WaitsBut { p with b_queue_ := rest, cond_notFull_ := cv } (some i) :=
      ⟨h.once, h.inside, h.alive, h.ended⟩
    exact same.setWorker there runs (by simp) (by simp)

end SetWorker

theorem Waits.addTask [DecidableEq A] {t : A} {chosen : Option ℕ} (h : Waits p)
    (ha : p.addTask t chosen = .ok r) : Waits r := by
  obtain ⟨_, rfl⟩ | ⟨_, cv, signalled, rfl⟩ := addTask_cases ha
  · exact ⟨h.once, h.inside, h.alive, h.ended⟩
  · have same := h.of_perm (CondVar.threads_notify signalled)
    exact ⟨same.once, same.inside, same.alive, same.ended⟩

theorem Waits.empty (h : Waits p) (none : ∀ w ∈ p.threads_, w ≠ .waiting) :
    p.cond_notEmpty_.threads = [] := by
  refine List.eq_nil_iff_forall_not_mem.mpr fun k mem => ?_
  exact none _ (List.mem_of_getElem? ((h.inside_iff k).mp mem)) rfl

variable [DecidableEq A]

theorem Waits.step {op : Op A} (h : Waits p) (hs : p.step op = .ok r) : Waits r := by
  cases op with
  | start q n =>
    obtain ⟨outside, none, rfl⟩ := start_cases hs
    have nobody := h.empty (by rw [none]; exact List.forall_mem_nil _)
    refine ⟨h.once, fun k => ?_, fun _ w mem => ?_, by simp [outside]⟩
    · simp [nobody, List.getElem?_replicate]
    · simp [List.eq_of_mem_replicate mem]
  | stop =>
    obtain rfl | rfl := stop_cases hs
    · exact h
    · have same := h.of_perm (CondVar.threads_notifyAll p.cond_notEmpty_)
      exact ⟨same.once, same.inside, by simp, by simp⟩
  | joined =>
    obtain ⟨⟨_, ended⟩, rfl⟩ := guarded_ok.mp hs
    exact ⟨h.once, h.inside, h.alive, fun _ => ended⟩
  | discard =>
    obtain ⟨_, rfl⟩ := guarded_ok.mp hs
    exact ⟨h.once, h.inside, h.alive, h.ended⟩
  | discarded =>
    obtain ⟨⟨discarding, _⟩, rfl⟩ := guarded_ok.mp hs
    exact ⟨h.once, h.inside, h.alive, fun _ => h.ended (.inl discarding)⟩
  | stopReturn =>
    obtain ⟨clearing, rfl⟩ := guarded_ok.mp hs
    have nobody := h.empty fun w mem => by simp [h.ended (.inr clearing) w mem]
    refine ⟨h.once, fun k => ?_, fun _ => List.forall_mem_nil _, fun _ => List.forall_mem_nil _⟩
    simp [nobody]
  | test i =>
    obtain ⟨there, rfl⟩ := guarded_ok.mp hs
    refine (h.but there (by simp)).setWorker there (by simp) (fun started => ?_) ?_
    · simp [started]
    · split <;> simp
  | take i chosen =>
    obtain ⟨there, ht⟩ := step_take_cases hs
    exact (h.but there (by simp)).take there (by simp) ht
  | spuriousTake i =>
    obtain ⟨cv, roused, rfl⟩ := offered_cases hs
    exact h.of_perm (CondVar.threads_rouse roused)
  | resumeTake i chosen =>
    obtain ⟨cv, there, back, ht⟩ := resumeTake_cases hs
    exact (h.resume back).take there (by simp) ht
  | finish i =>
    obtain ⟨t, there, rfl⟩ := finish_cases hs
    exact (h.but there (by simp)).setWorker there (by simp) (by simp) (by simp)
  | addTask t chosen => exact h.addTask (step_addTask_cases hs).2
  | spuriousAdd t =>
    obtain ⟨cv, _, rfl⟩ := offered_cases hs
    exact ⟨h.once, h.inside, h.alive, h.ended⟩
  | resumeAdd t chosen =>
    obtain ⟨cv, _, hadd⟩ := resumeAdd_cases hs
    have same : Waits { p with cond_notFull_ := cv } := ⟨h.once, h.inside, h.alive, h.ended⟩
    exact same.addTask hadd

/-- With a task in the queue some worker can go on: if all are in the wait, the task was
signalled to one of them. -/
theorem Waits.ready (h : Waits p) (covered : p.cond_notEmpty_.Covers p.b_queue_.length)
    (started : p.is_start_ = true) (workers : p.threads_ ≠ []) (queued : p.b_queue_ ≠ []) :
    ∃ op : Op A, op.ofWorker ∧ ∃ q, p.step op = .ok q := by
  by_cases all : ∀ w ∈ p.threads_, w = .waiting
  · obtain ⟨i, there, cv, back⟩ : ∃ i, p.threads_[i]? = some .waiting ∧
        ∃ cv, p.cond_notEmpty_.resume i = some cv := by
      by_cases asleep : p.cond_notEmpty_.waiting = []
      · obtain ⟨w, mem⟩ := List.exists_mem_of_ne_nil _ workers
        obtain ⟨i, there⟩ := List.getElem?_of_mem mem
        rw [all w mem] at there
        refine ⟨i, there, CondVar.exists_resume ?_ (by rw [asleep]; exact List.not_mem_nil)⟩
        exact CondVar.mem_threads.mp ((h.inside_iff i).mpr there)
      · have enough := covered asleep
        have tasks := List.length_pos_iff.mpr queued
        obtain ⟨i, signalled⟩ := List.exists_mem_of_length_pos (by omega :
          0 < p.cond_notEmpty_.signalled.length)
        refine ⟨i, (h.inside_iff i).mp (CondVar.mem_threads.mpr (.inr (.inl signalled))), ?_⟩
        exact ⟨_, by rw [CondVar.resume, if_pos signalled]⟩
    exact worker_enabled there (by simp) fun _ => ⟨cv, back⟩
  · push Not at all
    obtain ⟨w, mem, idle⟩ := all
    obtain ⟨i, there⟩ := List.getElem?_of_mem mem
    exact worker_enabled there (h.alive started w mem) fun waits => absurd waits idle

/-! ## What a step does for the tasks -/

namespace Journal

variable {j k : Journal A}

/-- A started pool stays so, nothing overtakes what is queued, and a step of a worker pays
unless it takes a task. -/
structure Serves (j k : Journal A) (op : Op A) : Prop where
  started : k.pool.is_start_ = true
  workers : k.pool.threads_.length = j.pool.threads_.length
  line : j.taken ++ j.pool.b_queue_ <+: k.taken ++ k.pool.b_queue_
  pays : k.pool.away + op.ofWorker.toNat + 3 * j.taken.length ≤
    j.pool.away + 3 * k.taken.length

omit [DecidableEq A] in
/-- A step that takes no task. -/
theorem Serves.still {op : Op A} {pool : ThreadPool A} {pushed finished : List A}
    (started : pool.is_start_ = true)
    (workers : pool.threads_.length = j.pool.threads_.length)
    (line : j.pool.b_queue_ <+: pool.b_queue_)
    (pays : pool.away + op.ofWorker.toNat ≤ j.pool.away) :
    Serves j { j with pool := pool, pushed := pushed, finished := finished } op :=
  ⟨started, workers, (List.prefix_append_right_inj _).mpr line, Nat.add_le_add_right pays _⟩

theorem serves_take {i : ℕ} {w : Worker A} {chosen : Option A} {cv : CondVar ℕ}
    {pool : ThreadPool A} {op : Op A} (started : j.pool.is_start_ = true)
    (queued : j.pool.b_queue_ ≠ []) (there : j.pool.threads_[i]? = some w) (near : w.away = 0)
    (own : op.ofWorker = true)
    (h : { j.pool with cond_notEmpty_ := cv }.take i chosen = .ok pool) :
    Serves j { j.leave .taken with pool := pool } op := by
  obtain ⟨empty, _⟩ | ⟨t, rest, full, items, _, rfl⟩ := take_cases h
  · exact absurd empty queued
  simp only at items
  have taken : Journal.taken (j.leave .taken) = j.taken ++ [t] := by
    simp [leave, Journal.taken, items]
  have moved := sum_setWorker there (.run t) Worker.away
  refine ⟨started, by simp [ThreadPool.setWorker], ?_, ?_⟩
  · change j.taken ++ j.pool.b_queue_ <+: Journal.taken (j.leave .taken) ++ rest
    rw [taken, items, List.append_assoc]
    exact List.prefix_rfl
  · change (j.pool.setWorker i (.run t)).away + _ + _ ≤
      _ + 3 * (Journal.taken (j.leave .taken)).length
    rw [taken, List.length_append, own, ThreadPool.away, ThreadPool.away]
    rw [near, show (Worker.run t).away = 2 from rfl] at moved
    simp only [Bool.toNat_true, List.length_singleton]
    omega

omit [DecidableEq A] in
theorem serves_addTask {t : A} {chosen : Option ℕ} {cv : CondVar A} {pool : ThreadPool A}
    {op : Op A} (started : j.pool.is_start_ = true) (other : op.ofWorker = false)
    (h : { j.pool with cond_notFull_ := cv }.addTask t chosen = .ok pool) :
    Serves j { (if j.pool.b_queue_.length < j.pool.size_queue_
      then { j with pushed := j.pushed ++ [t] } else j) with pool := pool } op := by
  have pays : j.pool.away + op.ofWorker.toNat ≤ j.pool.away := by
    rw [other]
    exact Nat.le_refl _
  obtain ⟨full, rfl⟩ | ⟨free, _, _, rfl⟩ := addTask_cases h
  · rw [if_neg (Nat.not_lt.mpr full)]
    exact .still started rfl List.prefix_rfl pays
  · rw [if_pos free]
    exact .still started rfl (List.prefix_append _ _) pays

omit [DecidableEq A] in
/-- A step of a worker that does not come to `take`. -/
theorem serves_setWorker {i : ℕ} {w v : Worker A} {finished : List A} {op : Op A}
    (started : j.pool.is_start_ = true) (there : j.pool.threads_[i]? = some w)
    (nearer : v.away + 1 = w.away) :
    Serves j { j with pool := j.pool.setWorker i v, finished := finished } op := by
  have moved := sum_setWorker there v Worker.away
  refine .still started (by simp [ThreadPool.setWorker]) List.prefix_rfl ?_
  have once : op.ofWorker.toNat ≤ 1 := Bool.toNat_le _
  rw [ThreadPool.away, ThreadPool.away]
  omega

theorem serves_step {op : Op A} (started : j.pool.is_start_ = true)
    (queued : j.pool.b_queue_ ≠ []) (running : op.Running) (h : j.step op = .ok k) :
    Serves j k op := by
  simp only [Journal.step] at h
  split at h
  · cases h
  obtain ⟨pool, hstep, rfl⟩ := map_cases h
  cases op with
  | test i =>
    obtain ⟨there, rfl⟩ := guarded_ok.mp hstep
    rw [started]
    exact serves_setWorker started there rfl
  | take i chosen =>
    obtain ⟨there, htake⟩ := step_take_cases hstep
    exact serves_take started queued there rfl rfl htake
  | spuriousTake i =>
    obtain ⟨cv, _, rfl⟩ := offered_cases hstep
    exact .still started rfl List.prefix_rfl (Nat.le_refl _)
  | resumeTake i chosen =>
    obtain ⟨cv, there, _, htake⟩ := resumeTake_cases hstep
    exact serves_take started queued there rfl rfl htake
  | finish i =>
    obtain ⟨t, there, rfl⟩ := finish_cases hstep
    exact serves_setWorker started there rfl
  | addTask t chosen => exact serves_addTask started rfl (step_addTask_cases hstep).2
  | spuriousAdd t =>
    obtain ⟨cv, _, rfl⟩ := offered_cases hstep
    exact .still started rfl List.prefix_rfl (Nat.le_refl _)
  | resumeAdd t chosen =>
    obtain ⟨cv, _, hadd⟩ := resumeAdd_cases hstep
    exact serves_addTask started rfl hadd
  | _ => exact running.elim

theorem taken_step {op : Op A} (h : j.step op = .ok k) : j.taken <+: k.taken := by
  have left : ∀ fate, j.taken <+: Journal.taken (j.leave fate) := fun fate => by
    simp only [leave, Journal.taken, List.filter_append, List.map_append]
    exact List.prefix_append _ _
  simp only [Journal.step] at h
  split at h
  · cases h
  obtain ⟨pool, _, rfl⟩ := map_cases h
  change j.taken <+: Journal.taken (j.record op)
  cases op with
  | discard => exact left .discarded
  | take i chosen => exact left .taken
  | resumeTake i chosen => exact left .taken
  | addTask t chosen =>
    simp only [record]
    split <;> exact List.prefix_rfl
  | resumeAdd t chosen =>
    simp only [record]
    split <;> exact List.prefix_rfl
  | _ => exact List.prefix_rfl

/-- A started pool of `n` workers that has not taken all of `goal` yet. -/
structure Serving (goal : List A) (n : ℕ) (j : Journal A) : Prop where
  started : j.pool.is_start_ = true
  workers : j.pool.threads_.length = n
  line : goal <+: j.taken ++ j.pool.b_queue_
  short : j.taken.length < goal.length

/-- What the workers can still do before `goal` is taken. -/
def toServe (goal : List A) (j : Journal A) : ℕ :=
  3 * (goal.length - j.taken.length) + j.pool.away

omit [DecidableEq A] in
theorem Serving.queued {goal : List A} {n : ℕ} (h : Serving goal n j) : j.pool.b_queue_ ≠ [] := by
  intro empty
  have line := h.line
  rw [empty, List.append_nil] at line
  exact absurd h.short (Nat.not_lt.mpr line.length_le)

theorem Serving.step {goal : List A} {n : ℕ} {op : Op A} (h : Serving goal n j)
    (running : op.Running) (hs : j.step op = .ok k) :
    goal <+: k.taken ∨
      Serving goal n k ∧ toServe goal k + op.ofWorker.toNat ≤ toServe goal j := by
  obtain ⟨started, workers, line, pays⟩ := serves_step h.started h.queued running hs
  have line := h.line.trans line
  by_cases short : k.taken.length < goal.length
  · refine .inr ⟨⟨started, workers.trans h.workers, line, short⟩, ?_⟩
    rw [toServe, toServe]
    omega
  · left
    exact List.prefix_of_prefix_length_le line (List.prefix_append _ _) (Nat.not_lt.mp short)

/-! ## Every run -/

theorem pool_reaches (h : Reaches step j k) : Reaches ThreadPool.step j.pool k.pool := by
  obtain ⟨labels, h⟩ := h
  refine run_relates (R := fun j k : Journal A => Reaches ThreadPool.step j.pool k.pool)
    (fun j => .refl _) (fun first later => first.trans later) (fun j op k _ hs => ?_) h
  simp only [Journal.step] at hs
  split at hs
  · cases hs
  obtain ⟨pool, hstep, rfl⟩ := map_cases hs
  exact .one op hstep

/-- What the pool offers a worker, the journal does. -/
theorem step_of_worker {op : Op A} (own : op.ofWorker = true) {q : ThreadPool A}
    (h : j.pool.step op = .ok q) : ∃ k, j.step op = .ok k := by
  have here : ¬ j.Over op := by
    cases op with
    | addTask t chosen => cases own
    | _ => exact id
  refine ⟨{ j.record op with pool := q }, ?_⟩
  rw [Journal.step, if_neg here, h]
  rfl

theorem Serving.ready {goal : List A} {n : ℕ} (h : Serving goal n j) (workers : 0 < n)
    (reached : Reaches Journal.step new j) :
    ∃ op : Op A, op.ofWorker ∧ ∃ k, j.step op = .ok k := by
  have pool := pool_reaches reached
  have waits : Waits j.pool := pool.keeps (fun _ _ _ => Waits.step) new_waits
  have covered : j.pool.cond_notEmpty_.Covers j.pool.b_queue_.length :=
    pool.keeps (fun _ _ _ => tasks_step) (CondVar.covers_new 0)
  have some : j.pool.threads_ ≠ [] := by
    rw [← List.length_pos_iff, h.workers]
    exact workers
  obtain ⟨op, own, q, next⟩ := waits.ready covered h.started some h.queued
  exact ⟨op, own, step_of_worker own next⟩

/-- While the pool is started every task that is queued is taken, and those before it first:
until then some worker can go on, and all of them together take at most so many steps. -/
theorem tasks_served {ahead behind : List A} {t : A} {labels : List (Op A)}
    (reached : Reaches step new j) (started : j.pool.is_start_ = true)
    (workers : j.pool.threads_ ≠ []) (queued : j.pool.b_queue_ = ahead ++ t :: behind)
    (running : ∀ op ∈ labels, op.Running) (h : run step j labels = .ok k) :
    j.taken ++ (ahead ++ [t]) <+: k.taken ∨
      labels.countP Op.ofWorker ≤ 3 * ahead.length + 2 * j.pool.threads_.length ∧
        ∃ op : Op A, op.ofWorker ∧ ∃ l, k.step op = .ok l := by
  have start : Serving (j.taken ++ (ahead ++ [t])) j.pool.threads_.length j := by
    refine ⟨started, rfl, ?_, by simp⟩
    rw [queued, List.prefix_append_right_inj]
    exact ⟨behind, by simp⟩
  have served := run_until (toServe (j.taken ++ (ahead ++ [t]))) Op.ofWorker
    (fun _ _ _ _ taken hs => taken.trans (taken_step hs))
    (fun _ op _ mem serving hs => serving.step (running op mem) hs) start h
  refine served.imp_right fun ⟨serving, paid⟩ => ⟨?_, ?_⟩
  · have short := serving.short
    have away : j.pool.away ≤ 2 * j.pool.threads_.length :=
      sum_le (fun w => by cases w <;> simp [Worker.away]) j.pool
    simp only [toServe, List.length_append, List.length_singleton] at paid short
    omega
  · exact serving.ready (List.length_pos_iff.mpr workers) (reached.trans ⟨labels, h⟩)

/-- A worker sleeps and is signalled for the first of three tasks; the other one gets there
before it. -/
def threeQueued : List (Op ℕ) :=
  [.start 3 2, .test 0, .take 0 none, .addTask 1 (some 0), .addTask 2 none, .addTask 3 none]

def secondWaits : List (Op ℕ) :=
  [.test 1, .take 1 none, .addTask 4 none, .addTask 5 none, .finish 1]

theorem tasks_served_secondWaits : ∃ j k : Journal ℕ,
    run step new threeQueued = .ok j ∧ run step j secondWaits = .ok k ∧ k.taken = [1] ∧
      (j.taken ++ ([1] ++ [2]) <+: k.taken ∨
        3 ≤ 3 * 1 + 2 * j.pool.threads_.length ∧
          ∃ op : Op ℕ, op.ofWorker ∧ ∃ l, k.step op = .ok l) := by
  obtain ⟨j, hj, here⟩ := ok_of_any (o := run step new threeQueued)
    (p := fun j => decide (j.pool.is_start_ = true ∧ j.pool.threads_ ≠ [] ∧
      j.pool.b_queue_ = [1] ++ 2 :: [3]) &&
        (run step j secondWaits).toOption.any (fun k => k.taken = [1])) (by decide)
  simp only [Bool.and_eq_true, decide_eq_true_eq] at here
  obtain ⟨⟨started, workers, queued⟩, later⟩ := here
  obtain ⟨k, hk, taken⟩ := ok_of_any later
  refine ⟨j, k, hj, hk, of_decide_eq_true taken, ?_⟩
  exact tasks_served ⟨threeQueued, hj⟩ started workers queued (by simp [secondWaits, Op.Running]) hk

end Journal

end ThreadPool

end ZDQ
