import ThreadAndNet.Machine
import ThreadAndNet.ThreadPool

/-!
# The tasks of the thread pool

The journal follows every task from its push to its end. `addTask` never asks whether the
pool is being stopped, so a task can still come in behind the loop of `stop` that empties
the queue, and the next cycle finds it there.
-/

namespace ZDQ

open Machine

/-- The task a worker holds. -/
def Worker.tasks {A : Type*} : Worker A → List A
  | .run task => [task]
  | _ => []

namespace ThreadPool

variable {A : Type*}

/-- What the workers have taken and not finished. -/
def held (p : ThreadPool A) : List A := p.threads_.flatMap Worker.tasks

theorem held_setWorker {p : ThreadPool A} {i : Nat} {w : Worker A}
    (at_i : p.threads_[i]? = some w) (v : Worker A) :
    ∃ pre post, p.held = pre ++ (w.tasks ++ post) ∧
      (p.setWorker i v).held = pre ++ (v.tasks ++ post) := by
  obtain ⟨inside, is_w⟩ := List.getElem?_eq_some_iff.mp at_i
  obtain ⟨pre, post, all, _, set⟩ := @List.exists_of_set _ i v p.threads_ inside
  rw [is_w] at all
  refine ⟨pre.flatMap Worker.tasks, post.flatMap Worker.tasks, ?_, ?_⟩
  · rw [held, all]
    simp
  · rw [held, setWorker, set]
    simp

/-- How a task left the queue. -/
inductive Fate where
  | taken
  | discarded
deriving DecidableEq

structure Journal (A : Type*) where
  pool : ThreadPool A
  /-- the tasks pushed, the oldest first -/
  pushed : List A
  /-- the tasks that have left the queue, in this order -/
  gone : List (A × Fate)
  finished : List A
  /-- the tasks pushed before the last return of `stop` -/
  past : List A

namespace Journal

def new : Journal A := ⟨.new, [], [], [], []⟩

def taken (j : Journal A) : List A := (j.gone.filter (fun g => g.2 = .taken)).map Prod.fst

def discarded (j : Journal A) : List A :=
  (j.gone.filter (fun g => g.2 = .discarded)).map Prod.fst

/-- The head of the queue leaves it. -/
def leave (j : Journal A) (fate : Fate) : Journal A :=
  { j with gone := j.gone ++ (j.pool.b_queue_.take 1).map (fun t => (t, fate)) }

/-- What a step that the pool offers adds to the journal. -/
def record (j : Journal A) : Op A → Journal A
  | .discard => j.leave .discarded
  | .take _ _ | .resumeTake _ _ => j.leave .taken
  | .finish i =>
    { j with finished := j.finished ++ (j.pool.threads_[i]?.toList.flatMap Worker.tasks) }
  | .addTask t _ | .resumeAdd t _ =>
    if j.pool.b_queue_.length < j.pool.size_queue_ then { j with pushed := j.pushed ++ [t] }
    else j
  | .stopReturn => { j with past := j.pushed }
  | _ => j

variable [DecidableEq A]

/-- A call of `addTask` that has pushed its task is over. -/
def Over (j : Journal A) : Op A → Prop
  | .addTask t _ => t ∈ j.pushed
  | _ => False

instance (j : Journal A) (op : Op A) : Decidable (j.Over op) := by
  cases op <;> simp only [Over] <;> infer_instance

def step (j : Journal A) (op : Op A) : Except Failure (Journal A) :=
  if j.Over op then .error .disabled
  else (j.pool.step op).map (fun pool => { j.record op with pool := pool })

/-- All that is said of the tasks: the queue keeps to its size, tasks leave it as they came,
each is in exactly one place, and no worker holds one of an earlier cycle. -/
structure Accounted (j : Journal A) : Prop where
  bounded : j.pool.b_queue_.length ≤ j.pool.size_queue_
  order : j.gone.map Prod.fst ++ j.pool.b_queue_ = j.pushed
  once : j.taken.Nodup
  placed : (j.pool.b_queue_ ++ j.pool.held ++ j.finished ++ j.discarded).Perm j.pushed
  distinct : j.pushed.Nodup
  settled : ∀ t ∈ j.past, t ∉ j.pool.held

/-- `start` finds no more tasks than it has places for, and `stop` returns with the queue
empty. -/
def Emptied (j : Journal A) : Op A → Prop
  | .start size_queue _ => j.pool.b_queue_.length ≤ size_queue
  | .stopReturn => j.pool.b_queue_ = []
  | _ => True

/-! ## The invariant -/

structure Inv (j : Journal A) : Prop where
  bounded : j.pool.b_queue_.length ≤ j.pool.size_queue_
  order : j.gone.map Prod.fst ++ j.pool.b_queue_ = j.pushed
  kept : j.taken.Perm (j.pool.held ++ j.finished)
  /-- a call either waits or has pushed its task -/
  distinct : (j.pool.cond_notFull_.threads ++ j.pushed).Nodup
  settled : ∀ t ∈ j.past, t ∈ j.finished ++ j.discarded
  ended : j.pool.phase = .discarding ∨ j.pool.phase = .clearing →
    ∀ w ∈ j.pool.threads_, w = .ended

section Consequences
variable {j : Journal A}

omit [DecidableEq A] in
theorem gone_perm (j : Journal A) : (j.taken ++ j.discarded).Perm (j.gone.map Prod.fst) := by
  have split := List.filter_append_perm (fun g : A × Fate => g.2 = .taken) j.gone
  have others : j.gone.filter (fun g => !decide (g.2 = .taken)) =
      j.gone.filter (fun g => g.2 = .discarded) := by
    apply List.filter_congr
    rintro ⟨t, fate⟩ _
    cases fate <;> rfl
  rw [others] at split
  simpa [taken, discarded] using split.map Prod.fst

omit [DecidableEq A] in
theorem Inv.placed (inv : Inv j) :
    (j.pool.b_queue_ ++ j.pool.held ++ j.finished ++ j.discarded).Perm j.pushed :=
  calc (j.pool.b_queue_ ++ j.pool.held ++ j.finished ++ j.discarded).Perm
        (j.pool.b_queue_ ++ (j.pool.held ++ j.finished ++ j.discarded)) := by
        rw [List.append_assoc, List.append_assoc, List.append_assoc]
    _ |>.Perm (j.pool.b_queue_ ++ (j.taken ++ j.discarded)) :=
        (inv.kept.symm.append_right j.discarded).append_left _
    _ |>.Perm (j.pool.b_queue_ ++ j.gone.map Prod.fst) := (gone_perm j).append_left _
    _ |>.Perm (j.gone.map Prod.fst ++ j.pool.b_queue_) := List.perm_append_comm
    _ |>.Perm j.pushed := by rw [inv.order]

omit [DecidableEq A] in
theorem Inv.accounted (inv : Inv j) : Accounted j := by
  have distinct : j.pushed.Nodup := (List.nodup_append.mp inv.distinct).2.1
  have places := inv.placed.nodup_iff.mpr distinct
  refine ⟨inv.bounded, inv.order, ?_, inv.placed, distinct, ?_⟩
  · rw [← inv.order] at distinct
    have left := (gone_perm j).nodup_iff.mpr (List.nodup_append.mp distinct).1
    exact (List.nodup_append.mp left).1
  · intro t old holds
    simp only [List.append_assoc] at places
    have apart := (List.nodup_append.mp (List.nodup_append.mp places).2.1).2.2
    exact apart t holds t (inv.settled t old) rfl

end Consequences

section Steps
variable {j k : Journal A}

omit [DecidableEq A]

/-- Steps that no task takes part in. -/
theorem Inv.still (inv : Inv j) {pool : ThreadPool A}
    (bounded : pool.b_queue_.length ≤ pool.size_queue_)
    (queue : pool.b_queue_ = j.pool.b_queue_) (held : pool.held = j.pool.held)
    (calls : pool.cond_notFull_.threads.Perm j.pool.cond_notFull_.threads)
    (ended : pool.phase = .discarding ∨ pool.phase = .clearing →
      ∀ w ∈ pool.threads_, w = .ended) : Inv { j with pool := pool } := by
  refine ⟨bounded, ?_, ?_, ?_, inv.settled, ended⟩
  · rw [queue]
    exact inv.order
  · rw [held]
    exact inv.kept
  · exact (calls.append_right j.pushed).nodup_iff.mpr inv.distinct

/-- While a thread of the pool is alive, `stop` is not past its joins. -/
theorem Inv.alive (inv : Inv j) {i : Nat} {w : Worker A}
    (at_i : j.pool.threads_[i]? = some w) (alive : w ≠ .ended) :
    ¬ (j.pool.phase = .discarding ∨ j.pool.phase = .clearing) :=
  fun late => alive (inv.ended late w (List.mem_of_getElem? at_i))

theorem Inv.setWorker (inv : Inv j) {i : Nat} {w v : Worker A}
    (at_i : j.pool.threads_[i]? = some w) (alive : w ≠ .ended) (idle : w.tasks = [])
    (idle' : v.tasks = []) : Inv { j with pool := j.pool.setWorker i v } := by
  obtain ⟨pre, post, before, after⟩ := held_setWorker at_i v
  refine inv.still inv.bounded rfl ?_ (.refl _) (fun late => absurd late (inv.alive at_i alive))
  rw [before, after, idle, idle']

theorem Inv.joined (inv : Inv j) (ended : ∀ w ∈ j.pool.threads_, w = .ended)
    (phase : StopPhase) : Inv { j with pool := { j.pool with phase := phase } } :=
  inv.still inv.bounded rfl rfl (.refl _) (fun _ => ended)

theorem Inv.discard (inv : Inv j) {t : A} {rest : List A} (items : j.pool.b_queue_ = t :: rest) :
    Inv { j.leave .discarded with pool := { j.pool with b_queue_ := rest } } := by
  have bounded := inv.bounded
  have order := inv.order
  rw [items] at bounded order
  refine ⟨?_, ?_, ?_, inv.distinct, ?_, inv.ended⟩
  · simp only [List.length_cons] at bounded
    exact Nat.le_of_succ_le bounded
  · simpa [leave, items] using order
  · simpa [leave, taken, held, items] using inv.kept
  · intro x old
    have before := inv.settled x old
    simp only [leave, discarded, items, List.mem_append] at before ⊢
    simp only [List.filter_append, List.map_append, List.mem_append]
    tauto

theorem held_ended {p : ThreadPool A} (ended : ∀ w ∈ p.threads_, w = .ended) : p.held = [] := by
  refine List.flatMap_eq_nil_iff.mpr fun w mem => ?_
  rw [ended w mem]
  rfl

/-- When `stop` returns, every task that was not discarded is finished. -/
theorem Inv.stopReturn (inv : Inv j) (late : j.pool.phase = .clearing)
    (empty : j.pool.b_queue_ = []) :
    Inv { j with pool := { j.pool with threads_ := [], phase := .outside }, past := j.pushed } := by
  have none := held_ended (inv.ended (.inr late))
  have placed := inv.placed
  have kept := inv.kept
  rw [empty, none] at placed
  rw [none] at kept
  refine ⟨inv.bounded, inv.order, kept, inv.distinct, ?_, by simp⟩
  intro t old
  exact placed.mem_iff.mpr old

/-- A round of `take` after the signal `cv` has been dealt with. -/
theorem Inv.take [DecidableEq A] (inv : Inv j) {i : Nat} {w : Worker A} {chosen : Option A}
    {cv : CondVar Nat} {pool : ThreadPool A} (at_i : j.pool.threads_[i]? = some w)
    (alive : w ≠ .ended) (idle : w.tasks = [])
    (h : { j.pool with cond_notEmpty_ := cv }.take i chosen = .ok pool) :
    Inv { j.leave .taken with pool := pool } := by
  obtain ⟨empty, waits⟩ | ⟨t, rest, full, items, signalled, rfl⟩ := take_cases h
  · have same : j.leave .taken = j := by
      simp only [leave]
      rw [empty]
      simp
    rw [same]
    have late := inv.alive at_i alive
    obtain rfl | rfl := waits
    · obtain ⟨pre, post, before, after⟩ := held_setWorker at_i .waiting
      refine inv.still inv.bounded rfl ?_ (.refl _) (fun past => absurd past late)
      rw [before, idle]
      exact after
    · obtain ⟨pre, post, before, after⟩ := held_setWorker at_i .test
      refine inv.still inv.bounded rfl ?_ (.refl _) (fun past => absurd past late)
      rw [before, idle]
      exact after
  · obtain ⟨pre, post, before, after⟩ := held_setWorker at_i (.run t)
    have bounded := inv.bounded
    have order := inv.order
    have kept := inv.kept
    simp only at items
    rw [items] at bounded order
    rw [before, idle] at kept
    refine ⟨?_, ?_, ?_, ?_, ?_, fun past => absurd past (inv.alive at_i alive)⟩
    · simp only [List.length_cons] at bounded
      exact Nat.le_of_succ_le bounded
    · simpa [leave, ThreadPool.setWorker, items] using order
    · change (taken (j.leave .taken)).Perm (held (j.pool.setWorker i (.run t)) ++ j.finished)
      rw [after]
      refine List.perm_iff_count.mpr fun a => ?_
      have count := kept.count_eq a
      simp only [taken, List.nil_append, List.count_append] at count
      simp [leave, taken, items, Worker.tasks, List.count_append, List.count_cons, count]
      omega
    · exact ((CondVar.threads_notify signalled).append_right j.pushed).nodup_iff.mpr inv.distinct
    · intro x old
      simpa [leave, discarded, items] using inv.settled x old

theorem Inv.finish [DecidableEq A] (inv : Inv j) {i : Nat} {t : A}
    (runs : j.pool.threads_[i]? = some (.run t)) :
    Inv { j with pool := j.pool.setWorker i .test, finished := j.finished ++ [t] } := by
  obtain ⟨pre, post, before, after⟩ := held_setWorker runs .test
  have kept := inv.kept
  rw [before] at kept
  refine ⟨inv.bounded, inv.order, ?_, inv.distinct, ?_,
    fun late => absurd late (inv.alive runs (by simp))⟩
  · rw [after]
    refine List.perm_iff_count.mpr fun a => ?_
    have count := kept.count_eq a
    simp only [taken, Worker.tasks, List.count_append] at count
    simp only [taken, Worker.tasks, List.count_append, count, List.count_nil]
    omega
  · intro x old
    have before := inv.settled x old
    simp only [List.mem_append] at before ⊢
    exact before.imp_left .inl

/-- A round of `addTask` of a call that neither waits nor has pushed its task yet. -/
theorem Inv.addTask [DecidableEq A] (inv : Inv j) {t : A} {chosen : Option Nat} {cv : CondVar A}
    {pool : ThreadPool A} (fresh : (t :: (cv.threads ++ j.pushed)).Nodup)
    (h : { j.pool with cond_notFull_ := cv }.addTask t chosen = .ok pool) :
    Inv { (if j.pool.b_queue_.length < j.pool.size_queue_
      then { j with pushed := j.pushed ++ [t] } else j) with pool := pool } := by
  obtain ⟨full, rfl⟩ | ⟨free, empty, _, rfl⟩ := addTask_cases h
  · rw [if_neg (Nat.not_lt.mpr full)]
    refine ⟨inv.bounded, inv.order, inv.kept, ?_, inv.settled, inv.ended⟩
    exact ((CondVar.threads_wait cv t).append_right j.pushed).nodup_iff.mpr fresh
  · rw [if_pos free]
    refine ⟨?_, ?_, inv.kept, ?_, inv.settled, inv.ended⟩
    · simp only [List.length_append, List.length_singleton]
      exact free
    · simp only [← List.append_assoc, inv.order]
    · have moved : (t :: (cv.threads ++ j.pushed)).Perm (cv.threads ++ (j.pushed ++ [t])) := by
        rw [← List.append_assoc]
        exact (List.perm_append_singleton t _).symm
      exact moved.nodup_iff.mp fresh

theorem Inv.step [DecidableEq A] (inv : Inv j) {op : Op A} (emptied : j.Emptied op)
    (h : j.step op = .ok k) : Inv k := by
  simp only [Journal.step] at h
  split at h
  · cases h
  rename_i fresh
  obtain ⟨pool, hstep, rfl⟩ := map_cases h
  cases op with
  | start q n =>
    obtain ⟨outside, none, rfl⟩ := start_cases hstep
    refine inv.still emptied rfl ?_ (.refl _) ?_
    · simp [held, none, Worker.tasks]
    · simp [outside]
  | stop =>
    obtain rfl | rfl := stop_cases hstep
    · exact inv
    · exact inv.still inv.bounded rfl rfl (.refl _) (by simp)
  | joined =>
    obtain ⟨⟨_, ended⟩, rfl⟩ := guarded_ok.mp hstep
    exact inv.joined ended .discarding
  | discard =>
    obtain ⟨⟨late, some⟩, rfl⟩ := guarded_ok.mp hstep
    obtain ⟨t, rest, items⟩ := List.exists_cons_of_ne_nil some
    simp only [items, List.tail_cons]
    exact inv.discard items
  | discarded =>
    obtain ⟨⟨late, _⟩, rfl⟩ := guarded_ok.mp hstep
    exact inv.joined (inv.ended (.inl late)) .clearing
  | stopReturn =>
    obtain ⟨late, rfl⟩ := guarded_ok.mp hstep
    exact inv.stopReturn late emptied
  | test i =>
    obtain ⟨at_i, rfl⟩ := guarded_ok.mp hstep
    apply inv.setWorker at_i (by simp) rfl
    split <;> rfl
  | take i chosen =>
    obtain ⟨at_i, htake⟩ := step_take_cases hstep
    exact inv.take at_i (by simp) rfl htake
  | spuriousTake i =>
    obtain ⟨cv, _, rfl⟩ := offered_cases hstep
    exact inv.still inv.bounded rfl rfl (.refl _) inv.ended
  | resumeTake i chosen =>
    obtain ⟨cv, at_i, _, htake⟩ := resumeTake_cases hstep
    exact inv.take at_i (by simp) rfl htake
  | finish i =>
    obtain ⟨t, runs, rfl⟩ := finish_cases hstep
    simp only [record, runs]
    exact inv.finish runs
  | addTask t chosen =>
    obtain ⟨outside, hadd⟩ := step_addTask_cases hstep
    refine inv.addTask ?_ hadd
    refine List.nodup_cons.mpr ⟨?_, inv.distinct⟩
    rw [List.mem_append, CondVar.mem_threads]
    exact fun h => h.elim outside fresh
  | spuriousAdd t =>
    obtain ⟨cv, roused, rfl⟩ := offered_cases hstep
    exact inv.still inv.bounded rfl rfl (CondVar.threads_rouse roused) inv.ended
  | resumeAdd t chosen =>
    obtain ⟨cv, back, hadd⟩ := resumeAdd_cases hstep
    refine inv.addTask ?_ hadd
    exact ((CondVar.threads_resume back).append_right j.pushed).nodup_iff.mp inv.distinct

end Steps

/-- In every run in which `start` finds room for what is queued and `stop` leaves nothing
queued, all of it holds in every state. -/
theorem accounted_of_emptied {j : Journal A}
    (reached : ReachesBy step Emptied new j) : Accounted j := by
  apply Inv.accounted
  apply reached.keeps (fun _ _ _ inv emptied h => inv.step emptied h)
  exact ⟨Nat.le_refl 0, rfl, .refl _, List.nodup_nil, nofun, nofun⟩

/-- Two producers fill the queue; the worker takes and runs one task, the pool is stopped
and discards the other. -/
def emptied : List (Op Nat) :=
  [.start 2 1, .addTask 7 none, .addTask 8 none, .test 0, .take 0 none, .stop, .finish 0,
    .test 0, .joined, .discard, .discarded, .stopReturn]

theorem accounted_of_emptied_once :
    ∃ j, run step (new : Journal Nat) emptied = .ok j ∧
      j.finished = [7] ∧ j.discarded = [8] ∧ Accounted j := by
  refine ⟨_, rfl, rfl, rfl, ?_⟩
  apply accounted_of_emptied
  refine ⟨emptied, ?_, rfl⟩
  exact ⟨Nat.zero_le 2, trivial, trivial, trivial, trivial, trivial, trivial, trivial, trivial,
    trivial, trivial, rfl, trivial⟩

/-- `stop` has emptied the queue and not returned yet when two producers push. -/
def leftover : List (Op Nat) :=
  [.start 2 1, .stop, .test 0, .joined, .discarded, .addTask 7 none, .addTask 8 none,
    .stopReturn, .start 1 1]

/-- The next cycle starts with more tasks than its queue holds, and its worker runs one
that was pushed before `stop` returned. -/
theorem leftover_not_accounted :
    (∃ j, run step (new : Journal Nat) leftover = .ok j ∧
      j.pool.size_queue_ = 1 ∧ j.pool.b_queue_ = [7, 8] ∧ ¬ Accounted j) ∧
    ∃ j, run step (new : Journal Nat) (leftover ++ [.test 0, .take 0 none]) = .ok j ∧
      j.past = [7, 8] ∧ j.pool.held = [7] ∧ ¬ Accounted j := by
  refine ⟨⟨_, rfl, rfl, rfl, ?_⟩, _, rfl, rfl, rfl, ?_⟩
  · intro accounted
    exact absurd accounted.bounded (by decide)
  · intro accounted
    exact accounted.settled 7 (by decide) (by decide)

end Journal

end ThreadPool

end ZDQ
