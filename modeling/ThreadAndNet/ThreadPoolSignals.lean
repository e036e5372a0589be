import ThreadAndNet.Machine
import ThreadAndNet.ThreadPool

/-!
# The signals of the thread pool

One signal for one task, one for one place that a worker makes free: that is enough as
long as nothing else makes tasks or places. The loop in `stop` and a `start` with a larger
queue make places and signal nobody.
-/

namespace ZDQ

open Machine

namespace ThreadPool

variable {A : Type*} [DecidableEq A] {p r s : ThreadPool A}

/-! ## Sleeping workers -/

theorem tasks_take {i : Nat} {chosen : Option A}
    (covered : p.cond_notEmpty_.Covers (p.b_queue_.length - 1))
    (h : p.take i chosen = .ok r) : r.cond_notEmpty_.Covers r.b_queue_.length := by
  obtain ⟨empty, rfl | rfl⟩ | ⟨t, rest, cv, items, _, rfl⟩ := take_cases h
  · simp only [setWorker, empty, List.length_nil]
    exact CondVar.covers_wait _ i
  · simp only [setWorker, empty, List.length_nil]
    exact CondVar.covers_zero _
  · rw [items] at covered
    exact covered

omit [DecidableEq A] in
theorem tasks_addTask {t : A} {chosen : Option Nat}
    (covered : p.cond_notEmpty_.Covers p.b_queue_.length) (h : p.addTask t chosen = .ok r) :
    r.cond_notEmpty_.Covers r.b_queue_.length := by
  obtain ⟨_, rfl⟩ | ⟨_, cv, signalled, rfl⟩ := addTask_cases h
  · exact covered
  · simp only [List.length_append, List.length_singleton]
    exact covered.notify signalled

/-- Whatever happens, there are enough workers on the way to the tasks. -/
theorem tasks_step {op : Op A} (covered : p.cond_notEmpty_.Covers p.b_queue_.length)
    (h : p.step op = .ok r) : r.cond_notEmpty_.Covers r.b_queue_.length := by
  cases op with
  | start q n =>
    obtain ⟨_, _, rfl⟩ := start_cases h
    exact covered
  | stop =>
    obtain rfl | rfl := stop_cases h
    · exact covered
    · exact CondVar.covers_notifyAll _ _
  | discard =>
    obtain ⟨_, rfl⟩ := guarded_ok.mp h
    apply covered.mono
    simp only [List.length_tail]
    omega
  | take i chosen => exact tasks_take (covered.mono (Nat.sub_le _ 1)) (step_take_cases h).2
  | spuriousTake i =>
    obtain ⟨cv, roused, rfl⟩ := offered_cases h
    exact covered.rouse roused
  | resumeTake i chosen =>
    obtain ⟨cv, _, back, htake⟩ := resumeTake_cases h
    apply tasks_take _ htake
    exact covered.resume back
  | addTask t chosen => exact tasks_addTask covered (step_addTask_cases h).2
  | spuriousAdd t =>
    obtain ⟨cv, _, rfl⟩ := offered_cases h
    exact covered
  | resumeAdd t chosen =>
    obtain ⟨cv, _, hadd⟩ := resumeAdd_cases h
    exact tasks_addTask (p := { p with cond_notFull_ := cv }) covered hadd
  | _ =>
    obtain ⟨_, queue, _, workers⟩ := step_still h trivial
    rw [queue, workers]
    exact covered

/-! ## Sleeping producers -/

def room (p : ThreadPool A) : Nat := p.size_queue_ - p.b_queue_.length

/-- Where `start` and `stop` make room, nobody sleeps on `cond_notFull_` or enough
producers are on their way already. -/
def Roomed (p : ThreadPool A) : Op A → Prop
  | .start size_queue _ => p.cond_notFull_.Covers (size_queue - p.b_queue_.length)
  | .discard => p.cond_notFull_.Covers (p.size_queue_ - (p.b_queue_.length - 1))
  | _ => True

theorem room_take {i : Nat} {chosen : Option A} (covered : p.cond_notFull_.Covers p.room)
    (h : p.take i chosen = .ok r) : r.cond_notFull_.Covers r.room := by
  obtain ⟨_, rfl | rfl⟩ | ⟨t, rest, cv, items, signalled, rfl⟩ := take_cases h
  · exact covered
  · exact covered
  · apply (covered.notify signalled).mono
    simp only [room, setWorker, items, List.length_cons]
    omega

omit [DecidableEq A] in
theorem room_addTask {t : A} {chosen : Option Nat}
    (covered : p.cond_notFull_.Covers (p.room - 1)) (h : p.addTask t chosen = .ok r) :
    r.cond_notFull_.Covers r.room := by
  obtain ⟨full, rfl⟩ | ⟨_, cv, _, rfl⟩ := addTask_cases h
  · apply (CondVar.covers_wait p.cond_notFull_ t).mono
    simp only [room]
    omega
  · apply covered.mono
    simp only [room, List.length_append, List.length_singleton]
    omega

theorem room_step {op : Op A} (covered : p.cond_notFull_.Covers p.room)
    (roomed : p.Roomed op) (h : p.step op = .ok r) : r.cond_notFull_.Covers r.room := by
  cases op with
  | start q n =>
    obtain ⟨_, _, rfl⟩ := start_cases h
    exact roomed
  | stop =>
    obtain rfl | rfl := stop_cases h
    · exact covered
    · exact covered
  | discard =>
    obtain ⟨_, rfl⟩ := guarded_ok.mp h
    rw [room, List.length_tail]
    exact roomed
  | take i chosen => exact room_take covered (step_take_cases h).2
  | spuriousTake i =>
    obtain ⟨cv, _, rfl⟩ := offered_cases h
    exact covered
  | resumeTake i chosen =>
    obtain ⟨cv, _, _, htake⟩ := resumeTake_cases h
    exact room_take (p := { p with cond_notEmpty_ := cv }) covered htake
  | addTask t chosen => exact room_addTask (covered.mono (Nat.sub_le _ 1)) (step_addTask_cases h).2
  | spuriousAdd t =>
    obtain ⟨cv, roused, rfl⟩ := offered_cases h
    exact covered.rouse roused
  | resumeAdd t chosen =>
    obtain ⟨cv, back, hadd⟩ := resumeAdd_cases h
    apply room_addTask _ hadd
    exact covered.resume back
  | _ =>
    obtain ⟨size, queue, producers, _⟩ := step_still h trivial
    rw [room, size, queue, producers]
    exact covered

/-! ## Between `start` and `stop` -/

/-- A step of a producer or of a worker. -/
def Op.Running : Op A → Prop
  | .start _ _ | .stop | .joined | .discard | .discarded | .stopReturn => False
  | _ => True

omit [DecidableEq A] in
theorem Op.Running.roomed {op : Op A} (running : op.Running) (p : ThreadPool A) :
    p.Roomed op := by
  cases op with
  | start q n => exact running.elim
  | discard => exact running.elim
  | _ => trivial

theorem size_take {i : Nat} {chosen : Option A} (h : p.take i chosen = .ok r) :
    r.size_queue_ = p.size_queue_ := by
  obtain ⟨_, rfl | rfl⟩ | ⟨t, rest, cv, _, _, rfl⟩ := take_cases h
  · rfl
  · rfl
  · rfl

omit [DecidableEq A] in
theorem size_addTask {t : A} {chosen : Option Nat} (h : p.addTask t chosen = .ok r) :
    r.size_queue_ = p.size_queue_ := by
  obtain ⟨_, rfl⟩ | ⟨_, cv, _, rfl⟩ := addTask_cases h
  · rfl
  · rfl

/-- Only `start` sets the size of the queue. -/
theorem size_step {op : Op A} (running : op.Running) (h : p.step op = .ok r) :
    r.size_queue_ = p.size_queue_ := by
  cases op with
  | start q n => exact running.elim
  | stop => exact running.elim
  | discard => exact running.elim
  | take i chosen => exact size_take (step_take_cases h).2
  | spuriousTake i =>
    obtain ⟨cv, _, rfl⟩ := offered_cases h
    rfl
  | resumeTake i chosen =>
    obtain ⟨cv, _, _, htake⟩ := resumeTake_cases h
    exact size_take (p := { p with cond_notEmpty_ := cv }) htake
  | addTask t chosen => exact size_addTask (step_addTask_cases h).2
  | spuriousAdd t =>
    obtain ⟨cv, _, rfl⟩ := offered_cases h
    rfl
  | resumeAdd t chosen =>
    obtain ⟨cv, _, hadd⟩ := resumeAdd_cases h
    exact size_addTask (p := { p with cond_notFull_ := cv }) hadd
  | _ => exact (step_still h trivial).size_queue_

/-- Whatever the pool has been through: if no call of `addTask` is under way when it is
started, then until `stop` is called there are no more tasks next to a sleeping worker and
no more places next to a sleeping producer than threads on their way to them. -/
theorem signalled_between {q n : Nat} {ops : List (Op A)} (reached : Reaches step new p)
    (fresh : ∀ t, ¬ p.cond_notFull_.Inside t) (started : p.step (.start q n) = .ok r)
    (running : ∀ op ∈ ops, op.Running) (h : run step r ops = .ok s) :
    (s.cond_notEmpty_.waiting ≠ [] →
      s.b_queue_.length ≤ s.cond_notEmpty_.signalled.length) ∧
    (s.cond_notFull_.waiting ≠ [] →
      q - s.b_queue_.length ≤ s.cond_notFull_.signalled.length) := by
  have tasks : p.cond_notEmpty_.Covers p.b_queue_.length :=
    Reaches.keeps (fun _ _ _ => tasks_step) reached (CondVar.covers_new 0)
  have none : p.cond_notFull_.waiting = [] :=
    List.eq_nil_iff_forall_not_mem.mpr fun t asleep => fresh t (.inl asleep)
  have start : r.cond_notEmpty_.Covers r.b_queue_.length ∧ r.size_queue_ = q ∧
      r.cond_notFull_.Covers r.room := by
    obtain ⟨_, _, rfl⟩ := start_cases started
    exact ⟨tasks, rfl, fun asleep => absurd none asleep⟩
  have keep : ∀ (p : ThreadPool A) op r, p.cond_notEmpty_.Covers p.b_queue_.length ∧
      p.size_queue_ = q ∧ p.cond_notFull_.Covers p.room → Op.Running op → p.step op = .ok r →
      r.cond_notEmpty_.Covers r.b_queue_.length ∧ r.size_queue_ = q ∧
        r.cond_notFull_.Covers r.room := by
    rintro p op r ⟨tasks, size, covered⟩ running hstep
    exact ⟨tasks_step tasks hstep, (size_step running hstep).trans size,
      room_step covered (running.roomed p) hstep⟩
  obtain ⟨tasks, size, covered⟩ :=
    run_keeps keep start (along_of_mem (fun op mem _ => running op mem) r) h
  rw [room, size] at covered
  exact ⟨tasks, covered⟩

/-- Two workers sleep, a third takes the task that one of them was woken for. -/
def busy : List (Op Nat) :=
  [.test 0, .take 0 none, .test 1, .take 1 none, .addTask 7 (some 0), .addTask 8 none,
    .test 2, .take 2 (some 8), .resumeTake 0 none, .resumeAdd 8 (some 1)]

theorem signalled_between_busy :
    ∃ r s, (new : ThreadPool Nat).step (.start 1 3) = .ok r ∧ run step r busy = .ok s ∧
      s.cond_notEmpty_.waiting = [0] ∧ s.b_queue_ = [8] ∧
      (s.cond_notEmpty_.waiting ≠ [] →
        s.b_queue_.length ≤ s.cond_notEmpty_.signalled.length) := by
  have fresh : ∀ t, ¬ (new : ThreadPool Nat).cond_notFull_.Inside t := by
    rintro t (asleep | asleep | asleep) <;> exact absurd asleep List.not_mem_nil
  have running : ∀ op ∈ busy, op.Running := by simp [busy, Op.Running]
  obtain ⟨r, started, s, ran, asleep, items⟩ :
      ∃ r, (new : ThreadPool Nat).step (.start 1 3) = .ok r ∧ ∃ s, run step r busy = .ok s ∧
        s.cond_notEmpty_.waiting = [0] ∧ s.b_queue_ = [8] := ⟨_, rfl, _, rfl, rfl, rfl⟩
  exact ⟨r, s, started, ran, asleep, items,
    (signalled_between (.refl new) fresh started running ran).1⟩

/-! ## `start` and `stop` -/

/-- Neither in `start` nor in `stop`, with a free place, a producer that sleeps and none
that is on its way. -/
def Stranded (p : ThreadPool A) : Prop :=
  p.phase = .outside ∧ p.b_queue_.length < p.size_queue_ ∧
    p.cond_notFull_.waiting ≠ [] ∧ p.cond_notFull_.signalled = []

omit [DecidableEq A] in
theorem not_stranded (covered : p.cond_notFull_.Covers p.room) : ¬ p.Stranded := by
  rintro ⟨_, free, asleep, nobody⟩
  have enough := covered asleep
  simp only [room, nobody, List.length_nil] at enough
  omega

/-- No producer is stranded in a run in which `start` and `stop` make no room next to a
sleeping producer. -/
theorem not_stranded_of_roomed (reached : ReachesBy step Roomed new p) : ¬ p.Stranded :=
  not_stranded (reached.keeps (fun _ _ _ covered roomed h => room_step covered roomed h)
    (CondVar.covers_new 0))

/-- A producer comes before `start`. -/
def early : List (Op Nat) := [.addTask 7 none, .start 1 1]

theorem stranded_early :
    ∃ p, run step (new : ThreadPool Nat) early = .ok p ∧ p.Stranded :=
  ⟨_, rfl, rfl, by decide, by decide, rfl⟩

/-- A producer waits for the one place of the queue, and a worker makes it free. -/
def relieved : List (Op Nat) :=
  [.start 1 1, .addTask 7 none, .addTask 8 none, .test 0, .take 0 (some 8)]

theorem not_stranded_of_roomed_relieved :
    ∃ p, run step (new : ThreadPool Nat) relieved = .ok p ∧ ¬ p.Stranded := by
  refine ⟨_, rfl, ?_⟩
  apply not_stranded_of_roomed
  exact ⟨relieved, ⟨CondVar.covers_new _, trivial, trivial, trivial, trivial, trivial⟩, rfl⟩

end ThreadPool

end ZDQ
