import ThreadAndNet.Failure

/-!
# Who releases the threads of a pool

A created thread has to be joined or detached, once. `stop` joins every worker,
and `~Thread` then detaches exactly those that were joined: a worker of the pool
is released twice. Each successful `pthread_create` counts as an id of its own.
-/

namespace ZDQ

open Machine

/-- The calls that are made with an id. -/
inductive PthreadCall where
  | pthread_create (pid : Nat)
  | pthread_join (pid : Nat)
  | pthread_detach (pid : Nat)
deriving DecidableEq

structure Thread where
  pid_ : Nat
  is_start_ : Bool
  is_join_ : Bool
deriving DecidableEq

namespace Thread

def new : Thread := ⟨0, false, false⟩

/-- `start`, with the id that `pthread_create` stores if it succeeds. -/
def start (t : Thread) (created : Option Nat) : Except Failure (Thread × List PthreadCall) :=
  if t.is_start_ then .error .assertion
  else
    match created with
    | some pid => .ok ({ t with pid_ := pid, is_start_ := true }, [.pthread_create pid])
    | none => .ok ({ t with is_start_ := false }, [])

def join (t : Thread) : Except Failure (Thread × List PthreadCall) :=
  if !t.is_start_ then .error .assertion
  else if t.is_join_ then .error .assertion
  else .ok ({ t with is_join_ := true }, [.pthread_join t.pid_])

/-- The destructor. -/
def destruct (t : Thread) : List PthreadCall :=
  if t.is_start_ && t.is_join_ then [.pthread_detach t.pid_] else []

/-- `start` of each thread in order. An answer says whether `pthread_create` succeeds; the
ids come in order from `next` on. -/
def startAll : List Thread → List Bool → Nat →
    Except Failure (List Thread × Nat × List PthreadCall)
  | [], _, next => .ok ([], next, [])
  | _ :: _, [], _ => .error .disabled
  | t :: rest, answer :: answers, next =>
    match t.start (if answer then some next else none) with
    | .error e => .error e
    | .ok (t, calls) =>
      match startAll rest answers (if answer then next + 1 else next) with
      | .error e => .error e
      | .ok (rest, next, more) => .ok (t :: rest, next, calls ++ more)

def joinAll : List Thread → Except Failure (List Thread × List PthreadCall)
  | [] => .ok ([], [])
  | t :: rest =>
    match t.join with
    | .error e => .error e
    | .ok (t, calls) =>
      match joinAll rest with
      | .error e => .error e
      | .ok (rest, more) => .ok (t :: rest, calls ++ more)

/-- A vector of threads is destroyed or cleared. -/
def destructAll (threads : List Thread) : List PthreadCall := threads.flatMap destruct

end Thread

/-- The threads of a pool, and what was done with ids so far. -/
structure PoolThreads where
  threads_ : List Thread
  is_start_ : Bool
  destroyed : Bool
  /-- how many threads were created -/
  created : Nat
  calls : List PthreadCall
deriving DecidableEq

namespace PoolThreads

def new : PoolThreads := ⟨[], false, false, 0, []⟩

def start (p : PoolThreads) (size_thread : Nat) (answers : List Bool) :
    Except Failure PoolThreads :=
  let threads := p.threads_ ++ List.replicate size_thread .new
  match Thread.startAll threads answers p.created with
  | .error e => .error e
  | .ok (threads, created, calls) =>
    .ok { p with
      threads_ := threads
      is_start_ := true
      created := created
      calls := p.calls ++ calls }

def stop (p : PoolThreads) : Except Failure PoolThreads :=
  if p.is_start_ then
    match Thread.joinAll p.threads_ with
    | .error e => .error e
    | .ok (threads, calls) =>
      .ok { p with
        threads_ := []
        is_start_ := false
        calls := p.calls ++ calls ++ Thread.destructAll threads }
  else .ok p

/-- `~ThreadPool`, and the destructor of `threads_`. -/
def destruct (p : PoolThreads) : Except Failure PoolThreads :=
  match if p.is_start_ then p.stop else .ok p with
  | .error e => .error e
  | .ok p =>
    .ok { p with
      threads_ := []
      destroyed := true
      calls := p.calls ++ Thread.destructAll p.threads_ }

inductive Op where
  /-- `start`, with the answers of `pthread_create` -/
  | start (size_thread : Nat) (answers : List Bool)
  | stop
  | destruct

def step (p : PoolThreads) (op : Op) : Except Failure PoolThreads :=
  if p.destroyed then .error .disabled
  else
    match op with
    | .start size_thread answers => p.start size_thread answers
    | .stop => p.stop
    | .destruct => p.destruct

/-- How often an id was passed to `pthread_join` or `pthread_detach`. -/
def released (calls : List PthreadCall) (pid : Nat) : Nat :=
  calls.count (.pthread_join pid) + calls.count (.pthread_detach pid)

/-- Every thread that was created was released, and none more than once. -/
def ReleasedOnce (p : PoolThreads) : Prop := ∀ pid < p.created, released p.calls pid = 1

theorem released_append (first second : List PthreadCall) (pid : Nat) :
    released (first ++ second) pid = released first pid + released second pid := by
  simp only [released, List.count_append]
  omega

@[simp] theorem released_nil (pid : Nat) : released [] pid = 0 := rfl

@[simp] theorem released_create (created pid : Nat) :
    released [.pthread_create created] pid = 0 := by
  simp [released]

/-- Joining and detaching the same threads releases each of them twice. -/
theorem released_both (ids : List Nat) (pid : Nat) :
    released (ids.map .pthread_join ++ ids.map .pthread_detach) pid = 2 * ids.count pid := by
  induction ids with
  | nil => rfl
  | cons id rest ih =>
    simp only [released, List.count_append, List.map_cons, List.count_cons,
      PthreadCall.pthread_join.injEq, PthreadCall.pthread_detach.injEq, beq_iff_eq,
      reduceCtorEq, if_false, Nat.add_zero] at *
    split <;> omega

end PoolThreads

/-! ## The loops over the threads -/

namespace Thread

open PoolThreads

/-- The ids of the threads that were created. -/
def owned (threads : List Thread) : List Nat := (threads.filter is_start_).map pid_

@[simp] theorem owned_nil : owned [] = [] := rfl

theorem start_cases {t u : Thread} {created : Option Nat} {calls : List PthreadCall}
    (h : t.start created = .ok (u, calls)) :
    t.is_start_ = false ∧
      ((∃ pid, created = some pid ∧ u.is_start_ = true ∧ u.pid_ = pid ∧
          calls = [.pthread_create pid]) ∨
        created = none ∧ u.is_start_ = false ∧ calls = []) := by
  unfold start at h
  split at h
  · cases h
  rename_i idle
  split at h
  · rename_i pid
    cases h
    exact ⟨Bool.eq_false_iff.mpr idle, .inl ⟨pid, rfl, rfl, rfl, rfl⟩⟩
  · cases h
    exact ⟨Bool.eq_false_iff.mpr idle, .inr ⟨rfl, rfl, rfl⟩⟩

/-- Threads that were not started are, where `pthread_create` succeeds, under the next ids. -/
structure Starts (threads after : List Thread) (next next' : Nat) (calls : List PthreadCall) :
    Prop where
  idle : owned threads = []
  length : after.length = threads.length
  grows : next ≤ next'
  owned : owned after = List.range' next (next' - next)
  released : ∀ pid, released calls pid = 0

theorem startAll_starts {threads after : List Thread} {answers : List Bool} {next next' : Nat}
    {calls : List PthreadCall}
    (h : startAll threads answers next = .ok (after, next', calls)) :
    Starts threads after next next' calls := by
  induction threads generalizing answers next after calls with
  | nil =>
    cases h
    exact ⟨rfl, rfl, Nat.le_refl _, by simp, fun pid => rfl⟩
  | cons t rest ih =>
    cases answers with
    | nil => cases h
    | cons answer answers =>
      unfold startAll at h
      split at h
      · cases h
      rename_i u first started
      split at h
      · cases h
      rename_i others next'' more others_started
      cases h
      have later := ih others_started
      obtain ⟨idle, outcome⟩ := start_cases started
      refine ⟨?_, ?_, ?_, ?_, ?_⟩
      · rw [Thread.owned, List.filter_cons_of_neg (by simp [idle])]
        exact later.idle
      · rw [List.length_cons, List.length_cons, later.length]
      · have grows := later.grows
        split at grows
        · exact Nat.le_of_succ_le grows
        · exact grows
      · have grows := later.grows
        have owned := later.owned
        rcases outcome with ⟨pid, created, on, rfl, _⟩ | ⟨failed, off, _⟩
        · cases answer with
          | false => cases created
          | true =>
            cases created
            rw [if_pos rfl] at grows owned
            rw [Thread.owned, List.filter_cons_of_pos on, List.map_cons,
              show next' - u.pid_ = (next' - (u.pid_ + 1)) + 1 by omega, List.range'_succ]
            exact congrArg _ owned
        · cases answer with
          | true => cases failed
          | false =>
            rw [Thread.owned, List.filter_cons_of_neg (by simp [off])]
            exact owned
      · intro pid
        rw [released_append, later.released pid]
        rcases outcome with ⟨created, _, _, _, rfl⟩ | ⟨_, _, rfl⟩
        · exact released_create created pid
        · rfl

theorem join_cases {t u : Thread} {calls : List PthreadCall} (h : t.join = .ok (u, calls)) :
    t.is_start_ = true ∧ calls = [.pthread_join t.pid_] ∧
      u.destruct = [.pthread_detach t.pid_] := by
  unfold join at h
  split at h
  · cases h
  rename_i started
  split at h
  · cases h
  · cases h
    have on : t.is_start_ = true := by simpa using started
    exact ⟨on, rfl, by simp [destruct, on]⟩

/-- A thread that was joined is detached when it is destroyed. -/
theorem joinAll_cases {threads after : List Thread} {calls : List PthreadCall}
    (h : joinAll threads = .ok (after, calls)) :
    owned threads = threads.map pid_ ∧ calls = (owned threads).map .pthread_join ∧
      destructAll after = (owned threads).map .pthread_detach := by
  induction threads generalizing after calls with
  | nil =>
    cases h
    exact ⟨rfl, rfl, rfl⟩
  | cons t rest ih =>
    unfold joinAll at h
    split at h
    · cases h
    rename_i u first joined
    split at h
    · cases h
    rename_i others more others_joined
    cases h
    obtain ⟨on, rfl, gone⟩ := join_cases joined
    obtain ⟨all, rfl, others_gone⟩ := ih others_joined
    have own : owned (t :: rest) = t.pid_ :: owned rest := by
      rw [owned, List.filter_cons_of_pos on, List.map_cons, ← owned]
    rw [own, List.map_cons, List.map_cons, List.map_cons, ← all]
    refine ⟨rfl, rfl, ?_⟩
    rw [destructAll, List.flatMap_cons, gone, ← destructAll, others_gone]
    rfl

end Thread

/-! ## Runs -/

namespace PoolThreads

open Thread

/-- The threads that are left were not released, and all others were released twice. -/
structure Inv (p : PoolThreads) : Prop where
  started : p.threads_ ≠ [] → p.is_start_ = true
  nodup : (owned p.threads_).Nodup
  within : ∀ pid ∈ owned p.threads_, pid < p.created
  held : ∀ pid, pid ∈ owned p.threads_ ∨ p.created ≤ pid → released p.calls pid = 0
  gone : ∀ pid < p.created, pid ∉ owned p.threads_ → released p.calls pid = 2

theorem new_inv : Inv new := by
  refine ⟨?_, ?_, ?_, ?_, ?_⟩ <;> simp [new]

theorem start_cases {p q : PoolThreads} {size_thread : Nat} {answers : List Bool}
    (h : p.start size_thread answers = .ok q) :
    ∃ after created calls,
      Starts (p.threads_ ++ List.replicate size_thread .new) after p.created created calls ∧
        q = { p with
          threads_ := after
          is_start_ := true
          created := created
          calls := p.calls ++ calls } := by
  unfold start at h
  dsimp only at h
  split at h
  · cases h
  · rename_i ran
    cases h
    exact ⟨_, _, _, startAll_starts ran, rfl⟩

theorem owned_append (first second : List Thread) :
    owned (first ++ second) = owned first ++ owned second := by
  rw [owned, List.filter_append, List.map_append, ← owned, ← owned]

theorem Inv.start {p q : PoolThreads} (inv : Inv p) {size_thread : Nat} {answers : List Bool}
    (h : p.start size_thread answers = .ok q) : Inv q := by
  obtain ⟨after, created, calls, starts, rfl⟩ := start_cases h
  have idle : owned p.threads_ = [] := by
    have idle := starts.idle
    rw [owned_append, List.append_eq_nil_iff] at idle
    exact idle.1
  have grows := starts.grows
  have counted : ∀ pid, released (p.calls ++ calls) pid = released p.calls pid := by
    intro pid
    rw [released_append, starts.released, Nat.add_zero]
  have now : ∀ pid, pid ∈ owned after ↔ p.created ≤ pid ∧ pid < created := by
    intro pid
    rw [starts.owned, List.mem_range'_1]
    omega
  refine ⟨fun _ => rfl, ?_, fun pid mem => ((now pid).mp mem).2, ?_, ?_⟩
  · rw [starts.owned]
    exact List.nodup_range'
  · intro pid held
    rw [counted]
    apply inv.held
    rcases held with mem | late
    · exact .inr ((now pid).mp mem).1
    · exact .inr (Nat.le_trans grows late)
  · intro pid small other
    rw [counted]
    refine inv.gone pid ?_ (by simp [idle])
    rw [now] at other
    have small : pid < created := small
    omega

theorem stop_cases {p q : PoolThreads} (h : p.stop = .ok q) :
    p.is_start_ = false ∧ q = p ∨
      p.is_start_ = true ∧ owned p.threads_ = p.threads_.map Thread.pid_ ∧
        q = { p with
          threads_ := []
          is_start_ := false
          calls := p.calls ++ (owned p.threads_).map .pthread_join ++
            (owned p.threads_).map .pthread_detach } := by
  unfold stop at h
  split at h
  · rename_i running
    split at h
    · cases h
    rename_i joined
    cases h
    obtain ⟨all, rfl, gone⟩ := joinAll_cases joined
    exact .inr ⟨running, all, by rw [gone]⟩
  · rename_i stopped
    cases h
    exact .inl ⟨Bool.eq_false_iff.mpr stopped, rfl⟩

theorem Inv.stop {p q : PoolThreads} (inv : Inv p) (h : p.stop = .ok q) : Inv q := by
  obtain ⟨_, rfl⟩ | ⟨_, _, rfl⟩ := stop_cases h
  · exact inv
  have counted : ∀ pid, released (p.calls ++ (owned p.threads_).map .pthread_join ++
      (owned p.threads_).map .pthread_detach) pid =
        released p.calls pid + 2 * (owned p.threads_).count pid := by
    intro pid
    rw [List.append_assoc, released_append, released_both]
  refine ⟨by simp, by simp, by simp, ?_, ?_⟩
  · rintro pid (mem | late)
    · cases mem
    have absent : pid ∉ owned p.threads_ := fun mem => by
      have := inv.within pid mem
      have late : p.created ≤ pid := late
      omega
    show released _ pid = 0
    rw [counted, inv.held pid (.inr late), List.count_eq_zero_of_not_mem absent]
  · intro pid small _
    show released _ pid = 2
    rw [counted]
    by_cases mem : pid ∈ owned p.threads_
    · rw [inv.held pid (.inl mem), inv.nodup.count, if_pos mem]
    · rw [inv.gone pid small mem, List.count_eq_zero_of_not_mem mem]

/-- A pool that is not running has no threads, so its destructor does what `stop` does. -/
theorem Inv.destruct_cases {p q : PoolThreads} (inv : Inv p) (h : p.destruct = .ok q) :
    ∃ m, p.stop = .ok m ∧ m.threads_ = [] ∧ q = { m with destroyed := true } := by
  have empty : ∀ {m : PoolThreads}, p.stop = .ok m → m.threads_ = [] := by
    intro m stopped
    obtain ⟨idle, rfl⟩ | ⟨_, _, rfl⟩ := stop_cases stopped
    · by_contra some
      rw [inv.started some] at idle
      cases idle
    · rfl
  have same : (if p.is_start_ then p.stop else .ok p) = p.stop := by
    split
    · rfl
    · rename_i idle
      rw [PoolThreads.stop, if_neg idle]
  rw [destruct, same] at h
  split at h
  · cases h
  · rename_i m stopped
    cases h
    have none := empty stopped
    refine ⟨m, stopped, none, ?_⟩
    simp [none, destructAll]

theorem Inv.destroy {p : PoolThreads} (inv : Inv p) : Inv { p with destroyed := true } :=
  ⟨inv.started, inv.nodup, inv.within, inv.held, inv.gone⟩

/-- No thread is there, and none ever was. -/
def Idle (p : PoolThreads) : Prop := p.threads_ = [] ∧ p.created = 0

/-- A call of `start` that asks for no threads, or another call. -/
def Op.Idle : Op → Prop
  | .start size_thread _ => size_thread = 0
  | .stop => True
  | .destruct => True

/-- Threads that a running pool has were created, or joining them fails. -/
theorem Inv.stop_idle {p q : PoolThreads} (inv : Inv p) (h : p.stop = .ok q) :
    Idle q ↔ Idle p := by
  obtain ⟨_, rfl⟩ | ⟨_, all, rfl⟩ := stop_cases h
  · rfl
  constructor
  · rintro ⟨_, none⟩
    refine ⟨?_, none⟩
    cases threads : p.threads_ with
    | nil => rfl
    | cons t rest =>
      have mem : t.pid_ ∈ owned p.threads_ := by
        rw [all, threads]
        exact List.mem_cons_self
      have := inv.within _ mem
      have none : p.created = 0 := none
      omega
  · rintro ⟨_, none⟩
    exact ⟨rfl, none⟩

theorem step_cases {p q : PoolThreads} {op : Op} (h : p.step op = .ok q) :
    (∃ size_thread answers, op = .start size_thread answers ∧
        p.start size_thread answers = .ok q) ∨
      op = .stop ∧ p.stop = .ok q ∨ op = .destruct ∧ p.destruct = .ok q := by
  unfold step at h
  split at h
  · cases h
  cases op with
  | start size_thread answers => exact .inl ⟨size_thread, answers, rfl, h⟩
  | stop => exact .inr (.inl ⟨rfl, h⟩)
  | destruct => exact .inr (.inr ⟨rfl, h⟩)

theorem Inv.step {p q : PoolThreads} (inv : Inv p) {op : Op} (h : p.step op = .ok q) :
    Inv q ∧ (Idle q ↔ Idle p ∧ op.Idle) := by
  rcases step_cases h with ⟨size_thread, answers, rfl, started⟩ | ⟨rfl, stopped⟩ | ⟨rfl, gone⟩
  · refine ⟨inv.start started, ?_⟩
    obtain ⟨after, created, calls, starts, rfl⟩ := start_cases started
    have length := starts.length
    have grows := starts.grows
    have owned := starts.owned
    rw [List.length_append, List.length_replicate] at length
    constructor
    · rintro ⟨none, zero⟩
      have none : after = [] := none
      have zero : created = 0 := zero
      rw [none, List.length_nil] at length
      refine ⟨⟨List.length_eq_zero_iff.mp (by omega), by omega⟩, ?_⟩
      show size_thread = 0
      omega
    · rintro ⟨⟨none, zero⟩, empty⟩
      have empty : size_thread = 0 := empty
      rw [none, List.length_nil] at length
      have none : after = [] := List.length_eq_zero_iff.mp (by omega)
      refine ⟨none, ?_⟩
      rw [none, owned_nil] at owned
      have := congrArg List.length owned
      rw [List.length_nil, List.length_range'] at this
      show created = 0
      omega
  · refine ⟨inv.stop stopped, ?_⟩
    rw [inv.stop_idle stopped]
    exact (and_iff_left trivial).symm
  · obtain ⟨m, stopped, _, rfl⟩ := inv.destruct_cases gone
    refine ⟨(inv.stop stopped).destroy, ?_⟩
    have same : Idle { m with destroyed := true } ↔ Idle m := Iff.rfl
    rw [same, inv.stop_idle stopped]
    exact (and_iff_left trivial).symm

/-- What every step keeps, every run keeps. -/
theorem run_inv {ops : List Op} {p q : PoolThreads} (inv : Inv p)
    (h : run step p ops = .ok q) : Inv q ∧ (Idle q ↔ Idle p ∧ ∀ op ∈ ops, op.Idle) := by
  induction ops generalizing p with
  | nil =>
    cases h
    exact ⟨inv, by simp⟩
  | cons op rest ih =>
    obtain ⟨m, hm, hrest⟩ := run_cons_inv h
    obtain ⟨inv', first⟩ := inv.step hm
    obtain ⟨last, later⟩ := ih inv' hrest
    refine ⟨last, ?_⟩
    rw [later, first, List.forall_mem_cons, and_assoc]

theorem destructed_empty {ops : List Op} {p : PoolThreads}
    (ran : run step new (ops ++ [.destruct]) = .ok p) : p.threads_ = [] := by
  rw [run_append] at ran
  split at ran
  · rename_i m before
    obtain ⟨inv, _⟩ := run_inv new_inv before
    obtain ⟨q, hq, last⟩ := run_cons_inv ran
    cases last
    rcases step_cases hq with ⟨_, _, other, _⟩ | ⟨other, _⟩ | ⟨_, gone⟩
    · cases other
    · cases other
    · obtain ⟨_, _, empty, rfl⟩ := inv.destruct_cases gone
      exact empty
  · cases ran

/-- A pool that has been destroyed has released each of its threads exactly once only if
it never had any. -/
theorem releasedOnce_iff {ops : List Op} {p : PoolThreads}
    (ran : run step new (ops ++ [.destruct]) = .ok p) :
    p.ReleasedOnce ↔
      ∀ size_thread answers, .start size_thread answers ∈ ops → size_thread = 0 := by
  obtain ⟨inv, idle⟩ := run_inv new_inv ran
  have empty : p.threads_ = [] := destructed_empty ran
  have created : p.ReleasedOnce ↔ Idle p := by
    constructor
    · intro once
      refine ⟨empty, Nat.eq_zero_of_not_pos fun pos => ?_⟩
      have twice := inv.gone 0 pos (by simp [empty])
      rw [once 0 pos] at twice
      cases twice
    · rintro ⟨_, none⟩ pid small
      omega
  have start : Idle new := ⟨rfl, rfl⟩
  rw [created, idle, and_iff_right start]
  constructor
  · intro all size_thread answers mem
    exact all _ (List.mem_append_left _ mem)
  · intro all op mem
    rcases List.mem_append.mp mem with mem | last
    · cases op with
      | start size_thread answers => exact all size_thread answers mem
      | stop => trivial
      | destruct => trivial
    · cases List.mem_singleton.mp last
      trivial

/-- Two rounds without a worker. -/
def withoutWorkers : List Op := [.start 0 [], .stop, .start 0 []]

theorem releasedOnce_iff_withoutWorkers :
    ∃ p, run step new (withoutWorkers ++ [.destruct]) = .ok p ∧
      (p.ReleasedOnce ↔
        ∀ size_thread answers, .start size_thread answers ∈ withoutWorkers → size_thread = 0) :=
  ⟨_, rfl, releasedOnce_iff rfl⟩

/-- One worker that was started and joined is detached when `threads_` is cleared. -/
theorem not_releasedOnce_oneWorker :
    ∃ p, run step new [.start 1 [true], .stop, .destruct] = .ok p ∧
      p.calls = [.pthread_create 0, .pthread_join 0, .pthread_detach 0] ∧ ¬ p.ReleasedOnce := by
  refine ⟨_, rfl, rfl, fun once => ?_⟩
  cases once 0 (by decide)

end PoolThreads

end ZDQ
