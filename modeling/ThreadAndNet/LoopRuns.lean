import ThreadAndNet.EventLoop
import ThreadAndNet.Machine

/-!
# Runs of the event loop

Any thread may append functors between the steps of the loop, and so may whatever the
loop runs itself. The journal keeps what was appended and what `doAppendFunctors` has
executed; nothing is lost, doubled or overtaken, and a batch ends with the functors
it was swapped out with.
-/

namespace ZDQ

open Machine

/-- What somebody does to a loop. -/
inductive LoopRequest (F : Type*) where
  | runInLoop (cb : F)
  | appendFuncInLoop (cb : F)
  | quit
  /-- the read callback of the wakeup channel -/
  | handleRead

namespace EventLoop

variable {Ch F : Type*}

/-- `runInLoop`; on the loop's thread `cb` runs at once, and the requests it makes are
those that follow. -/
def runInLoop (l : EventLoop Ch F) (isInLoopThread : Bool) (cb : F) : EventLoop Ch F :=
  if isInLoopThread then l else l.appendFuncInLoop false cb

def request (isInLoopThread : Bool) (l : EventLoop Ch F) : LoopRequest F → EventLoop Ch F
  | .runInLoop cb => l.runInLoop isInLoopThread cb
  | .appendFuncInLoop cb => l.appendFuncInLoop isInLoopThread cb
  | .quit => l.quit isInLoopThread
  | .handleRead => l.handleRead

/-- Several requests of one thread, in order. -/
def requests (isInLoopThread : Bool) (l : EventLoop Ch F) (rs : List (LoopRequest F)) :
    EventLoop Ch F :=
  rs.foldl (request isInLoopThread) l

end EventLoop

/-- The functors a request puts into the queue. -/
def LoopRequest.appends {F : Type*} (isInLoopThread : Bool) : LoopRequest F → List F
  | .runInLoop cb => if isInLoopThread then [] else [cb]
  | .appendFuncInLoop cb => [cb]
  | .quit => []
  | .handleRead => []

structure LoopJournal (Ch F : Type*) where
  loop : EventLoop Ch F
  /-- all functors ever appended -/
  appended : List F
  /-- all functors `doAppendFunctors` has executed -/
  executed : List F
  /-- how many of these were executed before the last swap -/
  earlier : Nat
  /-- what was swapped out then -/
  batch : List F

namespace LoopJournal

variable {Ch F : Type*}

def new : LoopJournal Ch F := ⟨.new, [], [], 0, []⟩

def requests (j : LoopJournal Ch F) (isInLoopThread : Bool) (rs : List (LoopRequest F)) :
    LoopJournal Ch F :=
  { j with
    loop := j.loop.requests isInLoopThread rs
    appended := j.appended ++ rs.flatMap (LoopRequest.appends isInLoopThread) }

inductive Op (Ch F : Type*) where
  | move (v : EventLoop.Move Ch)
  /-- the next functor of the batch, with the requests it makes -/
  | functor (rs : List (LoopRequest F))
  /-- the events of the next channel, with the requests its handlers make -/
  | event (rs : List (LoopRequest F))
  /-- one request, of this or of another thread -/
  | request (isInLoopThread : Bool) (r : LoopRequest F)

def step (j : LoopJournal Ch F) : Op Ch F → Except Failure (LoopJournal Ch F)
  | .move v =>
    match j.loop.move v with
    | .error e => .error e
    | .ok loop =>
      .ok (match v with
        | .doAppendFunctors =>
          { j with loop := loop, earlier := j.executed.length, batch := j.loop.appendFunctors }
        | _ => { j with loop := loop })
  | .functor rs =>
    match j.loop.nextFunctor with
    | .error e => .error e
    | .ok (cb, loop) =>
      .ok ({ j with loop := loop, executed := j.executed ++ [cb] }.requests true rs)
  | .event rs =>
    match j.loop.nextChannel with
    | .error e => .error e
    | .ok (_, loop) => .ok ({ j with loop := loop }.requests true rs)
  | .request isInLoopThread r => .ok (j.requests isInLoopThread [r])

/-! ## What a request does to the queue -/

section Requests
variable (isInLoopThread : Bool) (l : EventLoop Ch F)

theorem request_functors (r : LoopRequest F) :
    (l.request isInLoopThread r).functors = l.functors ∧
      (l.request isInLoopThread r).callingPendingFunctors = l.callingPendingFunctors := by
  cases r with
  | runInLoop cb =>
    simp only [EventLoop.request, EventLoop.runInLoop, EventLoop.appendFuncInLoop]
    split
    · exact ⟨rfl, rfl⟩
    · split <;> exact ⟨rfl, rfl⟩
  | appendFuncInLoop cb =>
    simp only [EventLoop.request, EventLoop.appendFuncInLoop]
    split <;> exact ⟨rfl, rfl⟩
  | quit =>
    simp only [EventLoop.request, EventLoop.quit]
    split <;> exact ⟨rfl, rfl⟩
  | handleRead => exact ⟨rfl, rfl⟩

theorem request_appendFunctors (r : LoopRequest F) :
    (l.request isInLoopThread r).appendFunctors =
      l.appendFunctors ++ r.appends isInLoopThread := by
  cases r with
  | runInLoop cb =>
    simp only [EventLoop.request, EventLoop.runInLoop, LoopRequest.appends]
    split <;> simp
  | appendFuncInLoop cb => simp [EventLoop.request, LoopRequest.appends]
  | quit =>
    simp only [EventLoop.request, EventLoop.quit, LoopRequest.appends, List.append_nil]
    split <;> rfl
  | handleRead => simp [EventLoop.request, EventLoop.handleRead, LoopRequest.appends]

theorem requests_functors (rs : List (LoopRequest F)) :
    (l.requests isInLoopThread rs).functors = l.functors ∧
      (l.requests isInLoopThread rs).callingPendingFunctors = l.callingPendingFunctors := by
  induction rs generalizing l with
  | nil => exact ⟨rfl, rfl⟩
  | cons r rest ih =>
    obtain ⟨functors, calling⟩ := ih (l.request isInLoopThread r)
    obtain ⟨functors', calling'⟩ := request_functors isInLoopThread l r
    exact ⟨functors.trans functors', calling.trans calling'⟩

theorem requests_appendFunctors (rs : List (LoopRequest F)) :
    (l.requests isInLoopThread rs).appendFunctors =
      l.appendFunctors ++ rs.flatMap (LoopRequest.appends isInLoopThread) := by
  induction rs generalizing l with
  | nil => simp [EventLoop.requests]
  | cons r rest ih =>
    have later := ih (l.request isInLoopThread r)
    rw [request_appendFunctors, List.append_assoc] at later
    rw [List.flatMap_cons]
    exact later

end Requests

/-! ## The queue over whole runs -/

/-- What was appended is what was executed, what is left of the batch, and what waits
to be swapped out, in this order. While a batch runs, what was executed of it and what
is left of it are what was swapped out. -/
structure InOrder (j : LoopJournal Ch F) : Prop where
  all : j.executed ++ j.loop.functors ++ j.loop.appendFunctors = j.appended
  batch : j.loop.callingPendingFunctors = true →
    j.executed.drop j.earlier ++ j.loop.functors = j.batch
  earlier : j.earlier ≤ j.executed.length

theorem InOrder.requests {j : LoopJournal Ch F} (h : InOrder j) (isInLoopThread : Bool)
    (rs : List (LoopRequest F)) : InOrder (j.requests isInLoopThread rs) := by
  obtain ⟨functors, calling⟩ := requests_functors isInLoopThread j.loop rs
  refine ⟨?_, ?_, h.earlier⟩
  · show j.executed ++ (j.loop.requests isInLoopThread rs).functors ++
      (j.loop.requests isInLoopThread rs).appendFunctors = _
    rw [functors, requests_appendFunctors, ← List.append_assoc, h.all]
    rfl
  · intro running
    show j.executed.drop j.earlier ++ (j.loop.requests isInLoopThread rs).functors = j.batch
    rw [functors]
    exact h.batch (calling.symm.trans running)

/-- A move other than the swap leaves the queue alone and starts no batch. -/
theorem move_still {l m : EventLoop Ch F} {v : EventLoop.Move Ch} (h : l.move v = .ok m)
    (other : v ≠ .doAppendFunctors) :
    m.functors = l.functors ∧ m.appendFunctors = l.appendFunctors ∧
      m.callingPendingFunctors = false := by
  cases EventLoop.moves_of_move h with
  | loop phase => simp [EventLoop.functors, EventLoop.callingPendingFunctors, phase]
  | leave phase => simp [EventLoop.functors, EventLoop.callingPendingFunctors, phase]
  | poll phase => simp [EventLoop.functors, EventLoop.callingPendingFunctors, phase]
  | polled _ phase => simp [EventLoop.functors, EventLoop.callingPendingFunctors, phase]
  | doAppendFunctors _ => exact absurd rfl other
  | functorsDone phase => simp [EventLoop.functors, EventLoop.callingPendingFunctors, phase]

theorem swap_cases {l m : EventLoop Ch F} (h : l.move .doAppendFunctors = .ok m) :
    l.functors = [] ∧ m.functors = l.appendFunctors ∧ m.appendFunctors = [] := by
  cases EventLoop.moves_of_move h with
  | doAppendFunctors phase => simp [EventLoop.functors, phase]

/-- Nothing changes while no batch is run. -/
theorem InOrder.idle {j : LoopJournal Ch F} (h : InOrder j) {loop : EventLoop Ch F}
    (functors : loop.functors = j.loop.functors)
    (appended : loop.appendFunctors = j.loop.appendFunctors)
    (idle : loop.callingPendingFunctors = false) : InOrder { j with loop := loop } := by
  refine ⟨?_, ?_, h.earlier⟩
  · dsimp only
    rw [functors, appended]
    exact h.all
  · intro running
    rw [idle] at running
    cases running

theorem InOrder.move {j : LoopJournal Ch F} (h : InOrder j) {v : EventLoop.Move Ch}
    {k : LoopJournal Ch F} (hstep : j.step (.move v) = .ok k) : InOrder k := by
  simp only [step] at hstep
  split at hstep
  · cases hstep
  rename_i loop hmove
  cases hstep
  have other (ne : v ≠ .doAppendFunctors) : InOrder { j with loop := loop } := by
    obtain ⟨functors, appended, idle⟩ := move_still hmove ne
    exact h.idle functors appended idle
  cases v with
  | doAppendFunctors =>
    obtain ⟨empty, functors, appended⟩ := swap_cases hmove
    refine ⟨?_, ?_, Nat.le_refl _⟩
    · dsimp only
      rw [functors, appended, List.append_nil, ← h.all, empty, List.append_nil]
    · intro _
      dsimp only
      rw [List.drop_length, functors, List.nil_append]
  | loop => exact other nofun
  | test => exact other nofun
  | polled activeChannels => exact other nofun
  | functorsDone => exact other nofun

theorem nextFunctor_inv {l m : EventLoop Ch F} {cb : F} (h : l.nextFunctor = .ok (cb, m)) :
    l.functors = cb :: m.functors ∧ m.appendFunctors = l.appendFunctors ∧
      l.callingPendingFunctors = true := by
  obtain ⟨rest, phase, rfl⟩ := EventLoop.nextFunctor_phase h
  simp [EventLoop.functors, EventLoop.callingPendingFunctors, phase]

theorem InOrder.functor {j : LoopJournal Ch F} (h : InOrder j) {cb : F}
    {loop : EventLoop Ch F} (next : j.loop.nextFunctor = .ok (cb, loop)) :
    InOrder { j with loop := loop, executed := j.executed ++ [cb] } := by
  obtain ⟨functors, appended, running⟩ := nextFunctor_inv next
  refine ⟨?_, ?_, ?_⟩
  · have all := h.all
    rw [functors] at all
    simpa [appended] using all
  · intro _
    have batch := h.batch running
    rw [functors] at batch
    dsimp only
    rw [List.drop_append_of_le_length h.earlier, List.append_assoc]
    exact batch
  · have := h.earlier
    dsimp only
    rw [List.length_append]
    omega

theorem nextChannel_still {l m : EventLoop Ch F} {c : Ch} (h : l.nextChannel = .ok (c, m)) :
    m.functors = l.functors ∧ m.appendFunctors = l.appendFunctors ∧
      m.callingPendingFunctors = false := by
  obtain ⟨rest, phase, rfl⟩ := EventLoop.nextChannel_phase h
  simp [EventLoop.functors, EventLoop.callingPendingFunctors, phase]

theorem InOrder.step {j k : LoopJournal Ch F} (h : InOrder j) {op : Op Ch F}
    (hstep : j.step op = .ok k) : InOrder k := by
  cases op with
  | move v => exact h.move hstep
  | functor rs =>
    simp only [LoopJournal.step] at hstep
    split at hstep
    · cases hstep
    · rename_i cb loop next
      cases hstep
      exact (h.functor next).requests true rs
  | event rs =>
    simp only [LoopJournal.step] at hstep
    split at hstep
    · cases hstep
    · rename_i c loop next
      cases hstep
      obtain ⟨functors, appended, idle⟩ := nextChannel_still next
      exact (h.idle functors appended idle).requests true rs
  | request isInLoopThread r =>
    cases hstep
    exact h.requests isInLoopThread [r]

/-- In every state of every run, functors have been executed, wait in the batch and wait
to be swapped out in the order in which they were appended, and a batch executes exactly
what was swapped out. -/
theorem functors_in_order {j : LoopJournal Ch F} (reached : Reaches step new j) :
    j.executed ++ j.loop.functors ++ j.loop.appendFunctors = j.appended ∧
    (j.loop.callingPendingFunctors = true →
      j.executed.drop j.earlier ++ j.loop.functors = j.batch) ∧
    (∀ k, j.step (.move .functorsDone) = .ok k → j.executed.drop j.earlier = j.batch) := by
  have start : InOrder (new : LoopJournal Ch F) := ⟨rfl, nofun, Nat.le_refl 0⟩
  have inv : InOrder j := Reaches.keeps (fun _ _ _ h hstep => h.step hstep) reached start
  refine ⟨inv.all, inv.batch, ?_⟩
  intro k hstep
  simp only [step, EventLoop.move, EventLoop.functorsDone] at hstep
  split at hstep
  · cases hstep
  · rename_i loop hdone
    split at hdone
    · rename_i hphase
      have batch := inv.batch (by simp [EventLoop.callingPendingFunctors, hphase])
      simpa [EventLoop.functors, hphase] using batch
    · cases hdone

/-- The first functor appends another one, and so does another thread meanwhile: both
wait for the next batch. -/
def reentrant : List (Op Unit Nat) :=
  [.request false (.appendFuncInLoop 1), .request false (.runInLoop 2), .move .loop,
    .move .test, .move (.polled []), .move .doAppendFunctors,
    .functor [.runInLoop 7, .appendFuncInLoop 3], .request false (.appendFuncInLoop 4),
    .functor []]

theorem functors_in_order_reentrant :
    ∃ j, run step (new : LoopJournal Unit Nat) reentrant = .ok j ∧
      j.executed = [1, 2] ∧ j.loop.functors = [] ∧ j.loop.appendFunctors = [3, 4] ∧
      j.executed ++ j.loop.functors ++ j.loop.appendFunctors = j.appended :=
  ⟨_, rfl, rfl, rfl, rfl, (functors_in_order ⟨reentrant, rfl⟩).1⟩

end LoopJournal

end ZDQ
