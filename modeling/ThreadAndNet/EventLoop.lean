import ThreadAndNet.Failure
import Mathlib.Tactic.TypeStar

/-!
# The event loop and its queue of functors

The loop is kept apart from what its channels and functors do: it tells whoever
drives it which channel or functor is next. A call of another thread, and what
one event or functor does, is one step; the critical section of `mutex_` is never
seen from inside.
-/

namespace ZDQ

/-- Where the loop's thread is, with what is left of the range it iterates over. -/
inductive LoopPhase (Ch F : Type*) where
  /-- not in `loop()` -/
  | outside
  /-- about to test `quit_` -/
  | testing
  /-- in `::poll` -/
  | polling
  /-- `activeChannels_` whose events are still to be handled -/
  | dispatching (activeChannels : List Ch)
  /-- swapped out functors that are still to be run -/
  | calling (functors : List F)

structure EventLoop (Ch F : Type*) where
  phase : LoopPhase Ch F
  looping : Bool
  quit_ : Bool
  appendFunctors : List F
  /-- the counter of the eventfd `wakeupFd_` -/
  wakeups : Nat

namespace EventLoop

variable {Ch F : Type*}

def new : EventLoop Ch F := ⟨.outside, false, false, [], 0⟩

def activeChannels (l : EventLoop Ch F) : List Ch :=
  match l.phase with
  | .dispatching activeChannels => activeChannels
  | _ => []

/-- The rest of the batch `doAppendFunctors` is running. -/
def functors (l : EventLoop Ch F) : List F :=
  match l.phase with
  | .calling functors => functors
  | _ => []

/-- `callingPendingFunctors_` is set exactly inside `doAppendFunctors`. -/
def callingPendingFunctors (l : EventLoop Ch F) : Bool :=
  match l.phase with
  | .calling _ => true
  | _ => false

/-- All functors that have not been run yet, the oldest first. -/
def queued (l : EventLoop Ch F) : List F := l.functors ++ l.appendFunctors

def weakFd (l : EventLoop Ch F) : EventLoop Ch F := { l with wakeups := l.wakeups + 1 }

/-- The read callback of the wakeup channel. -/
def handleRead (l : EventLoop Ch F) : EventLoop Ch F := { l with wakeups := 0 }

def quit (l : EventLoop Ch F) (isInLoopThread : Bool) : EventLoop Ch F :=
  let l := { l with quit_ := true }
  if isInLoopThread then l else l.weakFd

def appendFuncInLoop (l : EventLoop Ch F) (isInLoopThread : Bool) (cb : F) :
    EventLoop Ch F :=
  let l := { l with appendFunctors := l.appendFunctors ++ [cb] }
  if !isInLoopThread || l.callingPendingFunctors then l.weakFd else l

/-! ## The steps of `loop()` -/

def loop (l : EventLoop Ch F) : Except Failure (EventLoop Ch F) :=
  match l.phase with
  | .outside =>
    if l.looping then .error .assertion
    else .ok { l with looping := true, quit_ := false, phase := .testing }
  | _ => .error .disabled

/-- The loop's condition. -/
def test (l : EventLoop Ch F) : Except Failure (EventLoop Ch F) :=
  match l.phase with
  | .testing =>
    .ok (if l.quit_ then { l with looping := false, phase := .outside }
      else { l with phase := .polling })
  | _ => .error .disabled

/-- `poller_->poll` returned these channels. -/
def polled (l : EventLoop Ch F) (activeChannels : List Ch) : Except Failure (EventLoop Ch F) :=
  match l.phase with
  | .polling => .ok { l with phase := .dispatching activeChannels }
  | _ => .error .disabled

/-- The next channel whose `handleEvent` is called. -/
def nextChannel (l : EventLoop Ch F) : Except Failure (Ch × EventLoop Ch F) :=
  match l.phase with
  | .dispatching (c :: rest) => .ok (c, { l with phase := .dispatching rest })
  | _ => .error .disabled

/-- The swap at the start of `doAppendFunctors`. -/
def doAppendFunctors (l : EventLoop Ch F) : Except Failure (EventLoop Ch F) :=
  match l.phase with
  | .dispatching [] =>
    .ok { l with phase := .calling l.appendFunctors, appendFunctors := [] }
  | _ => .error .disabled

/-- The next functor `doAppendFunctors` calls. -/
def nextFunctor (l : EventLoop Ch F) : Except Failure (F × EventLoop Ch F) :=
  match l.phase with
  | .calling (cb :: rest) => .ok (cb, { l with phase := .calling rest })
  | _ => .error .disabled

/-- The end of `doAppendFunctors`. -/
def functorsDone (l : EventLoop Ch F) : Except Failure (EventLoop Ch F) :=
  match l.phase with
  | .calling [] => .ok { l with phase := .testing }
  | _ => .error .disabled

/-- The steps of the loop's thread that call neither a channel nor a functor. -/
inductive Move (Ch : Type*) where
  | loop
  | test
  | polled (activeChannels : List Ch)
  | doAppendFunctors
  | functorsDone

def move (l : EventLoop Ch F) : Move Ch → Except Failure (EventLoop Ch F)
  | .loop => l.loop
  | .test => l.test
  | .polled activeChannels => l.polled activeChannels
  | .doAppendFunctors => l.doAppendFunctors
  | .functorsDone => l.functorsDone

/-! ## The queue is a queue -/

@[simp] theorem functors_appendFuncInLoop (l : EventLoop Ch F) (isInLoopThread : Bool)
    (cb : F) : (l.appendFuncInLoop isInLoopThread cb).functors = l.functors := by
  simp only [appendFuncInLoop]
  split <;> rfl

@[simp] theorem activeChannels_appendFuncInLoop (l : EventLoop Ch F) (isInLoopThread : Bool)
    (cb : F) : (l.appendFuncInLoop isInLoopThread cb).activeChannels = l.activeChannels := by
  simp only [appendFuncInLoop]
  split <;> rfl

@[simp] theorem appendFunctors_appendFuncInLoop (l : EventLoop Ch F) (isInLoopThread : Bool)
    (cb : F) :
    (l.appendFuncInLoop isInLoopThread cb).appendFunctors = l.appendFunctors ++ [cb] := by
  simp only [appendFuncInLoop]
  split <;> rfl

@[simp] theorem queued_appendFuncInLoop (l : EventLoop Ch F) (isInLoopThread : Bool)
    (cb : F) : (l.appendFuncInLoop isInLoopThread cb).queued = l.queued ++ [cb] := by
  simp [queued]

/-- Several functors appended one after the other by one thread. -/
def appendAll (l : EventLoop Ch F) (isInLoopThread : Bool) (cbs : List F) : EventLoop Ch F :=
  cbs.foldl (fun l cb => l.appendFuncInLoop isInLoopThread cb) l

@[simp] theorem queued_appendAll (l : EventLoop Ch F) (isInLoopThread : Bool)
    (cbs : List F) : (l.appendAll isInLoopThread cbs).queued = l.queued ++ cbs := by
  induction cbs generalizing l with
  | nil => rw [List.append_nil]; rfl
  | cons cb rest ih =>
    rw [appendAll, List.foldl_cons, ← appendAll, ih, queued_appendFuncInLoop,
      List.append_assoc, List.singleton_append]

theorem nextFunctor_phase {l m : EventLoop Ch F} {cb : F}
    (h : l.nextFunctor = .ok (cb, m)) :
    ∃ rest, l.phase = .calling (cb :: rest) ∧ m = { l with phase := .calling rest } := by
  unfold nextFunctor at h
  split at h
  · rename_i rest phase
    cases h
    exact ⟨rest, phase, rfl⟩
  · cases h

theorem nextFunctor_cases {l m : EventLoop Ch F} {cb : F}
    (h : l.nextFunctor = .ok (cb, m)) :
    l.queued = cb :: m.queued ∧ l.activeChannels = [] ∧ m.activeChannels = [] := by
  obtain ⟨rest, phase, rfl⟩ := nextFunctor_phase h
  simp [queued, functors, activeChannels, phase]

theorem nextChannel_phase {l m : EventLoop Ch F} {c : Ch}
    (h : l.nextChannel = .ok (c, m)) :
    ∃ rest, l.phase = .dispatching (c :: rest) ∧ m = { l with phase := .dispatching rest } := by
  unfold nextChannel at h
  split at h
  · rename_i rest phase
    cases h
    exact ⟨rest, phase, rfl⟩
  · cases h

theorem nextChannel_cases {l m : EventLoop Ch F} {c : Ch}
    (h : l.nextChannel = .ok (c, m)) :
    m.queued = l.queued ∧ l.activeChannels = c :: m.activeChannels := by
  obtain ⟨rest, phase, rfl⟩ := nextChannel_phase h
  simp [queued, functors, activeChannels, phase]

/-- The channels a move makes active. -/
def Move.active : Move Ch → List Ch
  | .polled activeChannels => activeChannels
  | _ => []

/-- When a move is made, and what it does. -/
inductive Moves (l : EventLoop Ch F) : Move Ch → EventLoop Ch F → Prop where
  | loop : l.phase = .outside → l.looping = false →
      Moves l .loop { l with looping := true, quit_ := false, phase := .testing }
  | leave : l.phase = .testing → l.quit_ = true →
      Moves l .test { l with looping := false, phase := .outside }
  | poll : l.phase = .testing → l.quit_ = false → Moves l .test { l with phase := .polling }
  | polled (activeChannels : List Ch) : l.phase = .polling →
      Moves l (.polled activeChannels) { l with phase := .dispatching activeChannels }
  | doAppendFunctors : l.phase = .dispatching [] → Moves l .doAppendFunctors
      { l with phase := .calling l.appendFunctors, appendFunctors := [] }
  | functorsDone : l.phase = .calling [] → Moves l .functorsDone { l with phase := .testing }

theorem moves_of_move {l m : EventLoop Ch F} {v : Move Ch} (h : l.move v = .ok m) :
    Moves l v m := by
  cases v with
  | loop =>
    simp only [move, loop] at h
    split at h
    · rename_i outside
      split at h
      · cases h
      · rename_i left
        cases h
        exact .loop outside (Bool.eq_false_iff.mpr left)
    · cases h
  | test =>
    simp only [move, test] at h
    split at h
    · rename_i testing
      cases h
      split
      · rename_i quit
        exact .leave testing quit
      · rename_i going
        exact .poll testing (Bool.eq_false_iff.mpr going)
    · cases h
  | polled activeChannels =>
    simp only [move, polled] at h
    split at h
    · rename_i polling
      cases h
      exact .polled activeChannels polling
    · cases h
  | doAppendFunctors =>
    simp only [move, doAppendFunctors] at h
    split at h
    · rename_i handled
      cases h
      exact .doAppendFunctors handled
    · cases h
  | functorsDone =>
    simp only [move, functorsDone] at h
    split at h
    · rename_i called
      cases h
      exact .functorsDone called
    · cases h

/-- No move of the loop loses, adds or reorders a functor, and only between two
rounds of events does one make channels active. -/
theorem move_cases {l m : EventLoop Ch F} {v : Move Ch} (h : l.move v = .ok m) :
    m.queued = l.queued ∧ l.activeChannels = [] ∧ m.activeChannels = v.active := by
  cases moves_of_move h with
  | loop phase => simp [queued, functors, activeChannels, Move.active, phase]
  | leave phase => simp [queued, functors, activeChannels, Move.active, phase]
  | poll phase => simp [queued, functors, activeChannels, Move.active, phase]
  | polled activeChannels phase =>
    simp [queued, functors, EventLoop.activeChannels, Move.active, phase]
  | doAppendFunctors phase => simp [queued, functors, activeChannels, Move.active, phase]
  | functorsDone phase => simp [queued, functors, activeChannels, Move.active, phase]

/-- The only move out of a round of events is the swap, once all are handled. -/
theorem move_dispatching {l m : EventLoop Ch F} {v : Move Ch} {activeChannels : List Ch}
    (dispatching : l.phase = .dispatching activeChannels) (h : l.move v = .ok m) :
    m = { l with phase := .calling l.appendFunctors, appendFunctors := [] } := by
  cases moves_of_move h with
  | doAppendFunctors phase => rfl
  | loop phase => cases dispatching.symm.trans phase
  | leave phase => cases dispatching.symm.trans phase
  | poll phase => cases dispatching.symm.trans phase
  | polled _ phase => cases dispatching.symm.trans phase
  | functorsDone phase => cases dispatching.symm.trans phase

/-- No move is made while there are functors of the batch to call. -/
theorem move_functors {l m : EventLoop Ch F} {v : Move Ch} (h : l.move v = .ok m) :
    l.functors = [] := by
  cases moves_of_move h with
  | loop phase => simp [functors, phase]
  | leave phase => simp [functors, phase]
  | poll phase => simp [functors, phase]
  | polled _ phase => simp [functors, phase]
  | doAppendFunctors phase => simp [functors, phase]
  | functorsDone phase => simp [functors, phase]

end EventLoop

end ZDQ
