import ThreadAndNet.LoopWakeup

/-!
# A thread with an event loop of its own

`creadLoop` hands its loop out before it calls `loop()`, and `loop()` begins by clearing
`quit_`. A call of `quit` on another thread is two steps: the store to `quit_`, and the
rest of it.
-/

namespace ZDQ

open Machine

/-- Where the new thread is in `creadLoop`. -/
inductive CreadPhase where
  | unstarted
  /-- the loop is not handed out yet -/
  | constructing
  /-- the loop is handed out, `loop()` not called yet -/
  | published
  | looping
  /-- `loop()` has returned -/
  | returned
  | ended
deriving DecidableEq

/-- Where the owner is. -/
inductive OwnerPhase where
  | outside
  /-- in the wait of `startLoop` -/
  | starting
  /-- behind the wait of `startLoop` -/
  | started
  /-- the destructor is about to call `quit` -/
  | destroying
  /-- the `quit` of the destructor has stored -/
  | quitting
  | joining
  | destroyed
deriving DecidableEq

structure EventLoopThread (Ch F : Type*) where
  thread : CreadPhase
  owner : OwnerPhase
  exiting_ : Bool
  /-- the local variable of `creadLoop` -/
  loop : EventLoop Ch F
  /-- `startLoop` has returned the loop -/
  handed : Bool
  /-- calls of `quit` on the loop that have stored and not returned, but the destructor's -/
  storing : Nat
  /-- some call of `quit` has returned -/
  asked : Bool

namespace EventLoopThread

variable {Ch F : Type*}

def new : EventLoopThread Ch F := ⟨.unstarted, .outside, false, .new, false, 0, false⟩

/-- `loop_` is not NULL, and the loop it points to exists. -/
def loop_ (s : EventLoopThread Ch F) : Bool :=
  match s.thread with
  | .published | .looping | .returned => true
  | _ => false

inductive Op (Ch F : Type*) where
  | startLoop
  /-- the owner finds `loop_` set -/
  | startLoopFound
  | startLoopReturn
  /-- the destructor up to its test of `loop_` -/
  | destroy
  /-- the store in its call of `quit` -/
  | destroyQuit
  | destroyQuitReturn
  | destroyJoin
  /-- `creadLoop` up to the end of its critical section -/
  | publish
  | move (v : EventLoop.Move Ch)
  | nextChannel
  | nextFunctor
  /-- `quit` in a handler or in a functor -/
  | loopQuit
  | append (isInLoopThread : Bool) (cb : F)
  /-- the end of `creadLoop` -/
  | leave
  /-- `quit` on the loop that `startLoop` returned, the store -/
  | quit
  | quitReturn

/-- The new thread after a step of the loop. -/
def looped (s : EventLoopThread Ch F) (l : EventLoop Ch F) : EventLoopThread Ch F :=
  { s with
    loop := l
    thread := match l.phase with
      | .outside => .returned
      | _ => .looping }

/-- `creadLoop` calls `loop()` once. -/
def offers (s : EventLoopThread Ch F) : EventLoop.Move Ch → Bool
  | .loop => s.thread = .published
  | _ => s.thread = .looping

/-- A step that needs the object `loop_` points to. -/
def onLoop (s t : EventLoopThread Ch F) : Except Failure (EventLoopThread Ch F) :=
  if s.loop_ then .ok t else .error .undefined

/-- The first line of a call of `quit` on another thread. -/
def store (s : EventLoopThread Ch F) : EventLoopThread Ch F :=
  { s with loop := { s.loop with quit_ := true } }

def step (s : EventLoopThread Ch F) : Op Ch F → Except Failure (EventLoopThread Ch F)
  | .startLoop =>
    if s.owner = .outside then
      -- `assert(!thread_.IsStarted())`
      if s.thread = .unstarted then .ok { s with thread := .constructing, owner := .starting }
      else .error .assertion
    else .error .disabled
  | .startLoopFound =>
    guarded (s.owner = .starting ∧ s.loop_ = true) { s with owner := .started }
  | .startLoopReturn =>
    guarded (s.owner = .started) { s with owner := .outside, handed := s.handed || s.loop_ }
  | .destroy =>
    guarded (s.owner = .outside)
      { s with exiting_ := true, owner := if s.loop_ then .destroying else .destroyed }
  | .destroyQuit =>
    if s.owner = .destroying then s.onLoop { s.store with owner := .quitting }
    else .error .disabled
  | .destroyQuitReturn =>
    if s.owner = .quitting then
      s.onLoop { s with loop := s.loop.weakFd, owner := .joining, asked := true }
    else .error .disabled
  | .destroyJoin =>
    guarded (s.owner = .joining ∧ s.thread = .ended) { s with owner := .destroyed }
  | .publish => guarded (s.thread = .constructing) { s with thread := .published, loop := .new }
  | .move v => if s.offers v then (s.loop.move v).map s.looped else .error .disabled
  | .nextChannel =>
    if s.thread = .looping then s.loop.nextChannel.map (fun r => { s with loop := r.2 })
    else .error .disabled
  | .nextFunctor =>
    if s.thread = .looping then s.loop.nextFunctor.map (fun r => { s with loop := r.2 })
    else .error .disabled
  | .loopQuit =>
    guarded (s.thread = .looping ∧ s.loop.callsOut = true)
      { s with loop := s.loop.quit true, asked := true }
  | .append isInLoopThread cb =>
    guarded (if isInLoopThread then s.thread = .looping ∧ s.loop.callsOut = true
      else s.handed = true ∧ s.loop_ = true)
      { s with loop := s.loop.appendFuncInLoop isInLoopThread cb }
  | .leave => guarded (s.thread = .returned) { s with thread := .ended }
  | .quit =>
    if s.handed then s.onLoop { s.store with storing := s.storing + 1 } else .error .disabled
  | .quitReturn =>
    if 0 < s.storing then
      s.onLoop { s with loop := s.loop.weakFd, storing := s.storing - 1, asked := true }
    else .error .disabled

/-- If some call of `quit` has returned and `loop()` has not, `quit_` is set. -/
def Kept (s : EventLoopThread Ch F) : Prop :=
  s.asked = true → s.thread ≠ .returned → s.thread ≠ .ended → s.loop.quit_ = true

/-- No call of `quit` stores before `loop()` has cleared `quit_`. -/
def Begun (s : EventLoopThread Ch F) : Op Ch F → Prop
  | .quit | .destroyQuit => s.thread ≠ .published
  | _ => True

/-- The loop goes on, and calls of `quit` under way return. -/
def Op.Onward : Op Ch F → Prop
  | .move _ | .nextChannel | .nextFunctor | .leave | .quitReturn | .destroyQuitReturn => True
  | _ => False

/-- However the loop and the calls under way go on, no call is lost. -/
def StaysKept (s : EventLoopThread Ch F) : Prop :=
  ∀ more t, (∀ op ∈ more, op.Onward) → run step s more = .ok t → t.Kept

/-! ## The invariant -/

/-- Some call of `quit` has stored. -/
def Stored (s : EventLoopThread Ch F) : Prop :=
  s.asked = true ∨ 0 < s.storing ∨ s.owner = .quitting

/-- `quit_` is set in `loop()`, or `loop()` is over. -/
def Heard (s : EventLoopThread Ch F) : Prop :=
  match s.thread with
  | .looping => s.loop.quit_ = true
  | .returned | .ended => True
  | _ => False

structure Inv (s : EventLoopThread Ch F) : Prop where
  heard : s.Stored → s.Heard
  fresh : s.thread = .published → s.loop.phase = .outside ∧ s.loop.looping = false

section Steps
variable {s t : EventLoopThread Ch F}

theorem Inv.kept (inv : Inv s) : s.Kept := by
  intro asked running alive
  have heard := inv.heard (.inl asked)
  unfold Heard at heard
  split at heard
  · exact heard
  · rename_i returned
    exact absurd returned running
  · rename_i ended
    exact absurd ended alive
  · exact heard.elim

theorem loop_cases (there : s.loop_ = true) :
    s.thread = .published ∨ s.thread = .looping ∨ s.thread = .returned := by
  unfold loop_ at there
  split at there
  · rename_i published
    exact .inl published
  · rename_i looping
    exact .inr (.inl looping)
  · rename_i returned
    exact .inr (.inr returned)
  · cases there

theorem onLoop_cases {u : EventLoopThread Ch F} (h : s.onLoop u = .ok t) :
    s.loop_ = true ∧ t = u := by
  unfold onLoop at h
  split at h
  · rename_i there
    cases h
    exact ⟨there, rfl⟩
  · cases h

/-- Only `loop()` itself clears `quit_`. -/
theorem move_quit {l m : EventLoop Ch F} {v : EventLoop.Move Ch} (h : l.move v = .ok m)
    (inside : v ≠ .loop) : m.quit_ = l.quit_ := by
  cases EventLoop.moves_of_move h with
  | loop _ => exact absurd rfl inside
  | leave _ => rfl
  | poll _ => rfl
  | polled _ _ => rfl
  | doAppendFunctors _ => rfl
  | functorsDone _ => rfl

/-- Steps that neither thread gets further by. -/
theorem Inv.still (inv : Inv s) (thread : t.thread = s.thread)
    (phase : t.loop.phase = s.loop.phase) (looping : t.loop.looping = s.loop.looping)
    (quit : s.loop.quit_ = true → t.loop.quit_ = true) (stored : t.Stored → s.Stored) :
    Inv t := by
  refine ⟨fun later => ?_, ?_⟩
  · have heard := inv.heard (stored later)
    unfold Heard at heard ⊢
    rw [thread]
    split at heard
    · exact quit heard
    · trivial
    · trivial
    · exact heard.elim
  · rw [thread, phase, looping]
    exact inv.fresh

/-- `quit_` is set, and `loop()` has been called already. -/
theorem inv_of_store (there : s.loop_ = true) (begun : s.thread ≠ .published)
    (thread : t.thread = s.thread) (quit : t.loop.quit_ = true) : Inv t := by
  refine ⟨fun _ => ?_, fun published => absurd (thread.symm.trans published) begun⟩
  unfold Heard
  rw [thread]
  rcases loop_cases there with published | looping | returned
  · exact absurd published begun
  · rw [looping]
    exact quit
  · rw [returned]
    trivial

/-- Before `loop()` nothing has been stored. -/
theorem Inv.unheard (inv : Inv s) (early : ¬ s.Heard) (t : EventLoopThread Ch F)
    (stored : t.Stored → s.Stored) (fresh : t.thread = .published →
      t.loop.phase = .outside ∧ t.loop.looping = false) : Inv t :=
  ⟨fun later => absurd (inv.heard (stored later)) early, fresh⟩

theorem looped_thread (s : EventLoopThread Ch F) (l : EventLoop Ch F) :
    (s.looped l).thread = .looping ∨ (s.looped l).thread = .returned := by
  simp only [looped]
  split
  · exact .inr rfl
  · exact .inl rfl

theorem Inv.move (inv : Inv s) {v : EventLoop.Move Ch} {l : EventLoop Ch F}
    (offers : s.offers v = true) (h : s.loop.move v = .ok l) : Inv (s.looped l) := by
  have past : (s.looped l).thread ≠ .published := by
    rcases looped_thread s l with looping | returned
    · rw [looping]
      nofun
    · rw [returned]
      nofun
  refine ⟨fun stored => ?_, fun published => absurd published past⟩
  have heard := inv.heard stored
  have inside (looping : s.thread = .looping) (ne : v ≠ .loop) : (s.looped l).Heard := by
    have quit : l.quit_ = true := by
      rw [move_quit h ne]
      simpa only [Heard, looping] using heard
    unfold Heard
    rcases looped_thread s l with looping' | returned
    · rw [looping']
      exact quit
    · rw [returned]
      trivial
  cases v with
  | loop =>
    have published : s.thread = .published := of_decide_eq_true offers
    simp only [Heard, published] at heard
  | test => exact inside (of_decide_eq_true offers) nofun
  | polled activeChannels => exact inside (of_decide_eq_true offers) nofun
  | doAppendFunctors => exact inside (of_decide_eq_true offers) nofun
  | functorsDone => exact inside (of_decide_eq_true offers) nofun

theorem append_still (l : EventLoop Ch F) (isInLoopThread : Bool) (cb : F) :
    (l.appendFuncInLoop isInLoopThread cb).phase = l.phase ∧
    (l.appendFuncInLoop isInLoopThread cb).looping = l.looping ∧
    (l.appendFuncInLoop isInLoopThread cb).quit_ = l.quit_ := by
  simp only [EventLoop.appendFuncInLoop]
  split <;> exact ⟨rfl, rfl, rfl⟩

theorem Inv.step (inv : Inv s) {op : Op Ch F} (begun : s.Begun op) (h : s.step op = .ok t) :
    Inv t := by
  cases op with
  | startLoop =>
    simp only [EventLoopThread.step] at h
    split at h
    · rename_i outside
      split at h
      · rename_i unstarted
        cases h
        refine inv.unheard (by simp [Heard, unstarted]) _ ?_ (fun published => ?_)
        · exact Or.imp_right (Or.imp_right nofun)
        · cases published
      · cases h
    · cases h
  | startLoopFound =>
    obtain ⟨_, rfl⟩ := guarded_ok.mp h
    exact inv.still rfl rfl rfl id (Or.imp_right (Or.imp_right nofun))
  | startLoopReturn =>
    obtain ⟨_, rfl⟩ := guarded_ok.mp h
    exact inv.still rfl rfl rfl id (Or.imp_right (Or.imp_right nofun))
  | destroy =>
    obtain ⟨_, rfl⟩ := guarded_ok.mp h
    refine inv.still rfl rfl rfl id (Or.imp_right (Or.imp_right ?_))
    dsimp only
    split <;> nofun
  | destroyQuit =>
    simp only [EventLoopThread.step] at h
    split at h
    · obtain ⟨there, rfl⟩ := onLoop_cases h
      exact inv_of_store there begun rfl rfl
    · cases h
  | destroyQuitReturn =>
    simp only [EventLoopThread.step] at h
    split at h
    · rename_i quitting
      obtain ⟨there, rfl⟩ := onLoop_cases h
      exact inv.still rfl rfl rfl id (fun _ => .inr (.inr quitting))
    · cases h
  | destroyJoin =>
    obtain ⟨_, rfl⟩ := guarded_ok.mp h
    exact inv.still rfl rfl rfl id (Or.imp_right (Or.imp_right nofun))
  | publish =>
    obtain ⟨constructing, rfl⟩ := guarded_ok.mp h
    exact inv.unheard (by simp [Heard, constructing]) _ id (fun _ => ⟨rfl, rfl⟩)
  | move v =>
    simp only [EventLoopThread.step] at h
    split at h
    · rename_i offers
      obtain ⟨l, hmove, rfl⟩ := map_cases h
      exact inv.move offers hmove
    · cases h
  | nextChannel =>
    simp only [EventLoopThread.step] at h
    split at h
    · rename_i looping
      obtain ⟨⟨c, l⟩, hnext, rfl⟩ := map_cases h
      obtain ⟨rest, phase, rfl⟩ := EventLoop.nextChannel_phase hnext
      exact ⟨inv.heard, fun published => absurd (looping.symm.trans published) nofun⟩
    · cases h
  | nextFunctor =>
    simp only [EventLoopThread.step] at h
    split at h
    · rename_i looping
      obtain ⟨⟨cb, l⟩, hnext, rfl⟩ := map_cases h
      obtain ⟨rest, phase, rfl⟩ := EventLoop.nextFunctor_phase hnext
      exact ⟨inv.heard, fun published => absurd (looping.symm.trans published) nofun⟩
    · cases h
  | loopQuit =>
    obtain ⟨⟨looping, _⟩, rfl⟩ := guarded_ok.mp h
    refine inv_of_store (s := s) ?_ ?_ rfl rfl
    · simp [loop_, looping]
    · simp [looping]
  | append isInLoopThread cb =>
    obtain ⟨_, rfl⟩ := guarded_ok.mp h
    obtain ⟨phase, looping, quit⟩ := append_still s.loop isInLoopThread cb
    exact inv.still rfl phase looping quit.trans id
  | leave =>
    obtain ⟨returned, rfl⟩ := guarded_ok.mp h
    exact ⟨fun _ => trivial, nofun⟩
  | quit =>
    simp only [EventLoopThread.step] at h
    split at h
    · obtain ⟨there, rfl⟩ := onLoop_cases h
      exact inv_of_store there begun rfl rfl
    · cases h
  | quitReturn =>
    simp only [EventLoopThread.step] at h
    split at h
    · rename_i under_way
      obtain ⟨there, rfl⟩ := onLoop_cases h
      exact inv.still rfl rfl rfl id (fun _ => .inr (.inl under_way))
    · cases h

theorem Op.Onward.begun {op : Op Ch F} (onward : op.Onward) (s : EventLoopThread Ch F) :
    s.Begun op := by
  cases op with
  | quit => exact onward.elim
  | destroyQuit => exact onward.elim
  | _ => trivial

theorem Inv.staysKept (inv : Inv s) : s.StaysKept := by
  intro more t onward h
  apply Inv.kept
  apply run_keeps (fun s op t inv (onward : Op.Onward op) h => inv.step (onward.begun s) h) inv
    _ h
  exact along_of_mem (fun op mem _ => onward op mem) s

/-- `loop()` clears what was stored before it. -/
theorem lost_of_store (published : s.thread = .published) (fresh : s.loop.phase = .outside)
    (idle : s.loop.looping = false) (asked : s.asked = true) : ¬ s.StaysKept := by
  have offered : s.offers .loop = true := decide_eq_true published
  have begins : s.loop.move .loop =
      .ok { s.loop with looping := true, quit_ := false, phase := .testing } := by
    simp [EventLoop.move, EventLoop.loop, fresh, idle]
  have moves : EventLoopThread.step s (.move .loop) =
      .ok (s.looped { s.loop with looping := true, quit_ := false, phase := .testing }) := by
    show (if s.offers .loop then (s.loop.move .loop).map s.looped else .error .disabled) = _
    rw [if_pos offered, begins]
    rfl
  intro stays
  have kept := stays [.move .loop] _ (by simp [Op.Onward]) (run_cons_ok moves [])
  have running : CreadPhase.looping ≠ .returned := by decide
  have alive : CreadPhase.looping ≠ .ended := by decide
  exact Bool.false_ne_true (kept asked running alive)

theorem StaysKept.step (stays : s.StaysKept) {op : Op Ch F} (onward : op.Onward)
    (h : s.step op = .ok t) : t.StaysKept := by
  intro more u silent runs
  apply stays (op :: more) u
  · rintro other (_ | ⟨_, mem⟩)
    · exact onward
    · exact silent other mem
  · rw [run_cons_ok h]
    exact runs

/-- A call that stored before `loop()` returns before it too. -/
theorem lost_of_return (inv : Inv s) (published : s.thread = .published)
    {u : EventLoopThread Ch F} {op : Op Ch F} (h : u.step op = .ok t) (onward : op.Onward)
    (thread : t.thread = s.thread) (phase : t.loop.phase = s.loop.phase)
    (looping : t.loop.looping = s.loop.looping) (asked : t.asked = true) :
    ¬ u.StaysKept := by
  intro stays
  obtain ⟨fresh, idle⟩ := inv.fresh published
  have lost : ¬ t.StaysKept :=
    lost_of_store (thread.trans published) (phase.trans fresh) (looping.trans idle) asked
  exact lost (stays.step onward h)

theorem lost_of_early (inv : Inv s) {op : Op Ch F} (early : ¬ s.Begun op)
    (h : s.step op = .ok t) : ¬ t.StaysKept := by
  cases op with
  | quit =>
    have published := Decidable.not_not.mp early
    simp only [EventLoopThread.step] at h
    split at h
    · obtain ⟨there, rfl⟩ := onLoop_cases h
      have returns : EventLoopThread.step { s.store with storing := s.storing + 1 }
          (.quitReturn : Op Ch F) = .ok { s with
            loop := { s.loop with quit_ := true }.weakFd, asked := true } := by
        simp [EventLoopThread.step, onLoop, loop_, store, published]
      exact lost_of_return inv published returns trivial rfl rfl rfl rfl
    · cases h
  | destroyQuit =>
    have published := Decidable.not_not.mp early
    simp only [EventLoopThread.step] at h
    split at h
    · obtain ⟨there, rfl⟩ := onLoop_cases h
      have returns : EventLoopThread.step { s.store with owner := .quitting }
          (.destroyQuitReturn : Op Ch F) = .ok { s with
            owner := .joining, loop := { s.loop with quit_ := true }.weakFd, asked := true } := by
        simp [EventLoopThread.step, onLoop, loop_, store, published]
      exact lost_of_return inv published returns trivial rfl rfl rfl rfl
    · cases h
  | _ => exact absurd trivial early

/-- In every state of a run, however the loop and the calls under way go on, `quit_` is set
from the return of a call of `quit` to the return of `loop()`, exactly if no call stores
before `loop()` has cleared `quit_`. -/
theorem kept_iff_begun {ops : List (Op Ch F)} (h : run step new ops = .ok s) :
    Throughout step StaysKept new ops ↔ Along step Begun new ops := by
  refine throughout_iff_along (fun _ _ _ (inv : Inv _) begun => inv.step begun)
    (fun _ inv => inv.staysKept) (fun _ _ _ inv early => lost_of_early inv early) ⟨?_, ?_⟩ h
  · rintro (asked | storing | quitting)
    · cases asked
    · cases storing
    · cases quitting
  · intro published
    cases published

end Steps

/-- The owner asks a running loop to quit and joins its thread. -/
def orderly : List (Op Unit Nat) :=
  [.startLoop, .publish, .move .loop, .move .test, .startLoopFound, .startLoopReturn, .destroy,
    .destroyQuit, .move (.polled []), .move .doAppendFunctors, .destroyQuitReturn,
    .move .functorsDone, .move .test, .leave, .destroyJoin]

theorem kept_iff_begun_orderly :
    (∃ s, run step (new : EventLoopThread Unit Nat) orderly = .ok s ∧ s.owner = .destroyed) ∧
    Throughout step StaysKept (new : EventLoopThread Unit Nat) orderly := by
  refine ⟨⟨_, rfl, rfl⟩, (kept_iff_begun rfl).mpr ?_⟩
  exact ⟨trivial, trivial, trivial, trivial, trivial, trivial, trivial, nofun, trivial, trivial,
    trivial, trivial, trivial, trivial, trivial, trivial⟩

/-- The owner destroys the object before the new thread has called `loop()`. -/
def hasty : List (Op Unit Nat) :=
  [.startLoop, .publish, .startLoopFound, .startLoopReturn, .destroy, .destroyQuit,
    .destroyQuitReturn, .move .loop]

/-- The loop runs on, and the owner waits for the end of its thread. -/
theorem lost_hasty :
    ∃ s, run step (new : EventLoopThread Unit Nat) hasty = .ok s ∧ s.owner = .joining ∧
      s.asked = true ∧ s.thread = .looping ∧ s.loop.quit_ = false ∧ ¬ s.Kept := by
  refine ⟨_, rfl, rfl, rfl, rfl, rfl, ?_⟩
  intro kept
  exact Bool.false_ne_true (kept rfl nofun nofun)

end EventLoopThread

end ZDQ
