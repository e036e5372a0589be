import ThreadAndNet.EventLoop
import ThreadAndNet.Machine

/-!
# What keeps the loop from sleeping on a functor

Another thread pushes its functor first and writes to `wakeupFd_` afterwards, so the two
are steps of their own here, as are the two lines of `quit`. The loop's thread makes its
calls before and after `loop()`, in handlers and in functors; from outside `loop()` its
`appendFuncInLoop` does not write.
-/

namespace ZDQ

open Machine

namespace EventLoop

variable {Ch F : Type*}

def dispatching (l : EventLoop Ch F) : Bool :=
  match l.phase with
  | .dispatching _ => true
  | _ => false

/-- The loop's thread runs code that is not the loop's own. -/
def callsOut (l : EventLoop Ch F) : Bool :=
  match l.phase with
  | .testing | .polling => false
  | _ => true

/-- The critical section of `appendFuncInLoop`. -/
def push (l : EventLoop Ch F) (cb : F) : EventLoop Ch F :=
  { l with appendFunctors := l.appendFunctors ++ [cb] }

/-- A call of another thread is its two halves. -/
theorem appendFuncInLoop_halves (l : EventLoop Ch F) (cb : F) :
    l.appendFuncInLoop false cb = (l.push cb).weakFd := rfl

/-- No move writes to or reads from `wakeupFd_`, and only the swap, behind the events,
takes functors out of the queue. -/
theorem move_wakeups {l m : EventLoop Ch F} {v : Move Ch} (h : l.move v = .ok m) :
    m.wakeups = l.wakeups ∧
      (m.appendFunctors = [] ∨
        m.appendFunctors = l.appendFunctors ∧ l.dispatching = false) := by
  cases moves_of_move h with
  | loop phase => exact ⟨rfl, .inr ⟨rfl, by simp [dispatching, phase]⟩⟩
  | leave phase => exact ⟨rfl, .inr ⟨rfl, by simp [dispatching, phase]⟩⟩
  | poll phase => exact ⟨rfl, .inr ⟨rfl, by simp [dispatching, phase]⟩⟩
  | polled _ phase => exact ⟨rfl, .inr ⟨rfl, by simp [dispatching, phase]⟩⟩
  | doAppendFunctors _ => exact ⟨rfl, .inl rfl⟩
  | functorsDone phase => exact ⟨rfl, .inr ⟨rfl, by simp [dispatching, phase]⟩⟩

theorem append_outside {l : EventLoop Ch F} (outside : l.phase = .outside) (cb : F) :
    l.appendFuncInLoop true cb = l.push cb := by
  simp [appendFuncInLoop, callingPendingFunctors, outside, push]

/-- The first two steps of `loop()` lead into `::poll`. -/
theorem poll_of_outside {l : EventLoop Ch F} (outside : l.phase = .outside)
    (left : l.looping = false) :
    ∃ m, l.move .loop = .ok m ∧
      m.move .test = .ok { l with looping := true, quit_ := false, phase := .polling } := by
  refine ⟨{ l with looping := true, quit_ := false, phase := .testing }, ?_, rfl⟩
  simp [move, loop, outside, left]

/-- Who leaves `loop()` may enter it again. -/
def Left (l : EventLoop Ch F) : Prop := l.phase = .outside → l.looping = false

theorem move_left {l m : EventLoop Ch F} {v : Move Ch} (h : l.move v = .ok m) : m.Left := by
  intro outside
  cases moves_of_move h with
  | leave _ => rfl
  | loop _ => cases outside
  | poll _ => cases outside
  | polled _ _ => cases outside
  | doAppendFunctors _ => cases outside
  | functorsDone _ => cases outside

theorem nextChannel_left {l m : EventLoop Ch F} {c : Ch} (h : l.nextChannel = .ok (c, m)) :
    m.Left := by
  obtain ⟨rest, _, rfl⟩ := nextChannel_phase h
  exact fun outside => by cases outside

theorem nextFunctor_left {l m : EventLoop Ch F} {cb : F} (h : l.nextFunctor = .ok (cb, m)) :
    m.Left := by
  obtain ⟨rest, _, rfl⟩ := nextFunctor_phase h
  exact fun outside => by cases outside

theorem Left.append {l : EventLoop Ch F} (left : l.Left) (isInLoopThread : Bool) (cb : F) :
    (l.appendFuncInLoop isInLoopThread cb).Left := by
  simp only [appendFuncInLoop]
  split <;> exact left

theorem move_error {l : EventLoop Ch F} {v : Move Ch} {failure : Failure} (left : l.Left)
    (h : l.move v = .error failure) : failure = .disabled := by
  cases v with
  | loop =>
    simp only [move, loop] at h
    split at h
    · rename_i outside
      rw [left outside] at h
      cases h
    · cases h
      rfl
  | test =>
    simp only [move, test] at h
    split at h <;> cases h
    rfl
  | polled activeChannels =>
    simp only [move, polled] at h
    split at h <;> cases h
    rfl
  | doAppendFunctors =>
    simp only [move, doAppendFunctors] at h
    split at h <;> cases h
    rfl
  | functorsDone =>
    simp only [move, functorsDone] at h
    split at h <;> cases h
    rfl

theorem nextFunctor_error {l : EventLoop Ch F} {failure : Failure}
    (h : l.nextFunctor = .error failure) : failure = .disabled := by
  unfold nextFunctor at h
  split at h <;> cases h
  rfl

end EventLoop

/-- A loop that several threads use. A functor is known by the call that appends it. -/
structure SharedLoop (Ch F : Type*) where
  loop : EventLoop Ch F
  /-- calls of other threads that have pushed their functor and not written yet -/
  appending : List F
  /-- calls of `quit` by other threads that have stored and not written yet -/
  quitting : Nat

namespace SharedLoop

variable {Ch F : Type*}

def new : SharedLoop Ch F := ⟨.new, [], 0⟩

inductive Op (Ch F : Type*) where
  | move (v : EventLoop.Move Ch)
  /-- `handleEvent` of the next channel -/
  | nextChannel
  /-- the call of the next functor -/
  | nextFunctor
  /-- the read callback of the wakeup channel -/
  | handleRead
  /-- `appendFuncInLoop` on the loop's thread -/
  | append (cb : F)
  /-- `quit` on the loop's thread -/
  | quit
  /-- `appendFuncInLoop` on another thread, up to the end of its critical section -/
  | push (cb : F)
  /-- the rest of that call -/
  | pushed (cb : F)
  /-- `quit` on another thread, the store -/
  | store
  /-- the rest of that call -/
  | stored

variable [DecidableEq F]

def step (s : SharedLoop Ch F) : Op Ch F → Except Failure (SharedLoop Ch F)
  | .move v => (s.loop.move v).map (fun l => { s with loop := l })
  | .nextChannel => s.loop.nextChannel.map (fun r => { s with loop := r.2 })
  | .nextFunctor => s.loop.nextFunctor.map (fun r => { s with loop := r.2 })
  | .handleRead => guarded (s.loop.dispatching = true) { s with loop := s.loop.handleRead }
  | .append cb =>
    guarded (s.loop.callsOut = true ∧ cb ∉ s.appending)
      { s with loop := s.loop.appendFuncInLoop true cb }
  | .quit => guarded (s.loop.callsOut = true) { s with loop := s.loop.quit true }
  | .push cb =>
    guarded (cb ∉ s.appending)
      { s with loop := s.loop.push cb, appending := cb :: s.appending }
  | .pushed cb =>
    guarded (cb ∈ s.appending)
      { s with loop := s.loop.weakFd, appending := s.appending.erase cb }
  | .store =>
    .ok { s with loop := { s.loop with quit_ := true }, quitting := s.quitting + 1 }
  | .stored =>
    guarded (0 < s.quitting) { s with loop := s.loop.weakFd, quitting := s.quitting - 1 }

/-- In `::poll` next to a functor whose call has returned, the eventfd can be read. -/
def Awake (s : SharedLoop Ch F) : Prop :=
  s.loop.phase = .polling → (∃ cb ∈ s.loop.appendFunctors, cb ∉ s.appending) →
    s.loop.wakeups ≠ 0

/-- The loop's thread appends outside `loop()` only while the eventfd can be read. -/
def Woken (s : SharedLoop Ch F) : Op Ch F → Prop
  | .append _ => s.loop.phase = .outside → s.loop.wakeups ≠ 0
  | _ => True

/-- Nobody calls anything. -/
def Op.Silent : Op Ch F → Prop
  | .move _ | .nextChannel | .nextFunctor => True
  | _ => False

/-- However the loop goes on by itself, it does not sleep on a functor. -/
def StaysAwake (s : SharedLoop Ch F) : Prop :=
  ∀ more t, (∀ op ∈ more, op.Silent) → run step s more = .ok t → t.Awake

/-- Outside a round of events, only functors whose calls have yet to write are queued next
to an eventfd that cannot be read. -/
structure Inv (s : SharedLoop Ch F) : Prop where
  covered : s.loop.wakeups = 0 → s.loop.dispatching = false →
    ∀ cb ∈ s.loop.appendFunctors, cb ∈ s.appending
  left : s.loop.Left

section Steps
variable {s t : SharedLoop Ch F}

omit [DecidableEq F] in
theorem Inv.awake (inv : Inv s) : s.Awake := by
  rintro polling ⟨cb, queued, returned⟩ none
  have between : s.loop.dispatching = false := by simp [EventLoop.dispatching, polling]
  exact returned (inv.covered none between cb queued)

omit [DecidableEq F] in
theorem Inv.move (inv : Inv s) {v : EventLoop.Move Ch} {l : EventLoop Ch F}
    (h : s.loop.move v = .ok l) : Inv { s with loop := l } := by
  obtain ⟨same, empty | ⟨queue, between⟩⟩ := EventLoop.move_wakeups h
  · refine ⟨fun _ _ cb queued => ?_, EventLoop.move_left h⟩
    simp only [empty] at queued
    exact absurd queued List.not_mem_nil
  · refine ⟨fun none _ cb queued => ?_, EventLoop.move_left h⟩
    simp only [queue] at queued
    exact inv.covered (same.symm.trans none) between cb queued

omit [DecidableEq F] in
/-- An own call appends in a handler, in a functor, or next to a readable eventfd. -/
theorem Inv.append (inv : Inv s) {cb : F} (out : s.loop.callsOut = true)
    (woken : s.loop.phase = .outside → s.loop.wakeups ≠ 0) :
    Inv { s with loop := s.loop.appendFuncInLoop true cb } := by
  cases phase : s.loop.phase with
  | outside =>
    have readable := woken phase
    refine ⟨fun none => absurd none ?_, fun _ => ?_⟩
    · simpa [EventLoop.appendFuncInLoop, EventLoop.callingPendingFunctors, phase] using readable
    · simpa [EventLoop.appendFuncInLoop, EventLoop.callingPendingFunctors, phase] using
        inv.left phase
  | testing => simp [EventLoop.callsOut, phase] at out
  | polling => simp [EventLoop.callsOut, phase] at out
  | dispatching activeChannels =>
    refine ⟨fun _ between => ?_, fun outside => ?_⟩
    · simp [EventLoop.appendFuncInLoop, EventLoop.callingPendingFunctors, EventLoop.dispatching,
        phase] at between
    · simp [EventLoop.appendFuncInLoop, EventLoop.callingPendingFunctors, phase] at outside
  | calling functors =>
    refine ⟨fun none => ?_, fun outside => ?_⟩
    · simp [EventLoop.appendFuncInLoop, EventLoop.callingPendingFunctors, EventLoop.weakFd,
        phase] at none
    · simp [EventLoop.appendFuncInLoop, EventLoop.callingPendingFunctors, EventLoop.weakFd,
        phase] at outside

theorem Inv.step (inv : Inv s) {op : Op Ch F} (woken : s.Woken op) (h : s.step op = .ok t) :
    Inv t := by
  cases op with
  | move v =>
    obtain ⟨l, hmove, rfl⟩ := map_cases h
    exact inv.move hmove
  | nextChannel =>
    obtain ⟨⟨c, l⟩, hnext, rfl⟩ := map_cases h
    obtain ⟨rest, phase, rfl⟩ := EventLoop.nextChannel_phase hnext
    exact ⟨fun _ between => absurd between (by simp [EventLoop.dispatching]), nofun⟩
  | nextFunctor =>
    obtain ⟨⟨cb, l⟩, hnext, rfl⟩ := map_cases h
    obtain ⟨rest, phase, rfl⟩ := EventLoop.nextFunctor_phase hnext
    have between : s.loop.dispatching = false := by simp [EventLoop.dispatching, phase]
    exact ⟨fun none _ => inv.covered none between, nofun⟩
  | handleRead =>
    obtain ⟨dispatching, rfl⟩ := guarded_ok.mp h
    exact ⟨fun _ between => absurd (dispatching.symm.trans between) (by simp), inv.left⟩
  | append cb =>
    obtain ⟨⟨out, _⟩, rfl⟩ := guarded_ok.mp h
    exact inv.append out woken
  | quit =>
    obtain ⟨_, rfl⟩ := guarded_ok.mp h
    exact ⟨inv.covered, inv.left⟩
  | push cb =>
    obtain ⟨_, rfl⟩ := guarded_ok.mp h
    refine ⟨fun none between other queued => ?_, inv.left⟩
    simp only [EventLoop.push, List.mem_append, List.mem_singleton] at queued
    rcases queued with before | rfl
    · exact List.mem_cons_of_mem cb (inv.covered none between other before)
    · exact List.mem_cons_self
  | pushed cb =>
    obtain ⟨_, rfl⟩ := guarded_ok.mp h
    exact ⟨fun none => absurd none (Nat.succ_ne_zero _), inv.left⟩
  | store =>
    cases h
    exact ⟨inv.covered, inv.left⟩
  | stored =>
    obtain ⟨_, rfl⟩ := guarded_ok.mp h
    exact ⟨fun none => absurd none (Nat.succ_ne_zero _), inv.left⟩

omit [DecidableEq F] in
theorem Op.Silent.woken {op : Op Ch F} (silent : op.Silent) (s : SharedLoop Ch F) :
    s.Woken op := by
  cases op with
  | append cb => exact silent.elim
  | _ => trivial

theorem Inv.staysAwake (inv : Inv s) : s.StaysAwake := by
  intro more t silent h
  apply Inv.awake
  apply run_keeps (fun s op t inv (silent : Op.Silent op) h => inv.step (silent.woken s) h) inv
    _ h
  exact along_of_mem (fun op mem _ => silent op mem) s

/-- Behind an own call that finds the eventfd empty, the loop starts and sleeps. -/
theorem asleep_of_append (inv : Inv s) {cb : F} (outside : s.loop.phase = .outside)
    (none : s.loop.wakeups = 0) (h : s.step (.append cb) = .ok t) : ¬ t.StaysAwake := by
  obtain ⟨⟨_, other⟩, rfl⟩ := guarded_ok.mp h
  rw [EventLoop.append_outside outside]
  obtain ⟨m, enters, polls⟩ := EventLoop.poll_of_outside (l := s.loop.push cb) outside
    (inv.left outside)
  have runs : run SharedLoop.step { s with loop := s.loop.push cb } [.move .loop, .move .test] =
      .ok { s with loop := { s.loop.push cb with
        looping := true, quit_ := false, phase := .polling } } := by
    simp only [run, SharedLoop.step, enters, polls, Except.map]
  intro stays
  have awake := stays _ _ (by simp [Op.Silent]) runs
  exact awake rfl ⟨cb, List.mem_append_right _ List.mem_cons_self, other⟩ none

/-- In every state of a run, however the loop goes on by itself, it enters `::poll` next to
a functor whose call has returned only with an eventfd that can be read, exactly if the
loop's thread appends nothing outside `loop()` while the eventfd cannot be read. -/
theorem awake_iff_woken {ops : List (Op Ch F)} (h : run step new ops = .ok s) :
    Throughout step StaysAwake new ops ↔ Along step Woken new ops := by
  refine throughout_iff_along (fun _ _ _ (inv : Inv _) woken => inv.step woken)
    (fun _ inv => inv.staysAwake) ?_ ⟨?_, ?_⟩ h
  · intro s op t inv slept hstep
    cases op with
    | append cb =>
      obtain ⟨outside, readable⟩ := Classical.not_imp.mp slept
      exact asleep_of_append inv outside (Decidable.not_not.mp readable) hstep
    | _ => exact absurd trivial slept
  · intro _ _ cb queued
    exact absurd queued List.not_mem_nil
  · intro _
    rfl

end Steps

/-- The loop's thread appends before it calls `loop()`. -/
def early : List (Op Unit Nat) := [.append 7, .move .loop, .move .test]

theorem asleep_early :
    ∃ s, run step (new : SharedLoop Unit Nat) early = .ok s ∧ s.loop.phase = .polling ∧
      s.loop.appendFunctors = [7] ∧ s.appending = [] ∧ s.loop.wakeups = 0 ∧ ¬ s.Awake := by
  refine ⟨_, rfl, rfl, rfl, rfl, rfl, ?_⟩
  intro awake
  exact awake rfl ⟨7, List.mem_cons_self, List.not_mem_nil⟩ rfl

/-- A handler, a functor and another thread append, and the wake-up is read in between. -/
def busy : List (Op Unit Nat) :=
  [.move .loop, .push 1, .move .test, .pushed 1, .move (.polled [()]), .nextChannel,
    .handleRead, .append 2, .move .doAppendFunctors, .nextFunctor, .append 3, .nextFunctor,
    .move .functorsDone, .move .test]

theorem awake_iff_woken_busy :
    (∃ s, run step (new : SharedLoop Unit Nat) busy = .ok s ∧ s.loop.appendFunctors = [3] ∧
      s.loop.wakeups = 1) ∧
    Throughout step StaysAwake (new : SharedLoop Unit Nat) busy := by
  refine ⟨⟨_, rfl, rfl, rfl⟩, (awake_iff_woken rfl).mpr ?_⟩
  exact ⟨trivial, trivial, trivial, trivial, trivial, trivial, trivial, nofun, trivial, trivial,
    nofun, trivial, trivial, trivial, trivial⟩

end SharedLoop

end ZDQ
