import ThreadAndNet.EventLoopThread

/-!
# A loop that was told to quit

From the moment `quit_` is set inside `loop()`, the loop finishes its round and returns. It
enters `::poll` no more, and if it is there, the call of `quit` that set the flag has written
to `wakeupFd_` or is about to.
-/

namespace ZDQ

open Machine

namespace EventLoop

variable {Ch F : Type*}

/-- How many steps of its own the loop takes at most before it returns, if `quit_` is set. -/
def left (l : EventLoop Ch F) : Nat :=
  match l.phase with
  | .outside => 0
  | .testing => 1
  | .calling functors => 2 + functors.length
  | .dispatching activeChannels => 3 + activeChannels.length + l.appendFunctors.length
  | .polling => 4 + l.appendFunctors.length

theorem left_le (l : EventLoop Ch F) :
    l.left ≤ 4 + l.activeChannels.length + l.queued.length := by
  rw [queued, List.length_append]
  cases phase : l.phase <;> simp only [left, activeChannels, functors, phase] <;> omega

/-- With the loop where it was, only new functors count. -/
theorem left_grows {l m : EventLoop Ch F} {n : Nat} (phase : m.phase = l.phase)
    (queue : m.appendFunctors.length ≤ l.appendFunctors.length + n) : m.left ≤ l.left + n := by
  unfold left
  rw [phase]
  split <;> omega

end EventLoop

namespace SharedLoop

variable {Ch F : Type*} {s t : SharedLoop Ch F}

/-- The steps of the loop's thread. -/
def Op.own : Op Ch F → Bool
  | .move _ | .nextChannel | .nextFunctor => true
  | _ => false

/-- How many steps more there are to take behind this one. -/
def Op.brings : Op Ch F → Nat
  | .move (.polled activeChannels) => activeChannels.length
  | .append _ | .push _ => 1
  | _ => 0

def Op.enters : Op Ch F → Bool
  | .move .loop => true
  | _ => false

/-- In `::poll` the eventfd can be read, or a call of `quit` is about to write to it. -/
def QuitHeard (s : SharedLoop Ch F) : Prop :=
  s.loop.phase = .polling → s.loop.quit_ = true → s.loop.wakeups ≠ 0 ∨ 0 < s.quitting

variable [DecidableEq F]

theorem QuitHeard.step (heard : s.QuitHeard) {op : Op Ch F} (h : s.step op = .ok t) :
    t.QuitHeard := by
  cases op with
  | move v =>
    obtain ⟨l, hmove, rfl⟩ := map_cases h
    cases EventLoop.moves_of_move hmove with
    | poll _ open_ =>
      intro _ quit
      exact absurd (open_.symm.trans quit) Bool.false_ne_true
    | _ => exact fun polling => absurd polling nofun
  | nextChannel =>
    obtain ⟨⟨c, l⟩, hnext, rfl⟩ := map_cases h
    obtain ⟨rest, _, rfl⟩ := EventLoop.nextChannel_phase hnext
    exact nofun
  | nextFunctor =>
    obtain ⟨⟨cb, l⟩, hnext, rfl⟩ := map_cases h
    obtain ⟨rest, _, rfl⟩ := EventLoop.nextFunctor_phase hnext
    exact nofun
  | handleRead =>
    obtain ⟨dispatching, rfl⟩ := guarded_ok.mp h
    intro polling
    have polling : s.loop.phase = .polling := polling
    simp [EventLoop.dispatching, polling] at dispatching
  | append cb =>
    obtain ⟨⟨out, _⟩, rfl⟩ := guarded_ok.mp h
    obtain ⟨phase, _, _⟩ := EventLoopThread.append_still s.loop true cb
    intro polling
    simp [EventLoop.callsOut, phase.symm.trans polling] at out
  | quit =>
    obtain ⟨out, rfl⟩ := guarded_ok.mp h
    intro polling
    have polling : s.loop.phase = .polling := polling
    simp [EventLoop.callsOut, polling] at out
  | push cb =>
    obtain ⟨_, rfl⟩ := guarded_ok.mp h
    exact heard
  | pushed cb =>
    obtain ⟨_, rfl⟩ := guarded_ok.mp h
    exact fun _ _ => .inl (Nat.succ_ne_zero _)
  | store =>
    cases h
    exact fun _ _ => .inr (Nat.succ_pos _)
  | stored =>
    obtain ⟨_, rfl⟩ := guarded_ok.mp h
    exact fun _ _ => .inl (Nat.succ_ne_zero _)

/-- Once `quit_` is set it stays so, and the loop enters `::poll` no more. -/
theorem step_quit {op : Op Ch F} (once : op.enters = false) (quit : s.loop.quit_ = true)
    (h : s.step op = .ok t) : t.loop.quit_ = true ∧
      (t.loop.phase = .polling → s.loop.phase = .polling) := by
  cases op with
  | move v =>
    obtain ⟨l, hmove, rfl⟩ := map_cases h
    cases EventLoop.moves_of_move hmove with
    | loop _ _ => cases once
    | poll _ open_ =>
      rw [quit] at open_
      cases open_
    | _ => exact ⟨quit, nofun⟩
  | nextChannel =>
    obtain ⟨⟨c, l⟩, hnext, rfl⟩ := map_cases h
    obtain ⟨rest, _, rfl⟩ := EventLoop.nextChannel_phase hnext
    exact ⟨quit, nofun⟩
  | nextFunctor =>
    obtain ⟨⟨cb, l⟩, hnext, rfl⟩ := map_cases h
    obtain ⟨rest, _, rfl⟩ := EventLoop.nextFunctor_phase hnext
    exact ⟨quit, nofun⟩
  | append cb =>
    obtain ⟨_, rfl⟩ := guarded_ok.mp h
    obtain ⟨phase, _, same⟩ := EventLoopThread.append_still s.loop true cb
    exact ⟨same.trans quit, phase.symm.trans⟩
  | store =>
    cases h
    exact ⟨rfl, id⟩
  | quit =>
    obtain ⟨_, rfl⟩ := guarded_ok.mp h
    exact ⟨rfl, id⟩
  | _ =>
    obtain ⟨_, rfl⟩ := guarded_ok.mp h
    exact ⟨quit, id⟩

/-- Each step of the loop's thread brings it closer to the return. -/
theorem pays_quit {op : Op Ch F} (once : op.enters = false) (quit : s.loop.quit_ = true)
    (h : s.step op = .ok t) : t.loop.left + (op.own).toNat ≤ s.loop.left + op.brings := by
  cases op with
  | move v =>
    obtain ⟨l, hmove, rfl⟩ := map_cases h
    cases EventLoop.moves_of_move hmove with
    | loop _ _ => cases once
    | poll _ open_ =>
      rw [quit] at open_
      cases open_
    | leave phase _ => simp [EventLoop.left, phase, Op.own]
    | polled activeChannels phase =>
      simp only [EventLoop.left, phase, Op.own, Op.brings, Bool.toNat_true]
      omega
    | doAppendFunctors phase =>
      simp only [EventLoop.left, phase, Op.own, Op.brings, Bool.toNat_true, List.length_nil]
      omega
    | functorsDone phase => simp [EventLoop.left, phase, Op.own]
  | nextChannel =>
    obtain ⟨⟨c, l⟩, hnext, rfl⟩ := map_cases h
    obtain ⟨rest, phase, rfl⟩ := EventLoop.nextChannel_phase hnext
    simp only [EventLoop.left, phase, Op.own, Bool.toNat_true, List.length_cons]
    omega
  | nextFunctor =>
    obtain ⟨⟨cb, l⟩, hnext, rfl⟩ := map_cases h
    obtain ⟨rest, phase, rfl⟩ := EventLoop.nextFunctor_phase hnext
    simp only [EventLoop.left, phase, Op.own, Bool.toNat_true, List.length_cons]
    omega
  | append cb =>
    obtain ⟨_, rfl⟩ := guarded_ok.mp h
    obtain ⟨phase, _, _⟩ := EventLoopThread.append_still s.loop true cb
    exact EventLoop.left_grows phase (by simp [Op.brings])
  | push cb =>
    obtain ⟨_, rfl⟩ := guarded_ok.mp h
    exact EventLoop.left_grows rfl (by simp [EventLoop.push, Op.brings])
  | store =>
    cases h
    exact Nat.le_refl _
  | _ =>
    obtain ⟨_, rfl⟩ := guarded_ok.mp h
    exact Nat.le_refl _

/-- Inside `loop()` the next step is always there; `::poll` may report nothing. -/
theorem own_enabled (inside : s.loop.phase ≠ .outside) :
    ∃ op : Op Ch F, op.own ∧ ∃ t, s.step op = .ok t := by
  have moves : ∀ v l, s.loop.move v = .ok l → ∃ op : Op Ch F, op.own ∧ ∃ t, s.step op = .ok t :=
    fun v l made => ⟨.move v, rfl, { s with loop := l }, by rw [step, made]; rfl⟩
  cases phase : s.loop.phase with
  | outside => exact absurd phase inside
  | testing => exact moves .test _ (by rw [EventLoop.move, EventLoop.test, phase])
  | polling => exact moves (.polled []) _ (by rw [EventLoop.move, EventLoop.polled, phase])
  | dispatching activeChannels =>
    cases activeChannels with
    | nil =>
      exact moves .doAppendFunctors _
        (by rw [EventLoop.move, EventLoop.doAppendFunctors, phase])
    | cons c rest =>
      refine ⟨.nextChannel, rfl, { s with loop := { s.loop with phase := .dispatching rest } }, ?_⟩
      rw [step, EventLoop.nextChannel, phase]
      rfl
  | calling functors =>
    cases functors with
    | nil => exact moves .functorsDone _ (by rw [EventLoop.move, EventLoop.functorsDone, phase])
    | cons cb rest =>
      refine ⟨.nextFunctor, rfl, { s with loop := { s.loop with phase := .calling rest } }, ?_⟩
      rw [step, EventLoop.nextFunctor, phase]
      rfl

/-- With `quit_` set inside `loop()`, the loop returns: it takes no more steps than there are
events and functors to handle, and four; it enters `::poll` no more; and in `::poll` it can
read the eventfd or a call of `quit` is about to write to it. -/
theorem quit_returns {labels : List (Op Ch F)} (reached : Reaches step new s)
    (quit : s.loop.quit_ = true) (once : ∀ op ∈ labels, op.enters = false)
    (h : run step s labels = .ok t) :
    labels.countP Op.own ≤
        4 + s.loop.activeChannels.length + s.loop.queued.length + (labels.map Op.brings).sum ∧
      (t.loop.phase = .polling →
        s.loop.phase = .polling ∧ (t.loop.wakeups ≠ 0 ∨ 0 < t.quitting)) ∧
      (t.loop.phase = .outside ∨ ∃ op : Op Ch F, op.own ∧ ∃ u, t.step op = .ok u) := by
  have keep : ∀ (m : SharedLoop Ch F) (op : Op Ch F) (v : SharedLoop Ch F),
      m.loop.quit_ = true ∧ (m.loop.phase = .polling → s.loop.phase = .polling) →
      op.enters = false → m.step op = .ok v →
      v.loop.quit_ = true ∧ (v.loop.phase = .polling → s.loop.phase = .polling) := by
    rintro m op v ⟨set, before⟩ inside made
    obtain ⟨still, polling⟩ := step_quit inside set made
    exact ⟨still, fun now => before (polling now)⟩
  obtain ⟨set, polling⟩ := run_keeps keep ⟨quit, id⟩
    (along_of_mem (fun op mem _ => once op mem) s) h
  have heard : t.QuitHeard := by
    obtain ⟨ops, ran⟩ := reached.trans ⟨labels, h⟩
    exact Reaches.keeps (fun _ _ _ heard made => heard.step made) ⟨ops, ran⟩ nofun
  have stays : ∀ (m : SharedLoop Ch F) (op : Op Ch F) (v : SharedLoop Ch F), op ∈ labels →
      m.loop.quit_ = true → m.step op = .ok v → v.loop.quit_ = true :=
    fun m op v mem set made => (step_quit (once op mem) set made).1
  have bounded := run_pays (fun m => m.loop.left) Op.own Op.brings stays
    (fun m op v mem set made => pays_quit (once op mem) set made) quit h
  have most := s.loop.left_le
  refine ⟨by omega, fun now => ⟨polling now, heard now set⟩, ?_⟩
  by_cases outside : t.loop.phase = .outside
  · exact .inl outside
  · exact .inr (own_enabled outside)

/-- Another thread stores while the loop is in `::poll`, and a functor comes before it writes. -/
def storedInPoll : List (Op Unit Nat) := [.move .loop, .move .test, .store, .push 1]

def comesBack : List (Op Unit Nat) :=
  [.stored, .move (.polled [()]), .nextChannel, .handleRead, .pushed 1, .move .doAppendFunctors,
    .nextFunctor, .move .functorsDone, .move .test]

theorem quit_returns_storedInPoll :
    ∃ s t, run step (new : SharedLoop Unit Nat) storedInPoll = .ok s ∧
      run step s comesBack = .ok t ∧ t.loop.phase = .outside ∧
      comesBack.countP Op.own ≤ 4 + s.loop.activeChannels.length + s.loop.queued.length + 1 := by
  obtain ⟨s, t, ran, back, quit, outside⟩ : ∃ s t,
      run step (new : SharedLoop Unit Nat) storedInPoll = .ok s ∧ run step s comesBack = .ok t ∧
      s.loop.quit_ = true ∧ t.loop.phase = .outside := ⟨_, _, rfl, rfl, rfl, rfl⟩
  have returns := quit_returns ⟨storedInPoll, ran⟩ quit (by simp [comesBack, Op.enters]) back
  exact ⟨s, t, ran, back, outside, returns.1⟩

end SharedLoop

end ZDQ
