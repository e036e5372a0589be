import ThreadAndNet.EchoFailures
import ThreadAndNet.PollerIndex
import ThreadAndNet.ServerPollers

/-!
# The echo server on the pollers of its loops

In `connectDestroyed` a connection leaves the poller of its loop, and where another one that
was closed in the same iteration sits in the last slot, `removeChannel` looks up
`channels_[-1]`. That is the one step that can fail besides a `::write` that returns -1.

A connection never gives up its descriptor, as its close callback keeps it alive; so `fd`
has a descriptor for each channel that no other has.
-/

namespace ZDQ

open Machine

namespace TcpServer

variable {fd : LoopChannel → Nat} {s t : TcpServer} {pollers : Nat → Poller LoopChannel}
  {op : Op} {l c : Nat}

/-- The step calls `connectDestroyed` of connection `c` on loop `l`. -/
def Destroys (s : TcpServer) (l c : Nat) (op : Op) : Prop :=
  ∃ w shutdown loop, op = .functor l w shutdown ∧
    (s.loops l).nextFunctor = .ok (.conn c .connectDestroyed, loop)

/-- A connection that is destroyed is closed already, so it only leaves the poller. -/
theorem Destroys.outcome (alive : Alive s) (destroys : s.Destroys l c op) :
    ∃ e, s.served c = some e ∧
      s.outcome op = some (l, c, .ok (e.track.conn, [.removeChannel])) := by
  obtain ⟨w, shutdown, loop, rfl, hnext⟩ := destroys
  obtain ⟨queued, _, _⟩ := EventLoop.nextFunctor_cases hnext
  have mem : .conn c .connectDestroyed ∈ (s.loops l).queued := by
    rw [queued]
    exact List.mem_cons_self
  obtain ⟨e, he, hl⟩ := alive.located.functor l c _ mem
  have next : (s.life c e).queue.head? = some .connectDestroyed := by
    simp [TcpServer.life, hl, queued]
  have state : e.track.conn.state = .kDisconnected :=
    ((alive.inv he).stage.of_last next).1.state
  refine ⟨e, he, ?_⟩
  simp [TcpServer.outcome, hnext, he, TcpConnection.runFunctor, TcpConnection.connectDestroyed,
    state]

theorem outcome_removes (alive : Alive s) {d : TcpConnection} {calls : List Call}
    (acts : s.outcome op = some (l, c, .ok (d, calls))) (removes : .removeChannel ∈ calls) :
    s.Destroys l c op := by
  rcases outcome_cases acts with ⟨e, conn, he, made, runs⟩ | ⟨sockfd, names, _, _, made⟩
  · obtain ⟨w, shutdown, rfl⟩ :=
      TcpConnection.ConnOp.apply_removes (alive.inv he).wired made.symm removes
    obtain ⟨same, loop, hnext⟩ := runs _ w shutdown rfl
    exact ⟨w, shutdown, loop, same, hnext⟩
  · cases made
    simp at removes

theorem Polled.registered (polled : Polled fd s pollers) (h : s.step op = .ok t)
    (destroys : s.Destroys l c op) : (pollers l).Registered (.server (.conn c)) := by
  obtain ⟨e, _, acts⟩ := destroys.outcome polled.alive
  obtain ⟨r, hr, _⟩ := run_cons_inv (polled.acted h acts).2.1
  exact Poller.registered_of_remove hr

theorem Destroys.notePollers (alive : Alive s) (destroys : s.Destroys l c op) :
    s.notePollers pollers op =
      ((pollers l).removeChannel (.server (.conn c))).map (Function.update pollers l) := by
  obtain ⟨e, _, acts⟩ := destroys.outcome alive
  rw [TcpServer.notePollers, acts]
  dsimp only [run, Poller.note]
  cases (pollers l).removeChannel (.server (.conn c)) <;> rfl

/-- The pollers follow every step that destroys no connection. -/
theorem Polled.note_ok (inj : Function.Injective fd) (polled : Polled fd s pollers)
    (gives : GivesOwn fd s op) (h : s.step op = .ok t) (kept : ∀ l c, ¬ s.Destroys l c op) :
    ∃ pollers', s.notePollers pollers op = .ok pollers' := by
  have noted := step_noted polled.alive.located h
  rw [TcpServer.notePollers]
  cases acts : s.outcome op with
  | none => exact ⟨pollers, rfl⟩
  | some a =>
    obtain ⟨l, c, o⟩ := a
    rw [acts] at noted
    cases noted with
    | @acts _ _ d calls _ =>
      have others : .removeChannel ∉ calls := fun removes =>
        kept l c (outcome_removes polled.alive acts removes)
      obtain ⟨p, hp⟩ := (polled.wf l).run_note_ok inj
        (outcome_concerns polled.onOwn polled.alive gives acts) others (polled.acted h acts).2.1
      simp only [hp]
      exact ⟨_, rfl⟩

/-- The pollers follow every step but one that would move a slot which holds -1. -/
theorem Polled.error_iff (inj : Function.Injective fd) (polled : Polled fd s pollers)
    (gives : GivesOwn fd s op) (h : s.step op = .ok t) {failure : Failure} :
    s.notePollers pollers op = .error failure ↔ failure = .undefined ∧
      ∃ l c, s.Destroys l c op ∧ ¬ (pollers l).MovesLiveSlot (.server (.conn c)) := by
  constructor
  · intro hp
    by_cases destroyed : ∃ l c, s.Destroys l c op
    · obtain ⟨l, c, destroys⟩ := destroyed
      have hc := polled.registered h destroys
      rw [destroys.notePollers polled.alive] at hp
      have dead : ¬ (pollers l).MovesLiveSlot (.server (.conn c)) := by
        intro live
        obtain ⟨q, hq, _⟩ := ((polled.wf l).removeChannel_exact_iff inj hc).mpr live
        rw [hq] at hp
        cases hp
      rw [(polled.wf l).removeChannel_dead hc dead] at hp
      cases hp
      exact ⟨rfl, l, c, destroys, dead⟩
    · obtain ⟨pollers', followed⟩ := polled.note_ok inj gives h
        fun l c destroys => destroyed ⟨l, c, destroys⟩
      cases followed.symm.trans hp
  · rintro ⟨rfl, l, c, destroys, dead⟩
    rw [destroys.notePollers polled.alive,
      (polled.wf l).removeChannel_dead (polled.registered h destroys) dead]
    rfl

end TcpServer

/-! ## The echo server -/

/-- The echo server and the pollers of its loops. -/
structure PolledEcho where
  echo : EchoServer
  pollers : Nat → Poller LoopChannel

namespace PolledEcho

variable {fd : LoopChannel → Nat} {s t : PolledEcho} {op : EchoServer.Op}

def step (s : PolledEcho) (op : EchoServer.Op) : Except Failure PolledEcho :=
  match s.echo.step op with
  | .error e => .error e
  | .ok echo =>
    match s.echo.serverOp op with
    | none => .ok ⟨echo, s.pollers⟩
    | some op => (s.echo.server.notePollers s.pollers op).map (PolledEcho.mk echo)

/-- What loop `l` has in its poller before `loop()`: the constructors of `TimeQueue` and
`EventLoop` enable their channels, and on loop 0 `listen` that of the acceptor. -/
def opened (l : Nat) : List (Poller.Op × LoopChannel) :=
  (.enableReading, .timerfd l) :: (.enableReading, .wakeup l) ::
    if l = 0 then [(.enableReading, .server .acceptor)] else []

def new (fd : LoopChannel → Nat) (name : String) (numThreads : Nat) : PolledEcho where
  echo := .new name numThreads
  pollers l :=
    match run Poller.step (Poller.empty fd) (opened l) with
    | .ok p => p
    -- not with distinct descriptors: `new_pollers`
    | .error _ => Poller.empty fd

/-- `::accept` gives the next connection the descriptor that `fd` has for it. -/
def GivesOwn (fd : LoopChannel → Nat) (s : PolledEcho) : EchoServer.Op → Prop
  | .accept (some sockfd) _ => sockfd = fd (.server (.conn s.echo.server.nextConnTd))
  | _ => True

instance (fd : LoopChannel → Nat) (s : PolledEcho) :
    (op : EchoServer.Op) → Decidable (GivesOwn fd s op)
  | .accept (some sockfd) _ =>
    inferInstanceAs (Decidable (sockfd = fd (.server (.conn s.echo.server.nextConnTd))))
  | .accept none _ => .isTrue trivial
  | .move _ _ => .isTrue trivial
  | .event _ _ _ => .isTrue trivial
  | .functor _ _ _ => .isTrue trivial
  | .clientSends _ _ => .isTrue trivial
  | .clientReads _ _ => .isTrue trivial

/-! ## Runs -/

theorem step_cases (h : s.step op = .ok t) : s.echo.step op = .ok t.echo ∧
    (s.echo.serverOp op = none ∧ t.pollers = s.pollers ∨ ∃ o, s.echo.serverOp op = some o ∧
      s.echo.server.notePollers s.pollers o = .ok t.pollers) := by
  simp only [step] at h
  split at h
  · cases h
  rename_i echo made
  split at h
  · rename_i none
    cases h
    exact ⟨made, .inl ⟨none, rfl⟩⟩
  · rename_i o some
    obtain ⟨pollers, noted, rfl⟩ := map_cases h
    exact ⟨made, .inr ⟨o, some, noted⟩⟩

theorem GivesOwn.server (gives : GivesOwn fd s op) {o : TcpServer.Op}
    (ho : s.echo.serverOp op = some o) : s.echo.server.GivesOwn fd o := by
  cases op with
  | accept sockfd names =>
    cases ho
    cases sockfd with
    | none => trivial
    | some sockfd => exact gives
  | event l revents a =>
    obtain ⟨input, rfl⟩ := EchoServer.serverOp_event ho
    trivial
  | clientSends c bytes => cases ho
  | clientReads c count => cases ho
  | _ =>
    cases ho
    trivial

theorem opened_opens {l : Nat} {a : Poller.Op × LoopChannel} (mem : a ∈ opened l) :
    a.1 = .enableReading ∧ ∀ c, a.2 ≠ .server (.conn c) := by
  simp only [opened, List.mem_cons] at mem
  rcases mem with rfl | rfl | mem
  · exact ⟨rfl, fun c => by simp⟩
  · exact ⟨rfl, fun c => by simp⟩
  · split at mem
    · cases List.mem_singleton.mp mem
      exact ⟨rfl, fun c => by simp⟩
    · cases mem

variable {name : String} {numThreads : Nat}

/-- The channels of the loops are enabled, and no poller knows a connection yet. -/
theorem new_pollers (inj : Function.Injective fd) (l : Nat) :
    run Poller.step (Poller.empty fd) (opened l) = .ok ((new fd name numThreads).pollers l) ∧
      ((new fd name numThreads).pollers l).WF fd ∧
      ∀ c, ((new fd name numThreads).pollers l).registration (.server (.conn c)) = .fresh := by
  have opens : ∀ a ∈ opened l, a.1 ≠ .remove := by
    intro a mem
    rw [(opened_opens mem).1]
    decide
  obtain ⟨p, hp, wf, others⟩ :=
    (Poller.empty_indexed fd).run_ok inj (Poller.WF.empty fd) opens
  have same : (new fd name numThreads).pollers l = p := by simp only [new, hp]
  rw [same]
  refine ⟨hp, wf, fun c => ?_⟩
  rw [others _ fun a mem => (opened_opens mem).2 c]
  rfl

theorem new_polled (inj : Function.Injective fd) :
    (new fd name numThreads).echo.server.Polled fd (new fd name numThreads).pollers := by
  refine ⟨TcpServer.new_alive name numThreads false, ?_, fun l => (new_pollers inj l).2.1,
    fun l c _ => (new_pollers inj l).2.2 c⟩
  intro c e he
  cases he

theorem reached_polled (inj : Function.Injective fd)
    (reached : ReachesBy step (GivesOwn fd) (new fd name numThreads) s) :
    Reaches EchoServer.step (.new name numThreads) s.echo ∧
      s.echo.server.Polled fd s.pollers := by
  have keep : ∀ s op t, Reaches EchoServer.step (.new name numThreads) s.echo ∧
        s.echo.server.Polled fd s.pollers → GivesOwn fd s op → s.step op = .ok t →
      Reaches EchoServer.step (.new name numThreads) t.echo ∧
        t.echo.server.Polled fd t.pollers := by
    rintro s op t ⟨echoed, polled⟩ gives h
    obtain ⟨made, kept⟩ := step_cases h
    refine ⟨echoed.trans (.one op made), ?_⟩
    rcases EchoServer.step_server made with ⟨none, same⟩ | ⟨o, ho, hs⟩
    · rcases kept with ⟨_, pollers⟩ | ⟨o, ho, _⟩
      · rw [same, pollers]
        exact polled
      · cases none.symm.trans ho
    · rcases kept with ⟨none, _⟩ | ⟨o', ho', noted⟩
      · cases none.symm.trans ho
      · cases ho.symm.trans ho'
        exact polled.step inj (gives.server ho) hs noted
  exact reached.keeps keep ⟨.refl _, new_polled inj⟩

/-- The step calls `connectDestroyed` of connection `c` on loop `l`. -/
def Destroys (s : PolledEcho) (l c : Nat) (op : EchoServer.Op) : Prop :=
  ∃ w shutdown loop, op = .functor l w shutdown ∧
    (s.echo.server.loops l).nextFunctor = .ok (.conn c .connectDestroyed, loop)

theorem destroys_of_serverOp {l c : Nat} {o : TcpServer.Op}
    (ho : s.echo.serverOp op = some o) (destroys : s.echo.server.Destroys l c o) :
    s.Destroys l c op := by
  obtain ⟨w, shutdown, loop, rfl, hnext⟩ := destroys
  cases op with
  | functor l w shutdown =>
    cases ho
    exact ⟨w, shutdown, loop, rfl, hnext⟩
  | event l revents a =>
    obtain ⟨input, made⟩ := EchoServer.serverOp_event ho
    cases made
  | _ => cases ho

/-- A failure of the whole is one of the server, or of a poller that has to follow it. -/
theorem step_error {failure : Failure} (h : s.step op = .error failure) :
    s.echo.step op = .error failure ∨
    ∃ echo o, s.echo.step op = .ok echo ∧ s.echo.serverOp op = some o ∧
      s.echo.server.step o = .ok echo.server ∧
      s.echo.server.notePollers s.pollers o = .error failure := by
  cases made : s.echo.step op with
  | error e =>
    simp only [step, made] at h
    cases h
    exact .inl rfl
  | ok echo =>
    rcases EchoServer.step_server made with ⟨none, _⟩ | ⟨o, ho, hs⟩
    · simp only [step, made, none, reduceCtorEq] at h
    · refine .inr ⟨echo, o, rfl, ho, hs, ?_⟩
      simp only [step, made, ho] at h
      cases noted : s.echo.server.notePollers s.pollers o with
      | ok pollers =>
        rw [noted] at h
        cases h
      | error e =>
        rw [noted] at h
        cases h
        rfl

/-- In no run does a thread of the server fail an assertion, exit or touch what is not there,
except that it exits when a `::write` of an echo returns -1, and that `connectDestroyed` of
a connection crashes exactly when `removeChannel` would have to move a slot that holds -1;
what a failing `::accept` does is left open. -/
theorem fails_only_in_write_or_removal (inj : Function.Injective fd)
    (reached : ReachesBy step (GivesOwn fd) (new fd name numThreads) s) :
    (∀ failure, s.step op = .error failure →
      failure = .disabled ∨ (∃ sockfd names, op = .accept sockfd names) ∨
      (∃ l revents a errno, op = .event l revents a ∧ a.write = .failed errno ∧
        failure = .exit "ZDQ::TcpConnection::sendInLoop::write") ∨
      failure = .undefined ∧ ∃ l c, s.Destroys l c op ∧
        ¬ (s.pollers l).MovesLiveSlot (.server (.conn c))) ∧
    ∀ l c, s.Destroys l c op → ¬ (s.pollers l).MovesLiveSlot (.server (.conn c)) →
      s.step op = .error .undefined := by
  obtain ⟨echoed, polled⟩ := reached_polled inj reached
  constructor
  · intro failure h
    rcases step_error h with failed | ⟨echo, o, _, ho, hs, noted⟩
    · rcases EchoServer.fails_only_in_write echoed failed with disabled | accepts | writes
      · exact .inl disabled
      · exact .inr (.inl accepts)
      · exact .inr (.inr (.inl writes))
    · by_cases accepts : ∃ sockfd names, op = .accept sockfd names
      · exact .inr (.inl accepts)
      · have gives : GivesOwn fd s op := by
          cases op with
          | accept sockfd names => exact absurd ⟨sockfd, names, rfl⟩ accepts
          | _ => trivial
        obtain ⟨undefined, l, c, destroys, dead⟩ :=
          (polled.error_iff inj (gives.server ho) hs).mp noted
        exact .inr (.inr (.inr ⟨undefined, l, c, destroys_of_serverOp ho destroys, dead⟩))
  · rintro l c ⟨w, shutdown, loop, rfl, hnext⟩ dead
    obtain ⟨echo, made⟩ :=
      EchoServer.functor_runs (EchoServer.reached_inv echoed) hnext w shutdown
    have hs : s.echo.server.step (.functor l w shutdown) = .ok echo.server := by
      rcases EchoServer.step_server made with ⟨none, _⟩ | ⟨o, ho, hs⟩
      · cases none
      · cases ho
        exact hs
    have gives : s.echo.server.GivesOwn fd (.functor l w shutdown) := trivial
    have noted : s.echo.server.notePollers s.pollers (.functor l w shutdown) =
        .error .undefined :=
      (polled.error_iff inj gives hs).mpr ⟨rfl, l, c, ⟨w, shutdown, loop, rfl, hnext⟩, dead⟩
    simp only [step, made, EchoServer.serverOp, noted]
    rfl

section Schedules

/-- Descriptors for the channels of any number of loops. -/
def descriptor : LoopChannel → Nat
  | .timerfd l => 4 * l
  | .wakeup l => 4 * l + 1
  | .server .acceptor => 2
  | .server (.conn c) => 4 * c + 3

theorem descriptor_injective : Function.Injective descriptor := by
  intro a b same
  rcases a with l | l | _ | c <;> rcases b with k | k | _ | d <;>
    simp only [descriptor, LoopChannel.timerfd.injEq, LoopChannel.wakeup.injEq,
      LoopChannel.server.injEq, ServerChannel.conn.injEq] at same ⊢ <;> omega

/-- Two clients close in one iteration; the older connection is destroyed first. -/
def twoClose : List EchoServer.Op :=
  [.move 0 .loop, .move 0 .test, .move 0 (.polled [.acceptor]), .accept (some 7) TcpServer.names,
    .move 0 .doAppendFunctors, .move 0 .functorsDone, .move 0 .test,
    .move 0 (.polled [.acceptor]), .accept (some 11) TcpServer.names,
    .move 0 .doAppendFunctors, .move 0 .functorsDone, .move 0 .test,
    .move 0 (.polled [.conn 1, .conn 2]), .event 0 POLLIN ⟨some 0, .accepted 0⟩,
    .event 0 POLLIN ⟨some 0, .accepted 0⟩, .move 0 .doAppendFunctors]

set_option maxRecDepth 20000 in
theorem fails_only_in_write_or_removal_twoClose :
    ∃ s, ReachesBy step (GivesOwn descriptor) (new descriptor "echo" 0) s ∧
      (s.pollers 0).pollfds.map (·.fd) = [0, 1, 2, -1, -1] ∧
      s.Destroys 0 1 (.functor 0 (.accepted 0) none) ∧
      s.step (.functor 0 (.accepted 0) none) = .error .undefined := by
  obtain ⟨s, hrun, slots, index, loop, next⟩ : ∃ s,
      run step (new descriptor "echo" 0) twoClose = .ok s ∧
      (s.pollers 0).pollfds.map (·.fd) = [0, 1, 2, -1, -1] ∧
      ((s.pollers 0).chan (.server (.conn 1))).index = 3 ∧
      ∃ loop, (s.echo.server.loops 0).nextFunctor = .ok (.conn 1 .connectDestroyed, loop) :=
    ⟨_, rfl, rfl, rfl, _, rfl⟩
  have reached : ReachesBy step (GivesOwn descriptor) (new descriptor "echo" 0) s :=
    ⟨twoClose, by decide +kernel, hrun⟩
  have destroys : s.Destroys 0 1 (.functor 0 (.accepted 0) none) := ⟨_, _, loop, rfl, next⟩
  have dead : ¬ (s.pollers 0).MovesLiveSlot (.server (.conn 1)) := by
    have length := congrArg List.length slots
    rw [List.length_map] at length
    rintro (atEnd | live)
    · rw [index, length] at atEnd
      cases atEnd
    · have last := congrArg List.getLast? slots
      rw [List.getLast?_map] at last
      obtain ⟨pfd, hpfd, overwritten⟩ := Option.map_eq_some_iff.mp last
      exact live pfd hpfd overwritten
  exact ⟨s, reached, slots, destroys,
    (fails_only_in_write_or_removal descriptor_injective reached).2 0 1 destroys dead⟩

end Schedules

end PolledEcho

end ZDQ
