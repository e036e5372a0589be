import ThreadAndNet.EchoRuns
import ThreadAndNet.LoopWakeup

/-!
# How an echo server can go down

Its own threads never fail an assertion and never use what is gone: the slot of a
channel is in the poller until `connectDestroyed` takes it out, every call that
needs the loop's thread is made on it, and every buffer is asked for what it has.
What remains is a `::write` that returns -1.
-/

namespace ZDQ

open Machine

namespace TcpConnection

/-- Only `connectDestroyed` takes a channel out of the poller. -/
theorem ConnOp.apply_removes {c d : TcpConnection} (wired : c.Wired) {op : ConnOp}
    {calls : List Call} (h : op.apply c = .ok (d, calls)) (removes : .removeChannel ∈ calls) :
    ∃ w shutdown, op = .functor .connectDestroyed w shutdown := by
  cases op with
  | functor f w shutdown =>
    cases f with
    | connectDestroyed => exact ⟨w, shutdown, rfl⟩
    | connectEstablished =>
      simp only [ConnOp.apply, runFunctor, connectEstablished] at h
      split at h
      · cases h
        simp at removes
      · cases h
    | sendInLoop message => exact ((sendInLoop_outputOnly h).calls _ removes).elim
    | shutdownInLoop => exact ((shutdownInLoop_outputOnly h).calls _ removes).elim
    | forceCloseInLoop =>
      simp only [ConnOp.apply, runFunctor, forceCloseInLoop] at h
      split at h
      · cases h
        simp at removes
      · cases h
        cases removes
    | writeCompleteCallback =>
      cases h
      cases removes
  | user inLoop u => exact ((userCall_userOnly h).calls _ removes).elim
  | event revents input =>
    rcases handleEvent_cases wired h with h | ⟨_, rfl⟩
    · obtain ⟨inputBuf, ⟨more, hd, rfl⟩ | hclose | ⟨_, rfl⟩⟩ := handleRead_cases h
      · rcases List.mem_cons.mp removes with other | mem
        · cases other
        · exact ((userCalls_userOnly hd).calls _ mem).elim
      · cases hclose
        simp at removes
      · cases removes
    · cases removes

end TcpConnection

/-! ## The slot of a connection -/

/-- What has an index has a slot. -/
def Registration.Sound (r : Registration) : Prop := r.indexed = true → r.slot ≠ none

theorem Registration.fresh_sound : fresh.Sound := nofun

theorem Registration.Sound.update {r : Registration} (sound : r.Sound) (ch : Channel) :
    ∃ r', r.update ch = .ok r' ∧ r'.Sound := by
  rw [Registration.update]
  split
  · rename_i indexed
    cases hslot : r.slot with
    | none => exact absurd hslot (sound indexed)
    | some pfd => exact ⟨_, rfl, fun _ => Option.some_ne_none _⟩
  · exact ⟨_, rfl, fun _ => Option.some_ne_none _⟩

namespace Life

variable {base own : Nat} {thread : Option Nat} {v w x : Life}

/-- The slot stays until the connection is destroyed. -/
def Slotted (own : Nat) (v : Life) : Prop :=
  .connectDestroyed own ∈ v.track.history ∨ v.track.registration.Sound

/-- What every call but `removeChannel` keeps. -/
structure Keeps (v w : Life) : Prop where
  sound : v.track.registration.Sound → w.track.registration.Sound
  history : ∀ h ∈ v.track.history, h ∈ w.track.history

theorem Keeps.refl (v : Life) : Keeps v v := ⟨id, fun _ => id⟩

theorem Keeps.trans (h : Keeps v w) (h' : Keeps w x) : Keeps v x :=
  ⟨fun sound => h'.sound (h.sound sound), fun a mem => h'.history a (h.history a mem)⟩

theorem Keeps.slotted (h : Keeps v w) (slotted : Slotted own v) : Slotted own w :=
  slotted.imp (h.history _) h.sound

theorem perform_keeps {call : Call} (other : call ≠ .removeChannel)
    (h : perform base own thread v call = .ok w) : Keeps v w := by
  cases call with
  | removeChannel => exact absurd rfl other
  | update ch =>
    obtain ⟨r, hr, rfl⟩ := perform_update h
    refine ⟨fun sound => ?_, fun _ => id⟩
    obtain ⟨r', hr', sound'⟩ := sound.update ch
    cases hr.symm.trans hr'
    exact sound'
  | closeCallback =>
    simp only [perform, Track.note, Except.ok.injEq] at h
    split at h
    · subst h
      refine ⟨id, fun a mem => ?_⟩
      simp [remove, Track.see, mem]
    · subst h
      refine ⟨id, fun a mem => ?_⟩
      simp [Track.see, mem]
  | connCallback connected =>
    cases h
    exact ⟨id, fun a mem => List.mem_append_left _ mem⟩
  | messageCallback =>
    cases h
    exact ⟨id, fun a mem => List.mem_append_left _ mem⟩
  | _ =>
    cases h
    exact ⟨id, fun _ => id⟩

theorem act_keeps {o : TcpConnection.Outcome}
    (others : ∀ d calls, o = .ok (d, calls) → .removeChannel ∉ calls)
    (h : act base own thread v o = .ok w) : Keeps v w := by
  obtain ⟨conn, calls, made, hrun⟩ := act_cases h
  have moved : Keeps v { v with track := { v.track with conn := conn } } := ⟨id, fun _ => id⟩
  refine moved.trans (run_relates (R := Keeps) Keeps.refl Keeps.trans ?_ hrun)
  intro v call w mem performed
  refine perform_keeps ?_ performed
  rintro rfl
  exact others conn calls made mem

theorem Slotted.act {o : TcpConnection.Outcome} (slotted : Slotted own v)
    (others : ∀ d calls, o = .ok (d, calls) → .removeChannel ∉ calls)
    (h : Life.act base own thread v o = .ok w) : Slotted own w :=
  (act_keeps others h).slotted slotted

theorem Slotted.step (slotted : Slotted own v) (wired : v.track.conn.Wired) {op : Op}
    (h : Life.step base own v op = .ok w) : Slotted own w := by
  cases op with
  | functor wr shutdown =>
    simp only [Life.step] at h
    split at h
    · cases h
    · rename_i f rest queue
      split at h
      · cases h
      · by_cases last : f = .connectDestroyed
        · subst last
          refine .inl ((act_history h).subset ?_)
          simp [Track.starts, Track.see]
        · have begun : Slotted own { v with queue := rest, track := v.track.starts own f } := by
            refine slotted.imp (fun mem => ?_) (fun sound => ?_)
            · cases f <;> simp [Track.starts, Track.see, mem]
            · cases f <;> exact sound
          refine begun.act (fun d calls made removes => ?_) h
          have applied : (TcpConnection.ConnOp.functor f wr shutdown).apply _ = .ok (d, calls) :=
            made
          obtain ⟨_, _, same⟩ := TcpConnection.ConnOp.apply_removes wired applied removes
          cases same
          exact last rfl
  | event revents input =>
    simp only [Life.step] at h
    split at h
    · have begun : Slotted own { v with active := false, track := v.track.see .event } :=
        slotted.imp_left (List.mem_append_left _)
      refine begun.act (fun d calls made removes => ?_) h
      have applied : (TcpConnection.ConnOp.event revents input).apply _ = .ok (d, calls) := made
      obtain ⟨_, _, same⟩ := TcpConnection.ConnOp.apply_removes wired applied removes
      cases same
    · cases h
  | poll =>
    simp only [Life.step] at h
    split at h
    · cases h
      exact slotted
    · cases h
  | user thread u =>
    refine slotted.act (fun d calls made removes => ?_) h
    exact ((TcpConnection.userCall_userOnly made).calls _ removes).elim
  | remove =>
    simp only [Life.step] at h
    split at h
    · cases h
    · cases h
      exact slotted.imp_left (List.mem_append_left _)

theorem reached_slotted {sockfd : Nat} {wc : Bool}
    (reached : Reaches (Life.step base own) (start sockfd wc) v) : Slotted own v := by
  have keep : ∀ v op w, v.track.conn.Wired ∧ Slotted own v → Life.step base own v op = .ok w →
      w.track.conn.Wired ∧ Slotted own w :=
    fun v op w both h => ⟨step_wired both.1 h, both.2.step both.1 h⟩
  exact (reached.keeps keep ⟨rfl, .inr Registration.fresh_sound⟩).2

end Life

/-! ## Calls on the own thread succeed -/

namespace TcpServer

variable {s t : TcpServer} {c : Nat} {e : Served}

/-- The connection is served on this loop, and its slot is as its index says. -/
def Ready (s : TcpServer) (l c : Nat) : Prop :=
  ∃ e, s.served c = some e ∧ e.loop = l ∧ e.track.registration.Sound

theorem ready_put (s : TcpServer) (c : Nat) {l : Nat} (loop : e.loop = l) (track : Track)
    (sound : track.registration.Sound) : Ready (s.put c { e with track := track }) l c :=
  ⟨_, served_put_self .., loop, sound⟩

theorem Ready.append {l : Nat} (ready : Ready s l c) (thread : Option Nat) (k : Nat)
    (cb : ServerFunctor) : Ready (s.append thread k cb) l c := ready

theorem removeConnection_total {l : Nat} (ready : Ready s l c) :
    ∃ t, s.removeConnection (some l) c = .ok t ∧ Ready t l c := by
  obtain ⟨e, he, loop, sound⟩ := ready
  by_cases base : l = 0
  · subst base
    rw [removeConnection, if_pos rfl, removeConnectionInLoop, if_pos rfl, he]
    refine ⟨_, rfl, Ready.append ?_ _ _ _⟩
    exact ready_put _ c loop (e.track.see (.removed 0)) sound
  · rw [removeConnection, if_neg (by simp [base])]
    exact ⟨_, rfl, Ready.append ⟨e, he, loop, sound⟩ _ _ _⟩

theorem perform_total {l : Nat} (ready : Ready s l c) {call : Call}
    (other : call ≠ .removeChannel) : ∃ t, s.perform (some l) c call = .ok t ∧ Ready t l c := by
  obtain ⟨e, he, loop, sound⟩ := ready
  have own : (some l == some e.loop) = true := by simp [loop]
  simp only [perform, he, own]
  cases call with
  | removeChannel => exact absurd rfl other
  | update ch =>
    obtain ⟨r, hr, sound'⟩ := sound.update ch
    simp only [Track.note, Track.onPoller, if_true, hr]
    exact ⟨_, rfl, ready_put s c loop _ sound'⟩
  | append f => exact ⟨_, rfl, (ready_put s c loop _ sound).append _ _ _⟩
  | closeCallback => exact removeConnection_total (ready_put s c loop _ sound)
  | _ => exact ⟨_, rfl, ready_put s c loop _ sound⟩

theorem run_perform_total {l : Nat} {calls : List Call} (ready : Ready s l c)
    (others : .removeChannel ∉ calls) : ∃ t, run (perform (some l) c) s calls = .ok t := by
  induction calls generalizing s with
  | nil => exact ⟨s, rfl⟩
  | cons call rest ih =>
    have first : call ≠ .removeChannel := fun same => others (same ▸ List.mem_cons_self)
    obtain ⟨m, hm, ready'⟩ := perform_total ready first
    rw [run_cons_ok hm]
    exact ih ready' fun mem => others (List.mem_cons_of_mem call mem)

theorem act_error {thread : Option Nat} (he : s.served c = some e) (failure : Failure) :
    s.act thread c (.error failure) = .error failure := by
  rw [act, he]

/-- A member function that returns, on the connection's own thread, is carried out. -/
theorem act_total {l : Nat} (ready : Ready s l c) {d : TcpConnection} {calls : List Call}
    (others : .removeChannel ∉ calls) : ∃ t, s.act (some l) c (.ok (d, calls)) = .ok t := by
  obtain ⟨e, he, loop, sound⟩ := ready
  simp only [act, he]
  exact run_perform_total (ready_put s c loop _ sound) others

end TcpServer

/-! ## What can fail -/

namespace TcpConnection

variable {c : TcpConnection} {w : Wire} {f : Failure}

/-- The message of the `ERR_EXIT` in `sendInLoop`. -/
def writeExit : Failure := .exit "ZDQ::TcpConnection::sendInLoop::write"

theorem failed_of_returned {wr : WriteResult} {offered : List UInt8}
    (h : wr.returned offered = -1) : ∃ errno, wr = .failed errno := by
  cases wr with
  | failed errno => exact ⟨errno, rfl⟩
  | accepted count =>
    rw [WriteResult.returned] at h
    omega

theorem Echoing.onMessage_error (h : c.Echoing w) (connected : c.state = .kConnected)
    {r : Buffer} (fronted : r.Fronted) {wr : WriteResult}
    (hd : { c with inputBuf := r }.userCalls (TcpConnection.onMessage r wr) = .error f) :
    f = writeExit ∧ ∃ errno, wr = .failed errno := by
  obtain ⟨rest, hrest, _, _⟩ := fronted.retrieveAll
  rcases andThen_eq_error.mp hd with failed | ⟨m, first, hm, failed⟩
  · simp only [userCall, hrest, reduceCtorEq] at failed
  · simp only [userCall, hrest, Except.ok.injEq, Prod.mk.injEq] at hm
    obtain ⟨rfl, rfl⟩ := hm
    rcases andThen_eq_error.mp failed with failed | ⟨m, first, _, failed⟩
    · simp only [userCall, send, connected, if_true] at failed
      rcases sendInLoop_spec (c := { c with inputBuf := rest, state := .kConnected })
          (h.pending (by rw [connected]; decide)) (tailFits_of_short _ fronted.short wr) with
        ⟨d, calls, hd, _⟩ | ⟨_, returned, hexit⟩
      · cases failed.symm.trans hd
      · cases failed.symm.trans hexit
        exact ⟨rfl, failed_of_returned returned⟩
    · cases failed

theorem Echoing.handleRead_error (h : c.Echoing w) (connected : c.state = .kConnected)
    {a : EchoAnswers} (hd : c.handleRead (c.echoInput w a) = .error f) :
    f = writeExit ∧ ∃ errno, a.write = .failed errno := by
  cases havail : a.available with
  | none =>
    have read : c.inputBuf.readFd (w.readv a) = .ok (-1, c.inputBuf) := by
      rw [Wire.readv, havail, Buffer.readFd]
    simp only [TcpConnection.handleRead, echoInput, read] at hd
    cases hd
  | some count =>
    obtain ⟨r, hread, _, fronted⟩ := h.input.readFd h.empty (w.toServer.take count)
    have read : c.inputBuf.readFd (w.readv a) = .ok ((r.readable.length : Nat), r) := by
      rw [Wire.readv, havail, hread]
    simp only [TcpConnection.handleRead, echoInput, read] at hd
    split at hd
    · rcases andThen_eq_error.mp hd with failed | ⟨m, first, hm, failed⟩
      · cases failed
      · cases hm
        exact h.onMessage_error connected fronted failed
    · split at hd
      · cases hd
      · cases hd

end TcpConnection

namespace Life

variable {base own : Nat} {v : Life}

theorem Stage.of_first (stage : Stage base own v)
    (next : v.queue.head? = some .connectEstablished) :
    v.track.conn.state = .kConnecting ∧ v.track.registration = .fresh := by
  have mem := List.mem_of_mem_head? next
  cases stage with
  | accepted connecting fresh => exact ⟨connecting, fresh⟩
  | up _ _ _ _ working => exact absurd mem working.1
  | closed _ _ _ working => exact absurd mem working.1
  | removed _ ahead behind _ _ queue hahead hbehind =>
    rw [queue] at mem
    simp [hahead.1, hbehind.1] at mem
  | destroyed _ _ _ working => exact absurd mem working.1

theorem Stage.not_destroyed (stage : Stage base own v)
    (live : v.track.conn.state = .kConnected ∨ v.track.conn.state = .kDisconnecting) :
    .connectDestroyed own ∉ v.track.history := by
  obtain ⟨traffic, ht, _, _, _, trace⟩ := stage.of_live live
  rw [trace]
  intro told
  rcases List.mem_append.mp told with begun | told
  · simp [opening] at begun
  · rcases ht _ told with same | same <;> cases same

/-- When `connectDestroyed` is about to run, it has not run yet. -/
theorem Stage.of_last (stage : Stage base own v)
    (next : v.queue.head? = some .connectDestroyed) :
    Down v ∧ .connectDestroyed own ∉ v.track.history := by
  have mem := List.mem_of_mem_head? next
  cases stage with
  | accepted _ _ queue =>
    rw [queue] at mem
    simp at mem
  | up _ _ _ _ working => exact absurd mem working.2
  | closed _ _ _ working => exact absurd mem working.2
  | removed traffic _ _ ht down _ _ _ _ trace =>
    refine ⟨down, fun told => ?_⟩
    rw [trace] at told
    simp only [opening, List.mem_append, List.mem_cons, List.not_mem_nil, or_false,
      reduceCtorEq, or_self, false_or] at told
    rcases ht _ told with same | same <;> cases same
  | destroyed _ _ _ working => exact absurd mem working.2

end Life

namespace TcpServer

variable {s : TcpServer} {c : Nat} {e : Served}

/-- A functor that an echoing connection is given runs to its end. -/
theorem runConn_total (inv : Life.Inv 0 e.loop (s.life c e))
    (slotted : Life.Slotted e.loop (s.life c e)) {f : ConnFunctor}
    (plain : TcpConnection.Plain f) (next : (s.life c e).queue.head? = some f)
    {m : TcpServer} (he : m.served c = some e) (w : WriteResult) (shutdown : Status) :
    ∃ t, m.runConn e.loop c f w shutdown = .ok t := by
  simp only [runConn, he]
  rcases plain with rfl | rfl | rfl
  · obtain ⟨connecting, fresh⟩ := inv.stage.of_first next
    have state : e.track.conn.state = .kConnecting := connecting
    have sound : e.track.registration.Sound := by
      have fresh : e.track.registration = .fresh := fresh
      rw [fresh]
      exact Registration.fresh_sound
    simp only [TcpConnection.runFunctor, TcpConnection.connectEstablished, state, if_true]
    refine act_total
      (ready_put m c rfl (e.track.starts e.loop .connectEstablished) sound) ?_
    simp
  · obtain ⟨down, early⟩ := inv.stage.of_last next
    have state : e.track.conn.state = .kDisconnected := down.state
    obtain ⟨pfd, hslot⟩ := Option.ne_none_iff_exists'.mp
      ((slotted.resolve_left early) down.indexed)
    have slot : e.track.registration.slot = some pfd := hslot
    simp only [TcpConnection.runFunctor, TcpConnection.connectDestroyed, state, reduceCtorEq,
      if_false, act, served_put_self, run, perform, Track.note, Track.onPoller, beq_self_eq_true,
      if_true, Registration.remove, Track.starts, Track.see, slot]
    exact ⟨_, rfl⟩
  · simp only [TcpConnection.runFunctor, act, served_put_self, run_nil]
    exact ⟨_, rfl⟩

/-- No thread would enter its loop a second time. -/
def Left (s : TcpServer) : Prop := ∀ l, (s.loops l).Left

variable {t : TcpServer}

theorem Left.onLoop (left : Left s) (l : Nat) {loop : EventLoop ServerChannel ServerFunctor}
    (h : loop.Left) : Left (s.onLoop l loop) := by
  intro k
  rw [loops_onLoop]
  split
  · exact h
  · exact left k

theorem Left.append (left : Left s) (thread : Option Nat) (l : Nat) (cb : ServerFunctor) :
    Left (s.append thread l cb) :=
  left.onLoop l ((left l).append _ cb)

theorem Left.removeConnectionInLoop (left : Left s) {thread : Option Nat}
    (h : s.removeConnectionInLoop thread c = .ok t) : Left t := by
  obtain ⟨e, _, rfl⟩ := removeConnectionInLoop_cases h
  have kept : Left (({ s with conns := Function.update s.conns e.name none }.put c
      { e with track := e.track.see (.removed 0) })) := left
  exact kept.append thread e.loop _

theorem Left.perform (left : Left s) {thread : Option Nat} {call : Call}
    (h : s.perform thread c call = .ok t) : Left t := by
  rw [TcpServer.perform] at h
  split at h
  · cases h
  rename_i e he
  split at h
  · cases h
  rename_i track htrack
  have noted : Left (s.put c { e with track := track }) := left
  cases call with
  | append f =>
    cases h
    exact noted.append thread e.loop _
  | closeCallback =>
    simp only [TcpServer.removeConnection] at h
    split at h
    · exact noted.removeConnectionInLoop h
    · cases h
      exact noted.append thread 0 _
  | _ =>
    cases h
    exact noted

theorem Left.act (left : Left s) {thread : Option Nat} {o : TcpConnection.Outcome}
    (h : s.act thread c o = .ok t) : Left t := by
  rw [TcpServer.act] at h
  split at h
  · cases h
  rename_i e he
  split at h
  · cases h
  rename_i conn calls
  have moved : Left (s.put c { e with track := { e.track with conn := conn } }) := left
  exact Reaches.keeps (fun _ _ _ kept hcall => kept.perform hcall) ⟨calls, h⟩ moved

theorem Left.runConn (left : Left s) {l : Nat} {f : ConnFunctor} {w : WriteResult}
    {shutdown : Status} (h : s.runConn l c f w shutdown = .ok t) : Left t := by
  rw [TcpServer.runConn] at h
  split at h
  · cases h
  rename_i e he
  have begun : Left (s.put c { e with track := e.track.starts l f }) := left
  exact begun.act h

theorem Left.step (left : Left s) {op : Op} (h : s.step op = .ok t) : Left t := by
  cases op with
  | move l v =>
    simp only [TcpServer.step] at h
    split at h
    · cases h
    rename_i loop moved
    split at h
    · cases h
      exact left.onLoop l (EventLoop.move_left moved)
    · cases h
  | accept sockfd names =>
    simp only [TcpServer.step] at h
    split at h
    · rename_i loop hnext
      split at h
      · cases h
      obtain ⟨_, conns, next, e, _, _, h⟩ := newConnection_cases h
      have taken : Left (s.onLoop 0 loop) := left.onLoop 0 (EventLoop.nextChannel_left hnext)
      have made : Left ((s.onLoop 0 loop).created conns next e) := taken
      rcases h with ⟨_, h⟩ | ⟨_, rfl⟩
      · exact made.runConn h
      · exact made.append (some 0) e.loop _
    · cases h
  | event l revents input =>
    simp only [TcpServer.step] at h
    split at h
    · rename_i d loop hnext
      split at h
      · cases h
      rename_i e he
      have taken : Left (s.onLoop l loop) := left.onLoop l (EventLoop.nextChannel_left hnext)
      have seen : Left ((s.onLoop l loop).put d { e with track := e.track.see .event }) := taken
      exact seen.act h
    · cases h
  | functor l w shutdown =>
    simp only [TcpServer.step] at h
    split at h
    · cases h
    · rename_i d f loop hnext
      have taken : Left (s.onLoop l loop) := left.onLoop l (EventLoop.nextFunctor_left hnext)
      exact taken.runConn h
    · rename_i d loop hnext
      have taken : Left (s.onLoop l loop) := left.onLoop l (EventLoop.nextFunctor_left hnext)
      exact taken.removeConnectionInLoop h
  | user thread d u =>
    simp only [TcpServer.step] at h
    split at h
    · cases h
    · exact left.act h
  | hold d =>
    simp only [TcpServer.step] at h
    split at h
    · cases h
    · cases h
      exact left
  | release d =>
    simp only [TcpServer.step] at h
    split at h
    · cases h
    split at h
    · cases h
    · cases h
      exact left

end TcpServer

namespace EchoServer

open TcpServer

variable {s t : EchoServer} {failure : Failure}

/-- The step of the server that a step of the whole is. -/
def serverOp (s : EchoServer) : Op → Option TcpServer.Op
  | .move l v => some (.move l v)
  | .accept sockfd names => some (.accept sockfd names)
  | .event l revents answers =>
    match (s.server.loops l).nextChannel with
    | .ok (.conn c, _) =>
      (s.server.served c).map fun e =>
        .event l revents (e.track.conn.echoInput (s.wires c) answers)
    | _ => none
  | .functor l w shutdown => some (.functor l w shutdown)
  | .clientSends _ _ => none
  | .clientReads _ _ => none

theorem serverOp_event {l : Nat} {revents : BitVec 32} {answers : EchoAnswers}
    {o : TcpServer.Op} (ho : s.serverOp (.event l revents answers) = some o) :
    ∃ input, o = .event l revents input := by
  simp only [serverOp] at ho
  split at ho
  · obtain ⟨e, _, made⟩ := Option.map_eq_some_iff.mp ho
    exact ⟨_, made.symm⟩
  · cases ho

theorem step_server {op : Op} (h : s.step op = .ok t) :
    s.serverOp op = none ∧ t.server = s.server ∨
    ∃ o, s.serverOp op = some o ∧ s.server.step o = .ok t.server := by
  cases op with
  | move l v =>
    obtain ⟨server, made, rfl⟩ := serverStep_cases h
    exact .inr ⟨_, rfl, made⟩
  | accept sockfd names =>
    obtain ⟨server, made, rfl⟩ := serverStep_cases h
    exact .inr ⟨_, rfl, made⟩
  | event l revents a =>
    simp only [EchoServer.step] at h
    split at h
    · rename_i c loop hnext
      split at h
      · cases h
      · rename_i e he
        obtain ⟨server, made, rfl⟩ := serverStep_cases h
        exact .inr ⟨_, by simp only [serverOp, hnext, he, Option.map_some], made⟩
    · cases h
  | functor l w shutdown =>
    simp only [EchoServer.step] at h
    split at h
    · split at h
      · cases h
      · obtain ⟨server, made, rfl⟩ := serverStep_cases h
        exact .inr ⟨_, rfl, made⟩
    · obtain ⟨server, made, rfl⟩ := serverStep_cases h
      exact .inr ⟨_, rfl, made⟩
  | clientSends c bytes =>
    cases h
    exact .inl ⟨rfl, rfl⟩
  | clientReads c count =>
    cases h
    exact .inl ⟨rfl, rfl⟩

theorem reached_left {name : String} {numThreads : Nat}
    (reached : Reaches EchoServer.step (new name numThreads) s) : Left s.server := by
  have keep : ∀ (s : EchoServer) (op : Op) (t : EchoServer),
      Left s.server → s.step op = .ok t → Left t.server := by
    intro s op t left h
    rcases step_server h with ⟨_, same⟩ | ⟨op, _, made⟩
    · rw [same]
      exact left
    · exact left.step made
  exact reached.keeps keep (fun _ _ => rfl)

theorem serverStep_error {op : TcpServer.Op} {wires : Nat → Wire}
    (h : s.serverStep op wires = .error failure) : s.server.step op = .error failure := by
  rw [serverStep] at h
  cases made : s.server.step op with
  | error e =>
    rw [made] at h
    cases h
    rfl
  | ok server =>
    rw [made] at h
    cases h

theorem move_fails (left : Left s.server) {l : Nat} {v : EventLoop.Move ServerChannel}
    (h : s.step (.move l v) = .error failure) : failure = .disabled := by
  have h := serverStep_error h
  simp only [TcpServer.step] at h
  split at h
  · rename_i e moved
    cases h
    exact EventLoop.move_error (left l) moved
  · split at h <;> cases h
    rfl

/-- An event of a connection echoes what was read, or its `::write` failed. -/
theorem event_fails (inv : Inv s) {l : Nat} {revents : BitVec 32} {a : EchoAnswers}
    (h : s.step (.event l revents a) = .error failure) :
    failure = .disabled ∨ failure = TcpConnection.writeExit ∧ ∃ errno, a.write = .failed errno := by
  simp only [EchoServer.step] at h
  split at h
  · rename_i c loop hnext
    obtain ⟨_, active⟩ := EventLoop.nextChannel_cases hnext
    have mem : .conn c ∈ (s.server.loops l).activeChannels := by
      rw [active]
      exact List.mem_cons_self
    obtain ⟨e, he, hl⟩ := inv.alive.located.active l c mem
    subst hl
    have life := inv.lives c e he
    have echoing : e.track.conn.Echoing (s.wires c) := life.echoes.conn
    have waiting : (s.view c e).life.active = true := by simp [view, TcpServer.life, mem]
    have connected : e.track.conn.state = .kConnected :=
      (life.life.stage.of_active waiting).resolve_right echoing.state
    have wired : e.track.conn.Wired := life.life.wired
    simp only [he] at h
    have failed := serverStep_error h
    simp only [TcpServer.step, hnext, he] at failed
    cases result : e.track.conn.handleEvent revents
        (e.track.conn.echoInput (s.wires c) a) with
    | error error =>
      rw [result, act_error (served_put_self ..)] at failed
      cases failed
      rw [wired.handleEvent_eq] at result
      split at result
      · exact .inr (echoing.handleRead_error connected result)
      · cases result
    | ok r =>
      obtain ⟨d, calls⟩ := r
      obtain ⟨sockfd, wc, lived⟩ := inv.alive.lives c e he
      have sound : e.track.registration.Sound := (Life.reached_slotted lived).resolve_left
        (life.life.stage.not_destroyed (.inl connected))
      have others : .removeChannel ∉ calls := by
        intro removes
        let input := e.track.conn.echoInput (s.wires c) a
        have applied : (TcpConnection.ConnOp.event revents input).apply _ = .ok (d, calls) := result
        obtain ⟨_, _, same⟩ := TcpConnection.ConnOp.apply_removes wired applied removes
        cases same
      rw [result] at failed
      obtain ⟨t, ht⟩ := act_total
        (ready_put (s.server.onLoop e.loop loop) c rfl (e.track.see .event) sound)
        (d := d) others
      cases failed.symm.trans ht
  · cases h
    exact .inl rfl

/-- A functor of a connection is carried out. -/
theorem functor_runs (inv : Inv s) {l c : Nat} {f : ConnFunctor}
    {loop : EventLoop ServerChannel ServerFunctor}
    (hnext : (s.server.loops l).nextFunctor = .ok (.conn c f, loop)) (w : WriteResult)
    (shutdown : Status) : ∃ t, s.step (.functor l w shutdown) = .ok t := by
  obtain ⟨queued, idle, _⟩ := EventLoop.nextFunctor_cases hnext
  have mem : .conn c f ∈ (s.server.loops l).queued := by
    rw [queued]
    exact List.mem_cons_self
  obtain ⟨e, he, hl⟩ := inv.alive.located.functor l c f mem
  subst hl
  have life := inv.lives c e he
  have next : (s.view c e).life.queue.head? = some f := by
    simp [view, TcpServer.life, queued]
  obtain ⟨sockfd, wc, lived⟩ := inv.alive.lives c e he
  obtain ⟨t, ht⟩ := runConn_total (m := s.server.onLoop e.loop loop) life.life
    (Life.reached_slotted lived) (life.echoes.plain f (List.mem_of_mem_head? next)) next he
    w shutdown
  simp only [EchoServer.step, hnext, he, serverStep, TcpServer.step, ht]
  exact ⟨_, rfl⟩

/-- The functors of the loops are carried out. -/
theorem functor_fails (inv : Inv s) {l : Nat} {w : WriteResult} {shutdown : Status}
    (h : s.step (.functor l w shutdown) = .error failure) : failure = .disabled := by
  cases hnext : (s.server.loops l).nextFunctor with
  | error e =>
    simp only [EchoServer.step, hnext] at h
    have failed := serverStep_error h
    simp only [TcpServer.step, hnext] at failed
    cases failed
    exact EventLoop.nextFunctor_error hnext
  | ok a =>
    obtain ⟨cb, loop⟩ := a
    cases cb with
    | conn c f =>
      obtain ⟨t, ht⟩ := functor_runs inv hnext w shutdown
      cases h.symm.trans ht
    | removeConnectionInLoop c =>
      simp only [EchoServer.step, hnext] at h
      have failed := serverStep_error h
      simp only [TcpServer.step, hnext] at failed
      obtain ⟨queued, _, _⟩ := EventLoop.nextFunctor_cases hnext
      have mem : .removeConnectionInLoop c ∈ (s.server.loops l).queued := by
        rw [queued]
        exact List.mem_cons_self
      obtain ⟨rfl, e, he⟩ := inv.alive.located.removal l c mem
      have there : (s.server.onLoop 0 loop).served c = some e := he
      simp only [removeConnectionInLoop, if_true, there] at failed
      cases failed

/-- With each connection on its own in the poller, no thread of the server fails an assertion,
exits or touches what is not there, except that it exits when a `::write` of an echo returns
-1; what a failing `::accept` does is left open. -/
theorem fails_only_in_write {name : String} {numThreads : Nat}
    (reached : Reaches EchoServer.step (new name numThreads) s) {op : Op}
    (h : s.step op = .error failure) :
    failure = .disabled ∨ (∃ sockfd names, op = .accept sockfd names) ∨
    ∃ l revents a errno, op = .event l revents a ∧ a.write = .failed errno ∧
      failure = .exit "ZDQ::TcpConnection::sendInLoop::write" := by
  have inv := reached_inv reached
  cases op with
  | move l v => exact .inl (move_fails (reached_left reached) h)
  | accept sockfd names => exact .inr (.inl ⟨sockfd, names, rfl⟩)
  | event l revents a =>
    rcases event_fails inv h with disabled | ⟨exit, errno, failed⟩
    · exact .inl disabled
    · exact .inr (.inr ⟨l, revents, a, errno, rfl, failed, exit⟩)
  | functor l w shutdown => exact .inl (functor_fails inv h)
  | clientSends c bytes => cases h
  | clientReads c count => cases h

set_option maxRecDepth 20000 in
/-- The three bytes were read, but their client is gone. -/
example : ∃ s, run EchoServer.step (new "echo" 0) (halfEchoed.take 9) = .ok s ∧
    s.step (.event 0 POLLIN ⟨some 3, .failed .EPIPE⟩) = .error TcpConnection.writeExit :=
  ⟨_, rfl, rfl⟩

end EchoServer

end ZDQ
