import ThreadAndNet.EchoServer

/-!
# What the clients of the echo server get

Every step of the server takes each connection with its two streams through
steps of its own or leaves it alone. What holds of one connection therefore
holds of all of them in every run, whatever the kernel transfers when.
-/

namespace ZDQ

open Machine

namespace EchoServer

open TcpServer

variable {s t : EchoServer}

def view (s : EchoServer) (c : Nat) (e : Served) : EchoLife := ⟨s.server.life c e, s.wires c⟩

theorem view_eq {c : Nat} {e : Served} {v : Life} {w : Wire} (life : t.server.life c e = v)
    (wire : t.wires c = w) : t.view c e = ⟨v, w⟩ := by
  rw [view, life, wire]

/-- What a step is for each connection and its streams. -/
structure Follows (s t : EchoServer) : Prop where
  alive : Alive t.server
  old : ∀ c e, s.server.served c = some e → ∃ e', t.server.served c = some e' ∧
    e'.loop = e.loop ∧ Reaches (EchoLife.step e.loop) (s.view c e) (t.view c e')
  new : ∀ c e', s.server.served c = none → t.server.served c = some e' → ∃ sockfd wc,
    Reaches (EchoLife.step e'.loop) ⟨Life.start sockfd wc, s.wires c⟩ (t.view c e')
  unserved : ∀ c, t.server.served c = none → s.server.served c = none ∧
    ((s.wires c).Unserved → (t.wires c).Unserved)

@[simp] theorem wires_onWire_self (s : EchoServer) (c : Nat) (w : Wire) :
    (s.onWire c w).wires c = w := Function.update_self ..

theorem wires_onWire_other (s : EchoServer) {c d : Nat} (w : Wire) (other : d ≠ c) :
    (s.onWire c w).wires d = s.wires d := Function.update_of_ne other ..

/-- The streams of one connection changed with its life, and nothing else did. -/
theorem touches_follows {server : TcpServer} (alive : Alive server) {c : Nat}
    {e e' : Served} (touches : Touches s.server server c e e') {w : Wire}
    (reaches : Reaches (EchoLife.step e.loop) (s.view c e) ⟨server.life c e', w⟩) :
    Follows s (onWire ⟨server, s.wires⟩ c w) := by
  refine ⟨alive, fun d x hx => ?_, fun d x missing hx => ?_, fun d missing => ?_⟩
  · by_cases hd : d = c
    · subst hd
      cases touches.before.symm.trans hx
      refine ⟨e', touches.after, touches.same.loop, ?_⟩
      rw [view_eq (v := server.life d e') rfl (wires_onWire_self _ d w)]
      exact reaches
    · obtain ⟨same, kept⟩ := touches.others d hd
      refine ⟨x, same.trans hx, rfl, ?_⟩
      rw [view_eq (kept x hx) (wires_onWire_other _ w hd)]
      exact .refl _
  · have other : d ≠ c := by
      rintro rfl
      cases touches.before.symm.trans missing
    cases missing.symm.trans ((touches.others d other).1.symm.trans hx)
  · have other : d ≠ c := by
      rintro rfl
      cases touches.after.symm.trans missing
    rw [wires_onWire_other _ _ other]
    exact ⟨(touches.others d other).1.symm.trans missing, id⟩

theorem serverStep_cases {op : TcpServer.Op} {wires : Nat → Wire}
    (h : s.serverStep op wires = .ok t) :
    ∃ server, s.server.step op = .ok server ∧ t = ⟨server, wires⟩ := map_cases h

theorem move_follows (alive : Alive s.server) {l : Nat} {v : EventLoop.Move ServerChannel}
    (h : s.step (.move l v) = .ok t) : Follows s t := by
  obtain ⟨server, made, rfl⟩ := serverStep_cases h
  obtain ⟨_, same, lives⟩ := move_life alive.located made
  refine ⟨alive.step made, fun c e he => ?_, fun c e missing he => ?_, fun c missing => ?_⟩
  · have after : server.served c = some e := by rw [same, he]
    refine ⟨e, after, rfl, ?_⟩
    rcases lives c e he with kept | polled
    · rw [view_eq (t := ⟨server, s.wires⟩) kept rfl]
      exact .refl _
    · exact .one .poll (congrArg (Except.map _) polled)
  · rw [same, missing] at he
    cases he
  · rw [same] at missing
    exact ⟨missing, id⟩

theorem accept_follows (alive : Alive s.server) {sockfd : Option Nat} {names : SockNames}
    (h : s.step (.accept sockfd names) = .ok t) : Follows s t := by
  obtain ⟨server, made, rfl⟩ := serverStep_cases h
  obtain ⟨fd, loop, _, taken, kept, hnew⟩ := accept_cases alive.located made
  obtain ⟨m, e', touches, others, started⟩ := newConnection_life taken hnew
  have fresh := alive.located.fresh s.server.nextConnTd (Nat.le_refl _)
  have old : ∀ d, d ≠ s.server.nextConnTd → server.served d = s.server.served d :=
    fun d other => (touches.others d other).1.trans (others d other).1
  refine ⟨alive.step made, fun d x hx => ?_, fun d x missing hx => ?_, fun d missing => ?_⟩
  · have other : d ≠ s.server.nextConnTd := by
      rintro rfl
      cases fresh.symm.trans hx
    refine ⟨x, (old d other).trans hx, rfl, ?_⟩
    have there : m.served d = some x := (others d other).1.trans hx
    have still : server.life d x = s.server.life d x :=
      ((touches.others d other).2 x there).trans (((others d other).2 x).trans (kept d x))
    rw [view_eq (t := ⟨server, s.wires⟩) still rfl]
    exact .refl _
  · have self : d = s.server.nextConnTd := by
      by_contra other
      cases missing.symm.trans ((old d other).symm.trans hx)
    subst self
    cases touches.after.symm.trans hx
    refine ⟨fd, s.server.writeCompleteCallback, ?_⟩
    rcases started with same | first
    · rw [view_eq same rfl]
      exact .refl _
    · refine .one (.functor .connectEstablished (.accepted 0) none) ?_
      refine (congrArg (Except.map _) first).trans ?_
      exact congrArg (fun w => Except.ok (EchoLife.mk _ w)) (Wire.carry_still _ rfl)
  · have other : d ≠ s.server.nextConnTd := by
      rintro rfl
      cases touches.after.symm.trans missing
    exact ⟨(old d other).symm.trans missing, id⟩

theorem event_follows (alive : Alive s.server) {l : Nat} {revents : BitVec 32}
    {a : EchoAnswers} (h : s.step (.event l revents a) = .ok t) : Follows s t := by
  simp only [step] at h
  split at h
  · rename_i c loop hnext
    split at h
    · cases h
    · rename_i e he
      obtain ⟨server, made, rfl⟩ := serverStep_cases h
      obtain ⟨c', loop', x, x', hnext', _, _, touches, hlife⟩ := event_life alive.located made
      cases hnext.symm.trans hnext'
      cases he.symm.trans touches.before
      refine touches_follows (alive.step made) touches (.one (.event revents a) ?_)
      exact congrArg (Except.map _) hlife
  · cases h

theorem functor_follows (alive : Alive s.server) {l : Nat} {w : WriteResult}
    {shutdown : Status} (h : s.step (.functor l w shutdown) = .ok t) : Follows s t := by
  simp only [step] at h
  split at h
  · rename_i c f loop hnext
    split at h
    · cases h
    · rename_i e he
      obtain ⟨server, made, rfl⟩ := serverStep_cases h
      obtain ⟨c', cb, loop', x, x', op, hnext', kind, touches, hlife⟩ :=
        functor_life alive.located made
      cases hnext.symm.trans hnext'
      rcases kind with ⟨g, same, _, next, rfl⟩ | ⟨other, _⟩
      · cases same
        cases he.symm.trans touches.before
        refine touches_follows (alive.step made) touches (.one (.functor f w shutdown) ?_)
        exact (if_pos next).trans (congrArg (Except.map _) hlife)
      · cases other
  · rename_i plain
    obtain ⟨server, made, rfl⟩ := serverStep_cases h
    obtain ⟨c, cb, loop, x, x', op, hnext, kind, touches, hlife⟩ :=
      functor_life alive.located made
    rcases kind with ⟨f, rfl, _⟩ | ⟨_, rfl⟩
    · exact absurd hnext (plain c f loop)
    · have follows := touches_follows (alive.step made) touches (w := s.wires c)
        (.one .remove (congrArg (Except.map _) hlife))
      rw [onWire, Function.update_eq_self] at follows
      exact follows

/-- A client wrote or read. -/
theorem client_follows (alive : Alive s.server) (c : Nat) (w : Wire) (op : EchoLife.Op)
    (reads : ∀ own v, EchoLife.step own ⟨v, s.wires c⟩ op = .ok ⟨v, w⟩)
    (unserved : (s.wires c).Unserved → w.Unserved) : Follows s (s.onWire c w) := by
  refine ⟨alive, fun d e he => ⟨e, he, rfl, ?_⟩, fun d e missing he => ?_,
    fun d missing => ⟨missing, ?_⟩⟩
  · by_cases hd : d = c
    · subst hd
      refine .one op ?_
      rw [view_eq (t := s.onWire d w) rfl (wires_onWire_self s d w)]
      exact reads _ _
    · rw [view_eq (t := s.onWire c w) rfl (wires_onWire_other s w hd)]
      exact .refl _
  · cases missing.symm.trans he
  · by_cases hd : d = c
    · subst hd
      rw [wires_onWire_self]
      exact unserved
    · rw [wires_onWire_other _ _ hd]
      exact id

/-- Every step takes each connection with its streams through steps of its own. -/
theorem step_follows (alive : Alive s.server) {op : Op} (h : s.step op = .ok t) :
    Follows s t := by
  cases op with
  | move l v => exact move_follows alive h
  | accept sockfd names => exact accept_follows alive h
  | event l revents a => exact event_follows alive h
  | functor l w shutdown => exact functor_follows alive h
  | clientSends c bytes =>
    cases h
    refine client_follows alive c _ (.clientSends bytes) (fun _ _ => rfl) ?_
    rintro ⟨got, toClient, toServer⟩
    exact ⟨got, toClient, congrArg (· ++ bytes) toServer⟩
  | clientReads c count =>
    cases h
    refine client_follows alive c _ (.clientReads count) (fun _ _ => rfl) ?_
    rintro ⟨got, toClient, toServer⟩
    refine ⟨?_, ?_, toServer⟩
    · simp [Wire.clientReads, got, toClient]
    · simp [Wire.clientReads, toClient]

structure Inv (s : EchoServer) : Prop where
  alive : Alive s.server
  lives : ∀ c e, s.server.served c = some e → EchoLife.Inv e.loop (s.view c e)
  unserved : ∀ c, s.server.served c = none → (s.wires c).Unserved

theorem new_inv (name : String) (numThreads : Nat) : Inv (new name numThreads) := by
  refine ⟨new_alive name numThreads false, ?_, fun _ _ => ⟨rfl, rfl, rfl⟩⟩
  intro c e he
  cases he

theorem Inv.step (inv : Inv s) {op : Op} (h : s.step op = .ok t) : Inv t := by
  obtain ⟨alive, old, new, unserved⟩ := step_follows inv.alive h
  refine ⟨alive, fun c e' he' => ?_, fun c missing => ?_⟩
  · cases before : s.server.served c with
    | none =>
      obtain ⟨sockfd, wc, reaches⟩ := new c e' before he'
      exact EchoLife.reached_inv reaches
        (EchoLife.start_inv _ sockfd wc (inv.unserved c before))
    | some e =>
      obtain ⟨x, hx, loop, reaches⟩ := old c e before
      cases hx.symm.trans he'
      rw [loop]
      exact EchoLife.reached_inv reaches (inv.lives c e before)
  · obtain ⟨before, kept⟩ := unserved c missing
    exact kept (inv.unserved c before)

theorem reached_inv {name : String} {numThreads : Nat}
    (reached : Reaches EchoServer.step (new name numThreads) s) : Inv s :=
  Reaches.keeps (fun _ _ _ inv h => inv.step h) reached (new_inv name numThreads)

theorem reaches_view (inv : Inv s) (later : Reaches EchoServer.step s t) {c : Nat}
    {e : Served} (he : s.server.served c = some e) : ∃ e', t.server.served c = some e' ∧
      Reaches (EchoLife.step e.loop) (s.view c e) (t.view c e') := by
  have keep : ∀ t op u, Inv t ∧ (∃ e', t.server.served c = some e' ∧ e'.loop = e.loop ∧
        Reaches (EchoLife.step e.loop) (s.view c e) (t.view c e')) → t.step op = .ok u →
      Inv u ∧ ∃ e', u.server.served c = some e' ∧ e'.loop = e.loop ∧
        Reaches (EchoLife.step e.loop) (s.view c e) (u.view c e') := by
    rintro t op u ⟨inv, e', he', loop, reaches⟩ h
    obtain ⟨x, hx, loop', more⟩ := (step_follows inv.alive h).old c e' he'
    rw [loop] at more
    exact ⟨inv.step h, x, hx, loop'.trans loop, reaches.trans more⟩
  obtain ⟨_, e', he', _, reaches⟩ := later.keeps keep ⟨inv, e, he, rfl, .refl _⟩
  exact ⟨e', he', reaches⟩

/-- In every run, and whatever the kernel transfers when, a client has read the beginning of
what it sent. What it has not read is on its way to it, still pending in `outputBuf_` or
not read by the server, in this order: no byte is lost, repeated or overtaken, and none
goes to another client. -/
theorem clients_get_echoes {name : String} {numThreads : Nat}
    (reached : Reaches EchoServer.step (new name numThreads) s) (c : Nat) :
    (s.wires c).got <+: (s.wires c).sent ∧
    (s.server.served c = none → (s.wires c).got = [] ∧ (s.wires c).toClient = []) ∧
    ∀ e, s.server.served c = some e →
      (s.wires c).got ++ (s.wires c).toClient ++ e.track.conn.outputBuf.readable ++
        (s.wires c).toServer = (s.wires c).sent ∧
      e.track.conn.inputBuf.readable = [] := by
  have inv := reached_inv reached
  refine ⟨?_, fun none => ?_, fun e he => ?_⟩
  · cases hc : s.server.served c with
    | none =>
      rw [(inv.unserved c hc).got]
      exact List.nil_prefix
    | some e =>
      have echoing : e.track.conn.Echoing (s.wires c) := (inv.lives c e hc).echoes.conn
      rw [← echoing.bytes, List.append_assoc, List.append_assoc]
      exact List.prefix_append _ _
  · exact ⟨(inv.unserved c none).got, (inv.unserved c none).toClient⟩
  · have echoing := (inv.lives c e he).echoes.conn
    exact ⟨echoing.bytes, echoing.empty⟩

/-- However much the clients send at once, the vector of an input buffer never grows beyond
what one `readFd` can fill, so no count that is cast to `int` on the way is ever cut. -/
theorem input_bounded {name : String} {numThreads : Nat}
    (reached : Reaches EchoServer.step (new name numThreads) s) {c : Nat} {e : Served}
    (he : s.server.served c = some e) :
    e.track.conn.inputBuf.v_buff.length ≤ 131071 ∧
    ∀ readv n r, e.track.conn.inputBuf.readFd readv = .ok (n, r) →
      r.v_buff.length ≤ 131071 ∧ narrow n = n ∧ narrow r.readBuffSize = r.readBuffSize := by
  have echoing : e.track.conn.Echoing (s.wires c) :=
    ((reached_inv reached).lives c e he).echoes.conn
  refine ⟨echoing.input.size, ?_⟩
  intro readv n r h
  cases readv with
  | failed =>
    cases h
    have none := (Buffer.readBuffSize_eq_zero_iff _).mpr echoing.empty
    refine ⟨echoing.input.size, by decide, ?_⟩
    rw [none]
    decide
  | read bytes =>
    obtain ⟨r', hr', _, fronted⟩ := echoing.input.readFd echoing.empty bytes
    cases h.symm.trans hr'
    refine ⟨fronted.size, narrow_natCast fronted.short, narrow_natCast ?_⟩
    rw [← Buffer.length_readable]
    exact fronted.short

/-- As soon as one `::write` leaves bytes pending, their client gets nothing more, whatever
it sends or reads and whenever its socket is writable. -/
theorem pending_output_stalls {name : String} {numThreads : Nat}
    (reached : Reaches EchoServer.step (new name numThreads) s) {c : Nat} {e : Served}
    (he : s.server.served c = some e) (pending : e.track.conn.outputBuf.readable ≠ [])
    (later : Reaches EchoServer.step s t) :
    (t.wires c).got ++ (t.wires c).toClient = (s.wires c).got ++ (s.wires c).toClient ∧
    ∃ e', t.server.served c = some e' ∧
      e.track.conn.outputBuf.readable <+: e'.track.conn.outputBuf.readable := by
  have inv := reached_inv reached
  obtain ⟨e', he', reaches⟩ := reaches_view inv later he
  have waits := EchoLife.reached_waits (inv.lives c e he) pending reaches
  exact ⟨waits.delivered, e', he', waits.pending⟩

section Schedules

/-- A client writes three bytes before it is accepted; the kernel takes two of the echo. -/
def halfEchoed : List Op :=
  [.clientSends 1 [1, 2, 3], .move 0 .loop, .move 0 .test, .move 0 (.polled [.acceptor]),
    .accept (some 7) names, .move 0 .doAppendFunctors, .move 0 .functorsDone, .move 0 .test,
    .move 0 (.polled [.conn 1]), .event 0 POLLIN ⟨some 3, .accepted 2⟩, .clientReads 1 1]

set_option maxRecDepth 20000 in
theorem run_halfEchoed :
    ∃ s e, run EchoServer.step (new "echo" 0) halfEchoed = .ok s ∧
      s.server.served 1 = some e ∧ s.wires 1 = ⟨[1, 2, 3], [], [2], [1]⟩ ∧
      e.track.conn.outputBuf.readable = [3] := ⟨_, _, rfl, rfl, rfl, rfl⟩

theorem clients_get_echoes_halfEchoed :
    ∃ s, Reaches EchoServer.step (new "echo" 0) s ∧ (s.wires 1).got = [1] ∧
      (s.wires 1).got <+: (s.wires 1).sent ∧
      ∃ e, s.server.served 1 = some e ∧
        (s.wires 1).got ++ (s.wires 1).toClient ++ e.track.conn.outputBuf.readable ++
          (s.wires 1).toServer = (s.wires 1).sent := by
  obtain ⟨s, e, hrun, he, wire, _⟩ := run_halfEchoed
  obtain ⟨first, _, whole⟩ := clients_get_echoes ⟨halfEchoed, hrun⟩ 1
  exact ⟨s, ⟨halfEchoed, hrun⟩, by rw [wire], first, e, he, (whole e he).1⟩

theorem input_bounded_halfEchoed :
    ∃ s e, Reaches EchoServer.step (new "echo" 0) s ∧ s.server.served 1 = some e ∧
      e.track.conn.inputBuf.v_buff.length ≤ 131071 ∧
      ∀ readv n r, e.track.conn.inputBuf.readFd readv = .ok (n, r) →
        r.v_buff.length ≤ 131071 ∧ narrow n = n ∧
        narrow r.readBuffSize = r.readBuffSize := by
  obtain ⟨s, e, hrun, he, _⟩ := run_halfEchoed
  exact ⟨s, e, ⟨halfEchoed, hrun⟩, he, input_bounded ⟨halfEchoed, hrun⟩ he⟩

/-- The client sends another byte, which the kernel would take. -/
def anotherByte : List Op :=
  [.clientSends 1 [4], .move 0 .doAppendFunctors, .move 0 .functorsDone, .move 0 .test,
    .move 0 (.polled [.conn 1]), .event 0 (POLLIN ||| POLLOUT) ⟨some 1, .accepted 1⟩]

set_option maxRecDepth 20000 in
theorem pending_output_stalls_anotherByte :
    ∃ s t e e', run EchoServer.step (new "echo" 0) halfEchoed = .ok s ∧
      run EchoServer.step s anotherByte = .ok t ∧ s.server.served 1 = some e ∧
      t.server.served 1 = some e' ∧ (t.wires 1).sent = [1, 2, 3, 4] ∧
      (t.wires 1).got ++ (t.wires 1).toClient = [1, 2] ∧
      e.track.conn.outputBuf.readable <+: e'.track.conn.outputBuf.readable := by
  obtain ⟨s, e, t, hs, he, wire, pending, ht, sent⟩ : ∃ s e t,
      run EchoServer.step (new "echo" 0) halfEchoed = .ok s ∧ s.server.served 1 = some e ∧
      s.wires 1 = ⟨[1, 2, 3], [], [2], [1]⟩ ∧ e.track.conn.outputBuf.readable = [3] ∧
      run EchoServer.step s anotherByte = .ok t ∧ (t.wires 1).sent = [1, 2, 3, 4] :=
    ⟨_, _, _, rfl, rfl, rfl, rfl, rfl, rfl⟩
  have waiting : e.track.conn.outputBuf.readable ≠ [] := by
    rw [pending]
    decide
  obtain ⟨delivered, e', he', kept⟩ :=
    pending_output_stalls ⟨halfEchoed, hs⟩ he waiting ⟨anotherByte, ht⟩
  refine ⟨s, t, e, e', hs, ht, he, he', sent, ?_, kept⟩
  rw [delivered, wire]
  rfl

end Schedules

end EchoServer

end ZDQ
