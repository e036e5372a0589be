import ThreadAndNet.ClientLife
import ThreadAndNet.ConnectorLife

/-!
# A client takes its connector through a life

The client as its connector sees it is a `ConnectorLife`. A step of the client is
one step of that life or leaves it alone, so what is known of every connector on
its loop is known of the client's.
-/

namespace ZDQ

open Machine

namespace ClientFunctor

/-- The functors of the connector in a queue. -/
def ofConnector (q : List ClientFunctor) : List ConnectorFunctor :=
  q.filterMap (fun cb =>
    match cb with
    | .connector f => some f
    | .conn _ _ => none
    | .setCloseCallback _ => none)

variable {c : Nat} {f : ConnFunctor} {k : ConnectorFunctor} {q r : List ClientFunctor}

@[simp] theorem ofConnector_nil : ofConnector [] = [] := rfl

@[simp] theorem ofConnector_append : ofConnector (q ++ r) = ofConnector q ++ ofConnector r :=
  List.filterMap_append

@[simp] theorem ofConnector_self : ofConnector (.connector k :: q) = k :: ofConnector q := rfl

@[simp] theorem ofConnector_conn : ofConnector (.conn c f :: q) = ofConnector q := rfl

@[simp] theorem ofConnector_setCloseCallback :
    ofConnector (.setCloseCallback c :: q) = ofConnector q := rfl

theorem mem_ofConnector : k ∈ ofConnector q ↔ .connector k ∈ q := by
  unfold ofConnector
  rw [List.mem_filterMap]
  constructor
  · rintro ⟨cb, mem, same⟩
    cases cb with
    | connector f =>
      cases same
      exact mem
    | conn c f => cases same
    | setCloseCallback c => cases same
  · exact fun mem => ⟨_, mem, rfl⟩

end ClientFunctor

/-- Where the loop is, as far as it concerns the connector. -/
def LoopPhase.ofConnector : LoopPhase ClientChannel ClientFunctor → ConnectorPhase
  | .outside => .functors []
  | .testing => .functors []
  | .polling => .functors []
  | .dispatching activeChannels =>
    .events (activeChannels.contains .timeQueue) (activeChannels.contains .connector)
  | .calling functors => .functors (ClientFunctor.ofConnector functors)

namespace ClientLoop

open ClientFunctor

/-- The client as its connector sees it. -/
def connectorLife (s : ClientLoop) : ConnectorLife where
  connector := s.client.connector
  registration := s.registration
  timers := s.timers
  phase := s.loop.phase.ofConnector
  appendFunctors := ofConnector s.loop.appendFunctors
  calls := s.calls

theorem connectorLife_queued (s : ClientLoop) :
    s.connectorLife.queued = ofConnector s.loop.queued := by
  unfold ConnectorLife.queued EventLoop.queued EventLoop.functors
  rw [ofConnector_append]
  cases h : s.loop.phase <;> simp [connectorLife, LoopPhase.ofConnector, ConnectorPhase.batch, h]

/-- Some functors were appended, and the loop is where it was. -/
def Grows (s t : ClientLoop) : Prop :=
  t.loop.phase = s.loop.phase ∧
    ∃ more, t.loop.appendFunctors = s.loop.appendFunctors ++ more

theorem Grows.of_eq {s t : ClientLoop} (h : t.loop = s.loop) : Grows s t :=
  ⟨by rw [h], [], by rw [h, List.append_nil]⟩

theorem Grows.trans {s t u : ClientLoop} (h : Grows s t) (h' : Grows t u) : Grows s u := by
  obtain ⟨phase, more, added⟩ := h
  obtain ⟨phase', more', added'⟩ := h'
  exact ⟨phase'.trans phase, more ++ more', by rw [added', added, List.append_assoc]⟩

theorem append_grows (s : ClientLoop) (thread : Option Nat) (cb : ClientFunctor) :
    Grows s (s.append thread cb) := by
  refine ⟨?_, [cb], EventLoop.appendFunctors_appendFuncInLoop ..⟩
  simp only [append, EventLoop.appendFuncInLoop]
  split <;> rfl

/-- No connection was made. -/
def NoneMade (s t : ClientLoop) : Prop := ∀ d, s.conns d = none → t.conns d = none

/-- Nothing changed for the connector and its client. -/
structure Spares (s t : ClientLoop) : Prop where
  life : t.connectorLife = s.connectorLife
  client : t.client = s.client
  destroyed : t.destroyed = s.destroyed
  grows : Grows s t
  noneMade : NoneMade s t

theorem Spares.refl (s : ClientLoop) : Spares s s :=
  ⟨rfl, rfl, rfl, .of_eq rfl, fun _ => id⟩

theorem Spares.trans {s t u : ClientLoop} (h : Spares s t) (h' : Spares t u) : Spares s u :=
  ⟨h'.life.trans h.life, h'.client.trans h.client, h'.destroyed.trans h.destroyed,
    h.grows.trans h'.grows, fun d none => h'.noneMade d (h.noneMade d none)⟩

theorem spares_put {s : ClientLoop} {c : Nat} {e : ClientConn} (he : s.conns c = some e)
    (e' : ClientConn) : Spares s (s.put c e') := by
  refine ⟨rfl, rfl, rfl, .of_eq rfl, ?_⟩
  intro d none
  have other : d ≠ c := by
    rintro rfl
    rw [he] at none
    cases none
  exact (Function.update_of_ne other ..).trans none

theorem spares_append (s : ClientLoop) (thread : Option Nat) {cb : ClientFunctor}
    (other : ofConnector [cb] = []) : Spares s (s.append thread cb) := by
  have grows := append_grows s thread cb
  refine ⟨?_, rfl, rfl, grows, fun _ => id⟩
  have appended : (s.append thread cb).loop.appendFunctors = s.loop.appendFunctors ++ [cb] :=
    EventLoop.appendFunctors_appendFuncInLoop ..
  unfold connectorLife
  rw [appended, grows.1, ofConnector_append, other, List.append_nil]
  rfl

/-! ## Calls of the connector -/

/-- The client's fields other than the connector's. -/
structure Beside (s t : ClientLoop) : Prop where
  client : t.client = { s.client with connector := t.client.connector }
  destroyed : t.destroyed = s.destroyed
  conns : t.conns = s.conns
  grows : Grows s t

theorem Beside.trans {s t u : ClientLoop} (h : Beside s t) (h' : Beside t u) : Beside s u := by
  refine ⟨?_, h'.destroyed.trans h.destroyed, h'.conns.trans h.conns, h.grows.trans h'.grows⟩
  have client := h'.client
  rw [h.client] at client
  exact client

theorem Beside.of_eq {s t : ClientLoop}
    (client : t.client = { s.client with connector := t.client.connector })
    (destroyed : t.destroyed = s.destroyed) (conns : t.conns = s.conns)
    (loop : t.loop = s.loop) : Beside s t :=
  ⟨client, destroyed, conns, .of_eq loop⟩

theorem performConnector_life {s t : ClientLoop} {thread : Option Nat} {call : ConnectorCall}
    (h : performConnector thread s call = .ok t) :
    s.connectorLife.perform call = .ok t.connectorLife ∧ Beside s t := by
  cases call with
  | update channel =>
    obtain ⟨r, hr, rfl⟩ := onPoller_cases h
    refine ⟨?_, .of_eq rfl rfl rfl rfl⟩
    have hr : s.connectorLife.registration.update channel = .ok r := hr
    simp only [ConnectorLife.perform, ConnectorLife.onPoller, hr]
    rfl
  | remove channel =>
    obtain ⟨r, hr, rfl⟩ := onPoller_cases h
    refine ⟨?_, .of_eq rfl rfl rfl rfl⟩
    have hr : s.connectorLife.registration.remove = .ok r := hr
    simp only [ConnectorLife.perform, ConnectorLife.onPoller, hr]
    rfl
  | appendFuncInLoop f =>
    cases h
    have grows := append_grows { s with calls := s.calls ++ [.appendFuncInLoop f] } thread
      (.connector f)
    refine ⟨?_, rfl, rfl, rfl, grows⟩
    simp only [ConnectorLife.perform]
    unfold connectorLife
    rw [grows.1, append, EventLoop.appendFunctors_appendFuncInLoop, ofConnector_append]
    rfl
  | _ =>
    cases h
    exact ⟨rfl, .of_eq rfl rfl rfl rfl⟩

theorem run_performConnector_life {thread : Option Nat} {calls : List ConnectorCall}
    {s t : ClientLoop} (h : run (performConnector thread) s calls = .ok t) :
    run ConnectorLife.perform s.connectorLife calls = .ok t.connectorLife ∧ Beside s t := by
  induction calls generalizing s with
  | nil =>
    cases h
    exact ⟨rfl, .of_eq rfl rfl rfl rfl⟩
  | cons call rest ih =>
    obtain ⟨m, hm, hrest⟩ := run_cons_inv h
    obtain ⟨first, beside⟩ := performConnector_life hm
    obtain ⟨later, beside'⟩ := ih hrest
    exact ⟨by rw [run_cons_ok first]; exact later, beside.trans beside'⟩

/-- A member function of the connector was called. -/
theorem onConnector_life {s t : ClientLoop} {thread : Option Nat} {c : TcpClient}
    {o : Connector.Outcome}
    (h : s.onLoop thread (c.onConnector o) = .ok t) :
    s.connectorLife.act o = .ok t.connectorLife ∧
      t.client = { c with connector := t.client.connector } ∧ t.destroyed = s.destroyed ∧
      t.conns = s.conns ∧ Grows s t := by
  obtain ⟨k, calls, rfl, hrun⟩ := onConnector_cases h
  obtain ⟨performed, beside⟩ := run_performConnector_life hrun
  exact ⟨performed, beside.client, beside.destroyed, beside.conns, beside.grows⟩

/-! ## Calls of a connection -/

theorem letGo_spares {s t : ClientLoop} {thread : Option Nat} {c : Nat}
    (h : s.letGo thread c = .ok t) : Spares s t := by
  obtain ⟨e, he, rfl⟩ := letGo_cases h
  exact (spares_put he _).trans (spares_append _ thread ofConnector_conn)

/-- The client let its connection `c` go, and began to connect again if it should. -/
structure Closes (s t : ClientLoop) (c : Nat) (a : Connector.Attempt) : Prop where
  mine : s.client.connection = some c
  live : s.destroyed = false
  client : t.client = { s.client with connection := none, connector := t.client.connector }
  destroyed : t.destroyed = false
  life : t.connectorLife = s.connectorLife ∨
    s.client.connected = true ∧ s.connectorLife.step (.restart a) = .ok t.connectorLife
  grows : Grows s t
  noneMade : NoneMade s t

theorem removeConnection_connector {s t : ClientLoop} {thread : Option Nat} {c : Nat}
    {detached : Bool} {a : Connector.Attempt}
    (h : s.removeConnection thread c detached a = .ok t) :
    Spares s t ∨ detached = false ∧ thread = some 0 ∧ Closes s t c a := by
  rcases removeConnection_cases h with
    ⟨_, gone⟩ | ⟨attached, live, here, client, calls, hremove, hrun⟩
  · exact .inl (letGo_spares gone)
  obtain ⟨mine, same, made, rfl, again⟩ := TcpClient.removeConnection_cases hremove
  obtain ⟨m, hm, hrest⟩ := run_cons_inv hrun
  have gone := letGo_spares hm
  rw [run_map] at hrest
  obtain ⟨hmade, beside⟩ := run_performConnector_life hrest
  refine .inr ⟨attached, here, mine, live, ?_, ?_, ?_, ?_, ?_⟩
  · have client' := beside.client
    rw [gone.client, same] at client'
    exact client'
  · rw [beside.destroyed, gone.destroyed]
    exact live
  · rw [gone.life] at hmade
    have begun : ({ s with client := client } : ClientLoop).connectorLife =
        { s.connectorLife with connector := client.connector } := rfl
    rw [begun] at hmade
    rcases again with ⟨kept, rfl⟩ | ⟨connected, hk⟩
    · rw [kept] at hmade
      exact .inl (Except.ok.inj hmade).symm
    · refine .inr ⟨connected, ?_⟩
      simp only [ConnectorLife.step]
      rw [show s.connectorLife.connector.restart a = .ok (client.connector, made) from hk]
      exact hmade
  · exact gone.grows.trans beside.grows
  · intro d none
    rw [beside.conns]
    exact gone.noneMade d none

theorem Spares.closes {s m t : ClientLoop} {c : Nat} {a : Connector.Attempt} (h : Spares s m)
    (h' : Closes m t c a) : Closes s t c a := by
  obtain ⟨mine, live, client, destroyed, life, grows, noneMade⟩ := h'
  rw [h.client] at mine client
  rw [h.client, h.life] at life
  rw [h.destroyed] at live
  exact ⟨mine, live, client, destroyed, life, h.grows.trans grows,
    fun d none => noneMade d (h.noneMade d none)⟩

theorem Closes.spares {s m t : ClientLoop} {c : Nat} {a : Connector.Attempt}
    (h : Closes s m c a) (h' : Spares m t) : Closes s t c a := by
  obtain ⟨mine, live, client, destroyed, life, grows, noneMade⟩ := h
  rw [← h'.client] at client
  rw [← h'.life] at life
  rw [← h'.destroyed] at destroyed
  exact ⟨mine, live, client, destroyed, life, grows.trans h'.grows,
    fun d none => h'.noneMade d (noneMade d none)⟩

theorem perform_connector {s t : ClientLoop} {thread : Option Nat} {c : Nat}
    {a : Connector.Attempt} {call : Call} (h : perform thread c a s call = .ok t) :
    Spares s t ∨ call = .closeCallback ∧ Closes s t c a := by
  obtain ⟨e, track, he, _, outcome⟩ := perform_cases h
  have noted := spares_put he { e with track := track }
  rcases outcome with ⟨f, rfl, rfl⟩ | ⟨rfl, removed⟩ | ⟨_, _, rfl⟩
  · exact .inl (noted.trans (spares_append _ thread ofConnector_conn))
  · rcases removeConnection_connector removed with spares | ⟨_, _, closes⟩
    · exact .inl (noted.trans spares)
    · exact .inr ⟨rfl, noted.closes closes⟩
  · exact .inl noted

/-- A connection can be let go by its client once. -/
theorem run_perform_connector {thread : Option Nat} {c : Nat} {a : Connector.Attempt}
    {calls : List Call} {s t : ClientLoop} (h : run (perform thread c a) s calls = .ok t) :
    Spares s t ∨ .closeCallback ∈ calls ∧ Closes s t c a := by
  induction calls generalizing s with
  | nil =>
    cases h
    exact .inl (.refl t)
  | cons call rest ih =>
    obtain ⟨m, hm, hrest⟩ := run_cons_inv h
    rcases perform_connector hm with first | ⟨rfl, first⟩
    · rcases ih hrest with later | ⟨mem, later⟩
      · exact .inl (first.trans later)
      · exact .inr ⟨List.mem_cons_of_mem call mem, first.closes later⟩
    · rcases ih hrest with later | ⟨_, later⟩
      · exact .inr ⟨List.mem_cons_self, first.spares later⟩
      · have mine := later.mine
        rw [first.client] at mine
        cases mine

theorem act_connector {s t : ClientLoop} {thread : Option Nat} {c : Nat}
    {a : Connector.Attempt} {o : TcpConnection.Outcome} (h : s.act thread c a o = .ok t) :
    Spares s t ∨ ∃ conn calls, o = .ok (conn, calls) ∧ .closeCallback ∈ calls ∧
      Closes s t c a := by
  obtain ⟨e, conn, calls, he, rfl, hrun⟩ := act_cases h
  have moved := spares_put he { e with track := { e.track with conn := conn } }
  rcases run_perform_connector hrun with later | ⟨mem, later⟩
  · exact .inl (moved.trans later)
  · exact .inr ⟨conn, calls, rfl, mem, moved.closes later⟩

theorem userCall_spares {s t : ClientLoop} {thread : Option Nat} {c : Nat}
    {u : TcpConnection.UserCall} (h : s.userCall thread c u = .ok t) : Spares s t := by
  obtain ⟨e, _, called⟩ := userCall_cases h
  rcases act_connector called with spares | ⟨conn, calls, hu, mem, _⟩
  · exact spares
  · exact ((TcpConnection.userCall_userOnly hu).calls _ mem).elim

theorem setCloseCallback_spares {s t : ClientLoop} {c : Nat}
    (h : s.setCloseCallback c = .ok t) : Spares s t := by
  obtain ⟨e, he, rfl⟩ := setCloseCallback_cases h
  exact spares_put he _

/-! ## What one step can do -/

/-- The sockets that were handed to `newConnectionCallback_`. -/
def handed (calls : List ConnectorCall) : List Nat :=
  calls.filterMap (fun call =>
    match call with
    | .newConnectionCallback sockfd => some sockfd
    | _ => none)

/-- The connector settled its attempt by handing the socket over, and the client made a
connection of it. -/
structure Hands (s t : ClientLoop) (sockfd : Nat) : Prop where
  live : s.destroyed = false
  client : t.client = { s.client with
    connection := some s.client.nextConnId
    nextConnId := s.client.nextConnId + 1
    connector := t.client.connector }
  destroyed : t.destroyed = false
  made : ∃ e, t.conns s.client.nextConnId = some e ∧ e.track.conn.channel.fd = sockfd
  others : ∀ d, d ≠ s.client.nextConnId → s.conns d = none → t.conns d = none
  unheard : ∀ d, ofConn d t.loop.queued = ofConn d s.loop.queued
  grows : Grows s t

/-- A call of user code on a connection. -/
def Op.onConn : Op → Bool
  | .user _ _ _ => true
  | .hold _ => true
  | .release _ => true
  | _ => false

/-- What a step of the client can do, as its connector and its loop see it. -/
inductive Takes (s : ClientLoop) : Op → ClientLoop → Prop where
  | user {op : Op} {t : ClientLoop} (onConn : op.onConn = true) (spares : Spares s t) :
      Takes s op t
  | move {v : EventLoop.Move ClientChannel} {loop : EventLoop ClientChannel ClientFunctor}
      (moved : s.loop.move v = .ok loop) (nodup : loop.activeChannels.Nodup)
      (reported : ∀ ch ∈ loop.activeChannels, s.reports ch = true)
      (timersFirst : .timeQueue ∉ loop.activeChannels.tail) :
      Takes s (.move v) { s with loop := loop }
  | functor {a : Answers} {f : ConnectorFunctor}
      {loop : EventLoop ClientChannel ClientFunctor} {t : ClientLoop}
      (next : s.loop.nextFunctor = .ok (.connector f, loop)) (live : s.connectorLive = true)
      (ran : ({ s with loop := loop } : ClientLoop).connectorLife.runFunctor a.attempt a.close f =
        .ok t.connectorLife)
      (beside : Beside { s with loop := loop } t) : Takes s (.functor a) t
  | otherFunctor {a : Answers} {cb : ClientFunctor}
      {loop : EventLoop ClientChannel ClientFunctor} {t : ClientLoop}
      (next : s.loop.nextFunctor = .ok (cb, loop)) (other : ofConnector [cb] = [])
      (spares : Spares { s with loop := loop } t) : Takes s (.functor a) t
  | closingFunctor {a : Answers} {c : Nat} {f : ConnFunctor}
      {loop : EventLoop ClientChannel ClientFunctor} {t : ClientLoop}
      (next : s.loop.nextFunctor = .ok (.conn c f, loop))
      (closes : Closes { s with loop := loop } t c a.attempt) : Takes s (.functor a) t
  | event {revents : BitVec 32} {input : TcpConnection.EventInput} {a : Answers} {c : Nat}
      {loop : EventLoop ClientChannel ClientFunctor} {t : ClientLoop}
      (next : s.loop.nextChannel = .ok (.conn c, loop))
      (spares : Spares { s with loop := loop } t) : Takes s (.event revents input a) t
  | closingEvent {revents : BitVec 32} {input : TcpConnection.EventInput} {a : Answers} {c : Nat}
      {loop : EventLoop ClientChannel ClientFunctor} {t : ClientLoop}
      (next : s.loop.nextChannel = .ok (.conn c, loop))
      (closes : Closes { s with loop := loop } t c a.attempt) :
      Takes s (.event revents input a) t
  | settles {revents : BitVec 32} {k : Connector.EventAnswers} {names : SockNames}
      {loop : EventLoop ClientChannel ClientFunctor} {t : ClientLoop}
      (next : s.loop.nextChannel = .ok (.connector, loop)) (live : s.connectorLive = true)
      (ran : ({ s with loop := loop } : ClientLoop).connectorLife.act
        (s.client.connector.handleEvent revents k) = .ok t.connectorLife)
      (beside : Beside { s with loop := loop } t) (kept : handed t.calls = handed s.calls) :
      Takes s (.connectorEvent revents k names) t
  | hands {revents : BitVec 32} {k : Connector.EventAnswers} {names : SockNames} {sockfd : Nat}
      {loop : EventLoop ClientChannel ClientFunctor} {t : ClientLoop}
      (next : s.loop.nextChannel = .ok (.connector, loop)) (live : s.connectorLive = true)
      (ran : ({ s with loop := loop } : ClientLoop).connectorLife.act
        (s.client.connector.handleEvent revents k) = .ok t.connectorLife)
      (hands : Hands { s with loop := loop } t sockfd)
      (given : handed t.calls = handed s.calls ++ [sockfd]) :
      Takes s (.connectorEvent revents k names) t
  | timer {i : Nat} {a : Answers} {rest : List ClientChannel} {f : ConnectorFunctor}
      {m : ClientLoop} (active : s.loop.activeChannels = .timeQueue :: rest)
      (timer : s.timers[i]? = some f)
      (ran : s.connectorLife.runFunctor a.attempt a.close f = .ok m.connectorLife)
      (beside : Beside s m) : Takes s (.timer i a) { m with timers := m.timers.eraseIdx i }
  | timersDone {loop : EventLoop ClientChannel ClientFunctor}
      (next : s.loop.nextChannel = .ok (.timeQueue, loop)) :
      Takes s .timersDone { s with loop := loop }
  | enableRetry : Takes s .enableRetry { s with client := s.client.enableRetry }
  | connect {thread : Option Nat} {a : Connector.Attempt} {t : ClientLoop}
      (live : s.destroyed = false)
      (ran : s.connectorLife.step (.start (thread == some 0) a) = .ok t.connectorLife)
      (beside : Beside { s with client := { s.client with connected := true } } t) :
      Takes s (.connect thread a) t
  | disconnect {thread : Option Nat} {shutdown : Status} {t : ClientLoop}
      (live : s.destroyed = false)
      (spares : Spares { s with client := { s.client with connected := false } } t) :
      Takes s (.disconnect thread shutdown) t
  | stop {thread : Option Nat} {t : ClientLoop} (live : s.destroyed = false)
      (ran : s.connectorLife.step .stop = .ok t.connectorLife)
      (beside : Beside { s with client := { s.client with connected := false } } t) :
      Takes s (.stop thread) t
  | destruct {thread : Option Nat} {unique : Bool} {c : Nat} {m : ClientLoop}
      (live : s.destroyed = false) (mine : s.client.connection = some c) (spares : Spares s m) :
      Takes s (.destruct thread unique)
        { m with destroyed := true, client := { m.client with connection := none } }
  | destructIdle {thread : Option Nat} {unique : Bool} {m : ClientLoop}
      (live : s.destroyed = false) (idle : s.client.connection = none)
      (ran : s.connectorLife.step .stop = .ok m.connectorLife) (beside : Beside s m) :
      Takes s (.destruct thread unique)
        { m with destroyed := true, client := { m.client with connection := none } }

theorem runConnector_life {s t : ClientLoop} {f : ConnectorFunctor} {a : Answers}
    (h : s.runConnector f a = .ok t) :
    s.connectorLife.runFunctor a.attempt a.close f = .ok t.connectorLife ∧ Beside s t := by
  cases f with
  | startInLoop =>
    obtain ⟨act, client, destroyed, conns, grows⟩ := onConnector_life h
    exact ⟨act, client, destroyed, conns, grows⟩
  | stopInLoop =>
    obtain ⟨act, client, destroyed, conns, grows⟩ := onConnector_life h
    exact ⟨act, client, destroyed, conns, grows⟩
  | resetChannel =>
    simp only [runConnector] at h
    obtain ⟨act, client, destroyed, conns, grows⟩ := onConnector_life (c := s.client) h
    exact ⟨act, client, destroyed, conns, grows⟩

theorem functor_takes {s t : ClientLoop} {a : Answers} {cb : ClientFunctor}
    {loop : EventLoop ClientChannel ClientFunctor} (next : s.loop.nextFunctor = .ok (cb, loop))
    (h : ({ s with loop := loop } : ClientLoop).runFunctor a cb = .ok t) :
    Takes s (.functor a) t := by
  cases cb with
  | connector f =>
    simp only [runFunctor] at h
    split at h
    · rename_i live
      obtain ⟨ran, beside⟩ := runConnector_life h
      exact .functor next live ran beside
    · cases h
  | setCloseCallback c => exact .otherFunctor next rfl (setCloseCallback_spares h)
  | conn c f =>
    obtain ⟨e, he, ran⟩ := runConn_cases h
    have begun := spares_put he { e with track := e.track.starts 0 f }
    rcases act_connector ran with spares | ⟨_, _, _, _, closes⟩
    · exact .otherFunctor next rfl (begun.trans spares)
    · exact .closingFunctor next (begun.closes closes)

theorem event_takes {s t : ClientLoop} {revents : BitVec 32} {input : TcpConnection.EventInput}
    {a : Answers} {c : Nat} {e : ClientConn} {loop : EventLoop ClientChannel ClientFunctor}
    (next : s.loop.nextChannel = .ok (.conn c, loop)) (he : s.conns c = some e)
    (h : (({ s with loop := loop } : ClientLoop).put c
      { e with track := e.track.see .event }).act (some 0) c a.attempt
        (e.track.conn.handleEvent revents input) = .ok t) :
    Takes s (.event revents input a) t := by
  have seen := spares_put (s := { s with loop := loop }) he
    { e with track := e.track.see .event }
  rcases act_connector h with spares | ⟨_, _, _, _, closes⟩
  · exact .event next (seen.trans spares)
  · exact .closingEvent next (seen.closes closes)

@[simp] theorem handed_append (calls more : List ConnectorCall) :
    handed (calls ++ more) = handed calls ++ handed more :=
  List.filterMap_append

@[simp] theorem handed_retryTimer (k : Connector) : handed k.retryTimer = [] := by
  unfold Connector.retryTimer
  split <;> rfl

/-- The last call of an event tells whether its socket was handed over. -/
theorem settles_handed {k l : Connector} {revents : BitVec 32} {a : Connector.EventAnswers}
    {calls : List ConnectorCall} (move : k.Settles revents a l calls) :
    (∃ sockfd, calls.getLast? = some (.newConnectionCallback sockfd) ∧
      handed calls = [sockfd]) ∨
    (∀ sockfd, calls.getLast? ≠ some (.newConnectionCallback sockfd)) ∧ handed calls = [] := by
  cases move with
  | stays ignored => exact .inr ⟨by simp, rfl⟩
  | drops ch connecting channel failed =>
    refine .inr ⟨?_, ?_⟩
    · intro sockfd
      unfold Connector.removal Connector.retryTimer
      split <;> simp
    · rw [handed_append, ← List.singleton_append, handed_append, handed_retryTimer]
      rfl
  | hands ch connecting channel success wanted =>
    exact .inl ⟨ch.fd, by simp [Connector.removal], rfl⟩
  | closes ch connecting channel success off =>
    exact .inr ⟨by simp [Connector.removal], rfl⟩

/-- Calls that neither append a functor nor close the connection leave the loop alone. -/
theorem run_perform_loop {thread : Option Nat} {c : Nat} {a : Connector.Attempt}
    {calls : List Call} (open_ : .closeCallback ∉ calls) (none : ∀ f, .append f ∉ calls)
    {s t : ClientLoop} (h : run (perform thread c a) s calls = .ok t) : t.loop = s.loop := by
  refine run_frame ClientLoop.loop (fun s call m mem made => ?_) h
  obtain ⟨_, _, _, _, ⟨f, rfl, _⟩ | ⟨rfl, _⟩ | ⟨_, _, rfl⟩⟩ := perform_cases made
  · exact absurd mem (none f)
  · exact absurd mem open_
  · rfl

theorem act_loop {s t : ClientLoop} {thread : Option Nat} {c : Nat} {a : Connector.Attempt}
    {conn : TcpConnection} {calls : List Call} (open_ : .closeCallback ∉ calls)
    (none : ∀ f, .append f ∉ calls) (h : s.act thread c a (.ok (conn, calls)) = .ok t) :
    t.loop = s.loop := by
  obtain ⟨e, _, _, _, same, hrun⟩ := act_cases h
  cases same
  have same := run_perform_loop open_ none hrun
  exact same

/-- A connection becomes what the member function that ran left of it. -/
theorem act_made {s t : ClientLoop} {c : Nat} {e : ClientConn} (he : s.conns c = some e)
    {a : Connector.Attempt} {conn : TcpConnection} {calls : List Call}
    (h : s.act (some 0) c a (.ok (conn, calls)) = .ok t) :
    ∃ e', t.conns c = some e' ∧ e'.track.conn = conn := by
  obtain ⟨e', touches, hact⟩ := act_life he (Or.inl rfl) h
  obtain ⟨_, made⟩ := Life.act_conn hact
  cases made
  exact ⟨e', touches.after, rfl⟩

/-- An event of the connecting socket makes a connection if the socket was handed over. -/
theorem connectorEvent_made {c client : TcpClient} {revents : BitVec 32}
    {k : Connector.EventAnswers} {names : SockNames} {calls : List ConnectorCall}
    {made : Option (TcpConnection × List Call)}
    (h : c.connectorEvent revents k names = .ok (client, calls, made)) :
    c.connector.handleEvent revents k = .ok (client.connector, calls) ∧
      (made = none ∧ client = { c with connector := client.connector } ∧ handed calls = [] ∨
        ∃ conn connCalls, made = some (conn, connCalls) ∧
          client = { c with
            connector := client.connector
            connection := some c.nextConnId
            nextConnId := c.nextConnId + 1 } ∧ handed calls = [conn.channel.fd] ∧
          .closeCallback ∉ connCalls ∧ ∀ f, .append f ∉ connCalls) := by
  obtain ⟨k, handled, outcome⟩ := TcpClient.connectorEvent_cases h
  have settled := settles_handed (Connector.handleEvent_cases handled)
  rcases outcome with ⟨rfl, rfl, other⟩ | ⟨sockfd, conn, connCalls, rfl, last, hnew⟩
  · refine ⟨handled, .inl ⟨rfl, rfl, ?_⟩⟩
    rcases settled with ⟨x, hx, _⟩ | ⟨_, none⟩
    · exact absurd hx (other x)
    · exact none
  · obtain ⟨rfl, established⟩ := TcpClient.newConnection_cases hnew
    obtain ⟨fd, _, open_, unasked⟩ := TcpConnection.connectEstablished_cases established
    refine ⟨handled, .inr ⟨conn, connCalls, rfl, rfl, ?_, open_, unasked⟩⟩
    rcases settled with ⟨x, hx, given⟩ | ⟨other, _⟩
    · rw [last] at hx
      cases hx
      rw [given, fd]
      rfl
    · exact absurd last (other _)

/-- `newConnection` establishes the connection it made. -/
theorem hands_made {s m t : ClientLoop} {client : TcpClient}
    (same : client = { s.client with
      connector := client.connector
      connection := some s.client.nextConnId
      nextConnId := s.client.nextConnId + 1 })
    (beside : Beside { s with client := client } m)
    (still : ∀ d, ofConn d m.loop.queued = ofConn d s.loop.queued) (live : m.destroyed = false)
    {e : ClientConn} {a : Connector.Attempt} {conn : TcpConnection} {calls : List Call}
    (open_ : .closeCallback ∉ calls) (unasked : ∀ f, .append f ∉ calls)
    (h : (m.put s.client.nextConnId e).act (some 0) s.client.nextConnId a
      (.ok (conn, calls)) = .ok t) :
    t.connectorLife = m.connectorLife ∧ Hands s t conn.channel.fd := by
  rcases act_connector h with spares | ⟨_, _, made, mem, _⟩
  swap
  · cases made
    exact absurd mem open_
  obtain ⟨e', he', rfl⟩ := act_made (Function.update_self ..) h
  have client' : t.client = m.client := spares.client
  refine ⟨spares.life, ?_, ?_, ?_, ⟨e', he', rfl⟩, ?_, ?_, beside.grows.trans spares.grows⟩
  · exact beside.destroyed.symm.trans live
  · have kept := beside.client
    rw [← client', same] at kept
    exact kept
  · rw [spares.destroyed]
    exact live
  · intro d other none
    have none' : m.conns d = .none := by
      rw [beside.conns]
      exact none
    exact spares.noneMade d ((Function.update_of_ne other ..).trans none')
  · intro d
    rw [act_loop open_ unasked h]
    exact still d

theorem connectorEvent_takes {s t : ClientLoop} {revents : BitVec 32}
    {k : Connector.EventAnswers} {names : SockNames}
    {loop : EventLoop ClientChannel ClientFunctor}
    (next : s.loop.nextChannel = .ok (.connector, loop))
    (h : ({ s with loop := loop } : ClientLoop).connectorEvent revents k names = .ok t) :
    Takes s (.connectorEvent revents k names) t := by
  obtain ⟨live, client, calls, made, m, hevent, hrun, created⟩ := connectorEvent_cases h
  obtain ⟨performed, beside⟩ := run_performConnector_life hrun
  have journal : m.calls = s.calls ++ calls :=
    (ConnectorLife.run_perform_cases performed).journal
  obtain ⟨handled, outcome⟩ := connectorEvent_made hevent
  have ran : ({ s with loop := loop } : ClientLoop).connectorLife.act
      (s.client.connector.handleEvent revents k) = .ok m.connectorLife := by
    rw [handled]
    exact performed
  rcases created with ⟨rfl, rfl⟩ | ⟨conn, connCalls, rfl, alive, established⟩
  · obtain ⟨_, same, none⟩ | ⟨_, _, absent, _⟩ := outcome
    · refine .settles next live ran ?_ ?_
      · have settled : Beside { s with loop := loop } { s with loop := loop, client := client } :=
          .of_eq same rfl rfl rfl
        exact settled.trans beside
      · rw [journal, handed_append, none, List.append_nil]
    · cases absent
  · obtain ⟨absent, _⟩ | ⟨_, _, made, same, given, open_, unasked⟩ := outcome
    · cases absent
    cases made
    obtain ⟨life, hands⟩ := hands_made (s := { s with loop := loop }) same beside
      (run_performConnector_still hrun).queue alive open_ unasked established
    refine .hands next live (by rw [life]; exact ran) hands ?_
    have kept : t.calls = m.calls := congrArg ConnectorLife.calls life
    rw [kept, journal, handed_append, given]

/-- The calls of `disconnect`, and those of the destructor while there is a connection. -/
theorem run_performClient_spares {thread : Option Nat} {shutdown : Status}
    {calls : List ClientCall} (kind : ∀ call, .onLoop call ∉ calls) {s t : ClientLoop}
    (h : run (performClient thread shutdown) s calls = .ok t) : Spares s t := by
  refine run_relates Spares.refl Spares.trans ?_ h
  intro s call m mem made
  cases call with
  | onLoop call => exact absurd mem (kind call)
  | shutdown c => exact userCall_spares made
  | setCloseCallback c =>
    rcases performClient_setCloseCallback made with now | rfl
    · exact setCloseCallback_spares now
    · exact spares_append s thread rfl
  | forceClose c => exact userCall_spares made

theorem timer_takes {s t : ClientLoop} {i : Nat} {a : Answers} {rest : List ClientChannel}
    (active : s.loop.activeChannels = .timeQueue :: rest) (h : s.runTimer i a = .ok t) :
    Takes s (.timer i a) t := by
  obtain ⟨f, m, timer, hm, rfl⟩ := runTimer_cases h
  obtain ⟨ran, beside⟩ := runConnector_life hm
  exact .timer active timer ran beside

/-- What the destructor does before it lets the connector go. -/
theorem onClient_destruct {s m : ClientLoop} {thread : Option Nat} {unique : Bool}
    (h : s.onClient thread none (s.client.destruct unique) = .ok m) :
    (∃ c, s.client.connection = some c ∧ Spares s m) ∨
      s.client.connection = none ∧ s.connectorLife.step .stop = .ok m.connectorLife ∧
        Beside s m := by
  obtain ⟨client, calls, hd, hrun⟩ := onClient_cases h
  rcases TcpClient.destruct_cases hd with ⟨c, mine, rfl, rfl⟩ | ⟨idle, made, stopped, rfl⟩
  · refine .inl ⟨c, mine, run_performClient_spares ?_ hrun⟩
    intro call mem
    split at mem <;> simp at mem
  · have ran : s.onLoop thread (s.client.onConnector s.client.connector.stop) = .ok m := by
      rw [stopped]
      rw [run_map] at hrun
      exact hrun
    obtain ⟨act, client', destroyed, conns, grows⟩ := onConnector_life ran
    exact .inr ⟨idle, act, client', destroyed, conns, grows⟩

theorem step_takes {s t : ClientLoop} {op : Op} (h : s.step op = .ok t) : Takes s op t := by
  cases step_cases h with
  | move moved nodup reported timersFirst => exact .move moved nodup reported timersFirst
  | functor next ran => exact functor_takes next ran
  | event next here handled => exact event_takes next here handled
  | connectorEvent next handled => exact connectorEvent_takes next handled
  | timer active ran => exact timer_takes active ran
  | timersDone next => exact .timersDone next
  | user called => exact .user rfl (userCall_spares called)
  | hold here => exact .user rfl (spares_put here _)
  | release here _ => exact .user rfl (spares_put here _)
  | enableRetry _ => exact .enableRetry
  | connect live called =>
    obtain ⟨act, client, destroyed, conns, grows⟩ := onConnector_life called
    exact .connect live act ⟨client, destroyed, conns, grows⟩
  | disconnect live called =>
    refine .disconnect live (run_performClient_spares ?_ called)
    intro call mem
    simp at mem
  | stop live called =>
    obtain ⟨act, client, destroyed, conns, grows⟩ := onConnector_life called
    exact .stop live act ⟨client, destroyed, conns, grows⟩
  | destruct live _ called =>
    rcases onClient_destruct called with ⟨c, mine, spares⟩ | ⟨idle, ran, beside⟩
    · exact .destruct live mine spares
    · exact .destructIdle live idle ran beside

/-! ## The life of the connector -/

/-- The timers' channel is only ever the first of the active channels. -/
def TimersFirst (s : ClientLoop) : Prop := .timeQueue ∉ s.loop.activeChannels.tail

theorem Grows.active {s t : ClientLoop} (h : Grows s t) :
    t.loop.activeChannels = s.loop.activeChannels := by
  unfold EventLoop.activeChannels
  rw [h.1]

/-- Another channel's event says nothing to the connector. -/
theorem nextChannel_life {s : ClientLoop} {c : Nat}
    {loop : EventLoop ClientChannel ClientFunctor}
    (next : s.loop.nextChannel = .ok (.conn c, loop)) :
    ({ s with loop := loop } : ClientLoop).connectorLife = s.connectorLife := by
  obtain ⟨rest, phase, rfl⟩ := EventLoop.nextChannel_phase next
  simp [connectorLife, LoopPhase.ofConnector, phase]

theorem nextFunctor_life {s : ClientLoop} {cb : ClientFunctor}
    {loop : EventLoop ClientChannel ClientFunctor} (next : s.loop.nextFunctor = .ok (cb, loop))
    (other : ofConnector [cb] = []) :
    ({ s with loop := loop } : ClientLoop).connectorLife = s.connectorLife := by
  obtain ⟨rest, phase, rfl⟩ := EventLoop.nextFunctor_phase next
  have skipped : ofConnector (cb :: rest) = ofConnector rest := by
    rw [← List.singleton_append, ofConnector_append, other, List.nil_append]
  simp only [connectorLife, LoopPhase.ofConnector, phase, skipped]

/-- The answers to the attempt a step may make. -/
def Op.attempt : Op → Option Connector.Attempt
  | .functor a => some a.attempt
  | .event _ _ a => some a.attempt
  | .timer _ a => some a.attempt
  | .connect _ a => some a
  | _ => none

/-- The step of the connector a step of the client stands for. -/
inductive Stands (s t : ClientLoop) : Op → ConnectorLife.Op → Prop where
  | poll {activeChannels : List ClientChannel} : Stands s t (.move (.polled activeChannels))
      (.poll (activeChannels.contains .timeQueue) (activeChannels.contains .connector))
  | doAppendFunctors : Stands s t (.move .doAppendFunctors) .doAppendFunctors
  | timer {i : Nat} {a : Answers} : Stands s t (.timer i a) (.timer i a.attempt a.close)
  | timersDone : Stands s t .timersDone .timersDone
  | event {revents : BitVec 32} {k : Connector.EventAnswers} {names : SockNames} :
      Stands s t (.connectorEvent revents k names) (.event revents k)
  | functor {a : Answers} {f : ConnectorFunctor} {rest : List ClientFunctor}
      (phase : s.loop.phase = .calling (.connector f :: rest)) :
      Stands s t (.functor a) (.functor a.attempt a.close)
  | start {thread : Option Nat} {a : Connector.Attempt} :
      Stands s t (.connect thread a) (.start (thread == some 0) a)
  | stop {thread : Option Nat} : Stands s t (.stop thread) .stop
  | destruct {thread : Option Nat} {unique : Bool} (idle : s.client.connection = none) :
      Stands s t (.destruct thread unique) .stop
  | restart {op : Op} {c : Nat} {a : Connector.Attempt} (attempt : op.attempt = some a)
      (live : s.destroyed = false) (mine : s.client.connection = some c)
      (connected : s.client.connected = true) (gone : t.client.connection = none) :
      Stands s t op (.restart a)

theorem Closes.life_step {s t : ClientLoop} {c : Nat} {a : Connector.Attempt}
    {loop : EventLoop ClientChannel ClientFunctor}
    (same : ({ s with loop := loop } : ClientLoop).connectorLife = s.connectorLife)
    (h : Closes { s with loop := loop } t c a) {op : Op} (attempt : op.attempt = some a) :
    t.connectorLife = s.connectorLife ∨
      ∃ o, Stands s t op o ∧ s.connectorLife.step o = .ok t.connectorLife := by
  obtain ⟨mine, live, client, destroyed, life, grows, noneMade⟩ := h
  rw [same] at life
  rcases life with kept | ⟨connected, restarted⟩
  · exact .inl kept
  · exact .inr ⟨_, .restart attempt live mine connected (by rw [client]), restarted⟩

theorem move_life {s : ClientLoop} {v : EventLoop.Move ClientChannel}
    {loop : EventLoop ClientChannel ClientFunctor} (moved : s.loop.move v = .ok loop)
    (reported : ∀ ch ∈ loop.activeChannels, s.reports ch = true) :
    ({ s with loop := loop } : ClientLoop).connectorLife = s.connectorLife ∨
      ∃ o, Stands s { s with loop := loop } (.move v) o ∧ s.connectorLife.step o =
        .ok ({ s with loop := loop } : ClientLoop).connectorLife := by
  cases EventLoop.moves_of_move moved with
  | loop phase => exact .inl (by simp [connectorLife, LoopPhase.ofConnector, phase])
  | leave phase => exact .inl (by simp [connectorLife, LoopPhase.ofConnector, phase])
  | poll phase => exact .inl (by simp [connectorLife, LoopPhase.ofConnector, phase])
  | polled activeChannels phase =>
    refine .inr ⟨_, .poll, ?_⟩
    have ended : s.connectorLife.phase = .functors [] := by
      simp [connectorLife, LoopPhase.ofConnector, phase]
    simp only [ConnectorLife.step, ended]
    rw [if_pos]
    · rfl
    · intro mem
      have watched := reported .connector (List.contains_iff_mem.mp mem)
      exact of_decide_eq_true watched
  | doAppendFunctors phase =>
    refine .inr ⟨_, .doAppendFunctors, ?_⟩
    have done : s.connectorLife.phase = .events false false := by
      simp [connectorLife, LoopPhase.ofConnector, phase]
    simp only [ConnectorLife.step, done]
    rfl
  | functorsDone phase => exact .inl (by simp [connectorLife, LoopPhase.ofConnector, phase])

/-- The channel's event is the connector's next, as the timers were served before. -/
theorem connector_next {s : ClientLoop} (timersFirst : TimersFirst s)
    (nodup : s.loop.activeChannels.Nodup) {loop : EventLoop ClientChannel ClientFunctor}
    (next : s.loop.nextChannel = .ok (.connector, loop)) :
    s.connectorLife.phase = .events false true ∧
      ({ s with loop := loop } : ClientLoop).connectorLife =
        { s.connectorLife with phase := .events false false } := by
  obtain ⟨rest, phase, rfl⟩ := EventLoop.nextChannel_phase next
  have active : s.loop.activeChannels = .connector :: rest := by
    simp [EventLoop.activeChannels, phase]
  rw [TimersFirst, active, List.tail_cons] at timersFirst
  rw [active, List.nodup_cons] at nodup
  constructor
  · simp [connectorLife, LoopPhase.ofConnector, phase, timersFirst]
  · simp [connectorLife, LoopPhase.ofConnector, timersFirst, nodup.1]

/-- Where the connector's loop is while the timers' event is handled. -/
theorem timers_phase {s : ClientLoop} {rest : List ClientChannel}
    (active : s.loop.activeChannels = .timeQueue :: rest) :
    s.connectorLife.phase = .events true (rest.contains .connector) := by
  unfold EventLoop.activeChannels at active
  split at active
  · rename_i l phase
    subst active
    simp [connectorLife, LoopPhase.ofConnector, phase]
  · cases active

/-- A step of the client is a step of its connector's life or leaves it alone. -/
theorem Takes.life {s t : ClientLoop} {op : Op} (takes : Takes s op t)
    (timersFirst : TimersFirst s) (nodup : s.loop.activeChannels.Nodup) :
    t.connectorLife = s.connectorLife ∨
      ∃ o, Stands s t op o ∧ s.connectorLife.step o = .ok t.connectorLife := by
  have functorStep : ∀ {a : Answers} {f : ConnectorFunctor}
      {loop : EventLoop ClientChannel ClientFunctor} {t : ClientLoop},
      s.loop.nextFunctor = .ok (.connector f, loop) →
      ({ s with loop := loop } : ClientLoop).connectorLife.runFunctor a.attempt a.close f =
        .ok t.connectorLife →
      s.connectorLife.step (.functor a.attempt a.close) = .ok t.connectorLife := by
    intro a f loop t next ran
    obtain ⟨rest, phase, rfl⟩ := EventLoop.nextFunctor_phase next
    have here : s.connectorLife.phase = .functors (f :: ofConnector rest) := by
      simp [connectorLife, LoopPhase.ofConnector, phase]
    simp only [ConnectorLife.step, here]
    exact ran
  have eventStep : ∀ {revents : BitVec 32} {k : Connector.EventAnswers}
      {loop : EventLoop ClientChannel ClientFunctor} {t : ClientLoop},
      s.loop.nextChannel = .ok (.connector, loop) →
      ({ s with loop := loop } : ClientLoop).connectorLife.act
        (s.client.connector.handleEvent revents k) = .ok t.connectorLife →
      s.connectorLife.step (.event revents k) = .ok t.connectorLife := by
    intro revents k loop t next ran
    obtain ⟨phase, left⟩ := connector_next timersFirst nodup next
    rw [left] at ran
    simp only [ConnectorLife.step, phase]
    exact ran
  cases takes with
  | user onConn spares => exact .inl spares.life
  | move moved nodup reported _ => exact move_life moved reported
  | functor next live ran beside =>
    obtain ⟨rest, phase, _⟩ := EventLoop.nextFunctor_phase next
    exact .inr ⟨_, .functor phase, functorStep next ran⟩
  | otherFunctor next other spares =>
    exact .inl (spares.life.trans (nextFunctor_life next other))
  | closingFunctor next closes => exact closes.life_step (nextFunctor_life next rfl) rfl
  | event next spares => exact .inl (spares.life.trans (nextChannel_life next))
  | closingEvent next closes => exact closes.life_step (nextChannel_life next) rfl
  | settles next live ran beside kept => exact .inr ⟨_, .event, eventStep next ran⟩
  | hands next live ran hands given => exact .inr ⟨_, .event, eventStep next ran⟩
  | timer active timer ran beside =>
    rename_i i a rest f m
    refine .inr ⟨_, .timer, ?_⟩
    simp only [ConnectorLife.step, timers_phase active]
    rw [show s.connectorLife.timers[i]? = some f from timer]
    dsimp only
    rw [ran]
    rfl
  | timersDone next =>
    refine .inr ⟨_, .timersDone, ?_⟩
    obtain ⟨rest, phase, rfl⟩ := EventLoop.nextChannel_phase next
    have active : s.loop.activeChannels = .timeQueue :: rest := by
      simp [EventLoop.activeChannels, phase]
    rw [active, List.nodup_cons] at nodup
    have here : s.connectorLife.phase = .events true (rest.contains .connector) := by
      simp [connectorLife, LoopPhase.ofConnector, phase]
    simp only [ConnectorLife.step, here]
    simp [connectorLife, LoopPhase.ofConnector, nodup.1]
  | enableRetry => exact .inl rfl
  | connect live ran beside => exact .inr ⟨_, .start, ran⟩
  | disconnect live spares => exact .inl spares.life
  | stop live ran beside => exact .inr ⟨_, .stop, ran⟩
  | destruct live mine spares => exact .inl spares.life
  | destructIdle live idle ran beside => exact .inr ⟨_, .destruct idle, ran⟩

end ClientLoop

end ZDQ
