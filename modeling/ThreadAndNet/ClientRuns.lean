import ThreadAndNet.ClientConnector

/-!
# What holds of every run of a client

A client has a connection only while its connector is connected, so `restart` is
never called while an attempt is in progress, and the connector's channel and
sockets are where they are for any connector.
-/

namespace ZDQ

open Machine

namespace ClientLoop

open ClientFunctor

structure Bound (s : ClientLoop) : Prop where
  alive : Alive s
  timersFirst : TimersFirst s
  situation : s.connectorLife.Situation
  timersRetry : s.connectorLife.TimersRetry
  connected : ∀ c, s.client.connection = some c → s.client.connector.state = .kConnected

theorem new_bound (wc : Bool) : Bound (new wc) := by
  refine ⟨new_alive wc, ?_, ?_, ?_, ?_⟩
  · simp [TimersFirst, new, EventLoop.new, EventLoop.activeChannels]
  · exact ConnectorLife.new_situation
  · simp [ConnectorLife.TimersRetry, connectorLife, new]
  · intro c mine
    cases mine

/-! ## The loop -/

/-- The loop takes a functor out of its queue. -/
def Op.isFunctor : Op → Bool
  | .functor _ => true
  | _ => false

theorem Op.onConn_notFunctor {op : Op} (onConn : op.onConn = true) : op.isFunctor = false := by
  cases op <;> first | rfl | cases onConn

/-- What a step does with the loop, besides appending functors. -/
inductive Turn (s t : ClientLoop) : Op → Prop where
  | stays {op : Op} (other : op.isFunctor = false) (grows : Grows s t) : Turn s t op
  | move {v : EventLoop.Move ClientChannel} (moved : s.loop.move v = .ok t.loop)
      (timersFirst : TimersFirst t) : Turn s t (.move v)
  | event {op : Op} {ch : ClientChannel} {loop : EventLoop ClientChannel ClientFunctor}
      (other : op.isFunctor = false) (next : s.loop.nextChannel = .ok (ch, loop))
      (grows : Grows { s with loop := loop } t) : Turn s t op
  | functor {a : Answers} {cb : ClientFunctor} {loop : EventLoop ClientChannel ClientFunctor}
      (next : s.loop.nextFunctor = .ok (cb, loop)) (grows : Grows { s with loop := loop } t) :
      Turn s t (.functor a)

theorem Takes.turn {s t : ClientLoop} {op : Op} (takes : Takes s op t) : Turn s t op := by
  cases takes with
  | user onConn spares => exact .stays (Op.onConn_notFunctor onConn) spares.grows
  | move moved nodup reported timersFirst => exact .move moved timersFirst
  | functor next live ran beside => exact .functor next beside.grows
  | otherFunctor next other spares => exact .functor next spares.grows
  | closingFunctor next closes => exact .functor next closes.grows
  | event next spares => exact .event rfl next spares.grows
  | closingEvent next closes => exact .event rfl next closes.grows
  | settles next live ran beside kept => exact .event rfl next beside.grows
  | hands next live ran hands given => exact .event rfl next hands.grows
  | timer active timer ran beside => exact .stays rfl beside.grows
  | timersDone next => exact .event rfl next (.of_eq rfl)
  | enableRetry => exact .stays rfl (.of_eq rfl)
  | connect live ran beside => exact .stays rfl beside.grows
  | disconnect live spares => exact .stays rfl spares.grows
  | stop live ran beside => exact .stays rfl beside.grows
  | destruct live mine spares => exact .stays rfl spares.grows
  | destructIdle live idle ran beside => exact .stays rfl beside.grows

theorem Grows.timersFirst {s t : ClientLoop} (h : Grows s t) (first : TimersFirst s) :
    TimersFirst t := by
  rw [TimersFirst, h.active]
  exact first

theorem Turn.timersFirst {s t : ClientLoop} {op : Op} (turn : Turn s t op)
    (first : TimersFirst s) : TimersFirst t := by
  cases turn with
  | stays other grows => exact grows.timersFirst first
  | move moved timersFirst => exact timersFirst
  | event other next grows =>
    refine grows.timersFirst ?_
    rw [TimersFirst, (EventLoop.nextChannel_cases next).2, List.tail_cons] at first
    exact fun mem => first (List.mem_of_mem_tail mem)
  | functor next grows =>
    refine grows.timersFirst ?_
    rw [TimersFirst, (EventLoop.nextFunctor_cases next).2.2]
    simp

theorem Grows.queued {s t : ClientLoop} (h : Grows s t) :
    ∃ more, t.loop.queued = s.loop.queued ++ more := by
  obtain ⟨phase, more, added⟩ := h
  refine ⟨more, ?_⟩
  rw [EventLoop.queued, EventLoop.queued, EventLoop.functors, EventLoop.functors, phase, added,
    List.append_assoc]

/-- Functors are appended at the end of the queue and taken from its head. -/
theorem Turn.queued {s t : ClientLoop} {op : Op} (turn : Turn s t op) :
    op.isFunctor = false ∧ (∃ more, t.loop.queued = s.loop.queued ++ more) ∨
      op.isFunctor = true ∧ ∃ cb rest more, s.loop.queued = cb :: rest ∧
        t.loop.queued = rest ++ more := by
  cases turn with
  | stays other grows => exact .inl ⟨other, grows.queued⟩
  | move moved timersFirst =>
    exact .inl ⟨rfl, [], by rw [List.append_nil, (EventLoop.move_cases moved).1]⟩
  | event other next grows =>
    obtain ⟨more, added⟩ := grows.queued
    exact .inl ⟨other, more, by rw [added, (EventLoop.nextChannel_cases next).1]⟩
  | functor next grows =>
    obtain ⟨more, added⟩ := grows.queued
    exact .inr ⟨rfl, _, _, more, (EventLoop.nextFunctor_cases next).1, added⟩

/-! ## The client and its connection -/

/-- The steps in which the client can lose its connection. -/
def Op.parts : Op → Bool
  | .functor _ => true
  | .event _ _ _ => true
  | .destruct _ _ => true
  | _ => false

/-- The connection and its number stayed as they were. -/
def SameConnection (s t : ClientLoop) : Prop :=
  t.client.connection = s.client.connection ∧ t.client.nextConnId = s.client.nextConnId

theorem Beside.sameConnection {s t : ClientLoop} (h : Beside s t) : SameConnection s t := by
  rw [SameConnection, h.client]
  exact ⟨rfl, rfl⟩

theorem Spares.sameConnection {s t : ClientLoop} (h : Spares s t) : SameConnection s t := by
  rw [SameConnection, h.client]
  exact ⟨rfl, rfl⟩

/-- A connection is only ever made of the socket an attempt ended with. -/
theorem Takes.connection {s t : ClientLoop} {op : Op} (takes : Takes s op t) :
    SameConnection s t ∨
      (op.parts = true ∧ t.client.connection = none ∧
        t.client.nextConnId = s.client.nextConnId) ∨
      (∃ revents k names sockfd, op = .connectorEvent revents k names ∧
        s.destroyed = false ∧
        t.client.connection = some s.client.nextConnId ∧
        t.client.nextConnId = s.client.nextConnId + 1 ∧
        handed t.calls = handed s.calls ++ [sockfd] ∧
        ∃ e, t.conns s.client.nextConnId = some e ∧ e.track.conn.channel.fd = sockfd) := by
  cases takes with
  | user onConn spares => exact .inl spares.sameConnection
  | move => exact .inl ⟨rfl, rfl⟩
  | functor next live ran beside => exact .inl beside.sameConnection
  | otherFunctor next other spares => exact .inl spares.sameConnection
  | closingFunctor next closes =>
    refine .inr (.inl ⟨rfl, ?_⟩)
    rw [closes.client]
    exact ⟨rfl, rfl⟩
  | event next spares => exact .inl spares.sameConnection
  | closingEvent next closes =>
    refine .inr (.inl ⟨rfl, ?_⟩)
    rw [closes.client]
    exact ⟨rfl, rfl⟩
  | settles next live ran beside kept => exact .inl beside.sameConnection
  | hands next live ran hands given =>
    refine .inr (.inr ⟨_, _, _, _, rfl, hands.live, ?_, ?_, given, hands.made⟩)
    · rw [hands.client]
    · rw [hands.client]
  | timer active timer ran beside => exact .inl beside.sameConnection
  | timersDone => exact .inl ⟨rfl, rfl⟩
  | enableRetry => exact .inl ⟨rfl, rfl⟩
  | connect live ran beside => exact .inl beside.sameConnection
  | disconnect live spares => exact .inl spares.sameConnection
  | stop live ran beside => exact .inl beside.sameConnection
  | destruct live mine spares => exact .inr (.inl ⟨rfl, rfl, spares.sameConnection.2⟩)
  | destructIdle live idle ran beside => exact .inr (.inl ⟨rfl, rfl, beside.sameConnection.2⟩)

/-- The client loses a connection when a functor or an event of it closes it. -/
inductive Parting (s : ClientLoop) (c : Nat) : Op → Prop where
  | functor {a : Answers} {f : ConnFunctor} {loop : EventLoop ClientChannel ClientFunctor}
      (next : s.loop.nextFunctor = .ok (.conn c f, loop)) : Parting s c (.functor a)
  | event {revents : BitVec 32} {input : TcpConnection.EventInput} {a : Answers}
      {loop : EventLoop ClientChannel ClientFunctor}
      (next : s.loop.nextChannel = .ok (.conn c, loop)) : Parting s c (.event revents input a)

theorem Takes.parting {s t : ClientLoop} {op : Op} (takes : Takes s op t) {c : Nat}
    (mine : s.client.connection = some c) (gone : t.client.connection = none)
    (kept : ∀ thread unique, op ≠ .destruct thread unique) : Parting s c op := by
  have lost : ¬ SameConnection s t := by
    rintro ⟨same, _⟩
    rw [same, mine] at gone
    cases gone
  cases takes with
  | closingFunctor next closes =>
    cases mine.symm.trans closes.mine
    exact .functor next
  | closingEvent next closes =>
    cases mine.symm.trans closes.mine
    exact .event next
  | hands next live ran hands =>
    rw [hands.client] at gone
    cases gone
  | destruct => exact absurd rfl (kept _ _)
  | destructIdle => exact absurd rfl (kept _ _)
  | user onConn spares => exact absurd spares.sameConnection lost
  | functor next live ran beside => exact absurd beside.sameConnection lost
  | otherFunctor next other spares => exact absurd spares.sameConnection lost
  | event next spares => exact absurd spares.sameConnection lost
  | settles next live ran beside => exact absurd beside.sameConnection lost
  | timer active timer ran beside => exact absurd beside.sameConnection lost
  | connect live ran beside => exact absurd beside.sameConnection lost
  | disconnect live spares => exact absurd spares.sameConnection lost
  | stop live ran beside => exact absurd beside.sameConnection lost
  | move => exact absurd ⟨rfl, rfl⟩ lost
  | timersDone => exact absurd ⟨rfl, rfl⟩ lost
  | enableRetry => exact absurd ⟨rfl, rfl⟩ lost

/-- A connection is only ever made under the next number. -/
theorem Takes.noneMade {s t : ClientLoop} {op : Op} (takes : Takes s op t) :
    NoneMade s t ∨ t.client.nextConnId = s.client.nextConnId + 1 ∧
      ∀ d, d ≠ s.client.nextConnId → s.conns d = none → t.conns d = none := by
  have same : ∀ {u v : ClientLoop}, v.conns = u.conns → NoneMade u v := by
    intro u v conns d none
    rw [conns, none]
  cases takes with
  | user onConn spares => exact .inl spares.noneMade
  | move => exact .inl (same rfl)
  | functor next live ran beside => exact .inl (same beside.conns)
  | otherFunctor next other spares => exact .inl spares.noneMade
  | closingFunctor next closes => exact .inl closes.noneMade
  | event next spares => exact .inl spares.noneMade
  | closingEvent next closes => exact .inl closes.noneMade
  | settles next live ran beside kept => exact .inl (same beside.conns)
  | hands next live ran hands given =>
    refine .inr ⟨?_, hands.others⟩
    rw [hands.client]
  | timer active timer ran beside => exact .inl (same beside.conns)
  | timersDone => exact .inl (same rfl)
  | enableRetry => exact .inl (same rfl)
  | connect live ran beside => exact .inl (same beside.conns)
  | disconnect live spares => exact .inl spares.noneMade
  | stop live ran beside => exact .inl (same beside.conns)
  | destruct live mine spares => exact .inl spares.noneMade
  | destructIdle live idle ran beside => exact .inl (same beside.conns)

/-- Only its destructor destroys a client. -/
theorem Takes.destroyed {s t : ClientLoop} {op : Op} (takes : Takes s op t) :
    t.destroyed = s.destroyed ∨ ∃ thread unique, op = .destruct thread unique := by
  cases takes with
  | user onConn spares => exact .inl spares.destroyed
  | move => exact .inl rfl
  | functor next live ran beside => exact .inl beside.destroyed
  | otherFunctor next other spares => exact .inl spares.destroyed
  | closingFunctor next closes => exact .inl (closes.destroyed.trans closes.live.symm)
  | event next spares => exact .inl spares.destroyed
  | closingEvent next closes => exact .inl (closes.destroyed.trans closes.live.symm)
  | settles next live ran beside kept => exact .inl beside.destroyed
  | hands next live ran hands given => exact .inl (hands.destroyed.trans hands.live.symm)
  | timer active timer ran beside => exact .inl beside.destroyed
  | timersDone => exact .inl rfl
  | enableRetry => exact .inl rfl
  | connect live ran beside => exact .inl beside.destroyed
  | disconnect live spares => exact .inl spares.destroyed
  | stop live ran beside => exact .inl beside.destroyed
  | destruct => exact .inr ⟨_, _, rfl⟩
  | destructIdle => exact .inr ⟨_, _, rfl⟩

/-! ## Each connection and its descriptor -/

theorem Alive.finished {s : ClientLoop} (alive : Alive s) {c : Nat} {e : ClientConn}
    (he : s.conns c = some e) : Life.Finished 0 (s.life c e) := by
  obtain ⟨sockfd, wc, lived⟩ := alive.lives c e he
  exact Life.reached_finished lived

theorem Alive.forward {s t : ClientLoop} (alive : Alive s) {op : Op} (h : s.step op = .ok t)
    {c : Nat} {e : ClientConn} (he : s.conns c = some e) :
    ∃ e', t.conns c = some e' ∧ e'.track.conn.channel.fd = e.track.conn.channel.fd ∧
      (e.track.conn.state = .kDisconnected → e'.track.conn.state = .kDisconnected) ∧
      ((s.life c e).Gone → (t.life c e').Gone) := by
  obtain ⟨e', he', reaches⟩ := (step_follows alive.located h).old c e he
  have inv := alive.inv he
  have keep : ∀ x o y, Life.Inv 0 0 x ∧
      x.track.conn.channel.fd = e.track.conn.channel.fd → Life.step 0 0 x o = .ok y →
      Life.Inv 0 0 y ∧ y.track.conn.channel.fd = e.track.conn.channel.fd :=
    fun x o y both h => ⟨(both.1.step h).1, (Life.step_fd both.1.wired h).trans both.2⟩
  refine ⟨e', he', (Reaches.keeps keep reaches ⟨inv, rfl⟩).2, ?_,
    Reaches.keeps (fun _ _ _ gone h => Life.step_gone gone h) reaches⟩
  intro down
  have rank := inv.forward reaches
  rw [show (s.life c e).track.conn.state = .kDisconnected from down] at rank
  cases state : e'.track.conn.state with
  | kDisconnected => rfl
  | _ =>
    rw [show (t.life c e').track.conn.state = _ from state] at rank
    simp [Life.rank] at rank

/-- A connection the client let go is closed. -/
theorem Alive.closing {s t : ClientLoop} (alive : Alive s) {op : Op} (h : s.step op = .ok t)
    {c : Nat} (mine : s.client.connection = some c) (gone : t.client.connection = none)
    (kept : ∀ thread unique, op ≠ .destruct thread unique) :
    ∃ e, t.conns c = some e ∧ e.track.conn.state = .kDisconnected := by
  have acted : ∀ {e : ClientConn} {a : Connector.Attempt}
      {loop : EventLoop ClientChannel ClientFunctor} (o : TcpConnection.ConnOp),
      s.conns c = some e → ∀ track : Track, (({ s with loop := loop } : ClientLoop).put c
        { e with track := track }).act (some 0) c a (o.apply e.track.conn) = .ok t →
      ∃ e, t.conns c = some e ∧ e.track.conn.state = .kDisconnected := by
    intro e a loop o he track hact
    rcases act_connector hact with spares | ⟨conn, calls, ho, closes, closed⟩
    · have same : t.client.connection = s.client.connection := spares.sameConnection.1
      rw [same, mine] at gone
      cases gone
    rw [ho] at hact
    obtain ⟨e', he', made⟩ := act_made (Function.update_self ..) hact
    refine ⟨e', he', ?_⟩
    rw [made]
    exact o.apply_closes (alive.inv he).wired ho closes
  cases (step_takes h).parting mine gone kept with
  | functor next =>
    rename_i a f loop
    simp only [ClientLoop.step, next, runFunctor, runConn] at h
    split at h
    · cases h
    · rename_i e he
      exact acted (.functor _ a.write a.shutdown) he _ h
  | event next =>
    rename_i revents input a loop
    simp only [ClientLoop.step, next] at h
    split at h
    · cases h
    · rename_i e he
      exact acted (.event revents input) he _ h

theorem handed_attempts {k l : Connector} {calls : List ConnectorCall}
    (move : k.Attempts l calls) : handed calls = [] := by
  cases move with
  | retries sockfd wanted =>
    rw [handed_append, handed_retryTimer]
    rfl
  | _ => rfl

theorem performed_attempts {s t : ConnectorLife} {k l : Connector} {calls : List ConnectorCall}
    (move : k.Attempts l calls) (performed : s.Performed l calls t) :
    handed t.calls = handed s.calls := by
  rw [performed.journal, handed_append, handed_attempts move, List.append_nil]

theorem handed_runs {s t : ConnectorLife} {f : ConnectorFunctor} (ran : s.Runs f t) :
    handed t.calls = handed s.calls := by
  cases ran with
  | startInLoop idle move performed => exact performed_attempts move performed
  | notConnecting => rfl
  | stopInLoop connecting channel performed =>
    rw [performed.journal, handed_append, handed_append, ← List.singleton_append,
      handed_append, handed_retryTimer]
    simp [handed, Connector.removal]
  | resetChannel => rfl

/-- Only an event hands a socket over, and then the connector is connected. -/
theorem handed_does {s t : ConnectorLife} {op : ConnectorLife.Op} (did : s.Does op t) :
    handed t.calls = handed s.calls ∨
      (∃ revents a, op = .event revents a) ∧ s.connector.state = .kConnecting ∧
        t.connector.state = .kConnected ∧
        ∃ ch, s.connector.channel = some ch ∧ handed t.calls = handed s.calls ++ [ch.fd] := by
  cases did with
  | poll => exact .inl rfl
  | timer phase timer ran =>
    have kept := handed_runs ran
    exact .inl kept
  | timersDone => exact .inl rfl
  | event phase move performed =>
    cases move with
    | hands ch connecting channel success wanted =>
      refine .inr ⟨⟨_, _, rfl⟩, connecting, by rw [performed.connector], ch, channel, ?_⟩
      rw [performed.journal, handed_append]
      rfl
    | stays ignored =>
      left
      rw [performed.journal, List.append_nil]
    | drops ch connecting channel failed =>
      left
      rw [performed.journal, handed_append, handed_append, ← List.singleton_append,
        handed_append, handed_retryTimer]
      simp [handed, Connector.removal]
    | closes ch connecting channel success off =>
      left
      rw [performed.journal, handed_append]
      simp [handed, Connector.removal]
  | doAppendFunctors => exact .inl rfl
  | functor phase ran =>
    have kept := handed_runs ran
    exact .inl kept
  | startNow idle move performed => exact .inl (performed_attempts move performed)
  | startLater performed =>
    left
    rw [performed.journal, handed_append]
    simp [handed]
  | stop performed =>
    left
    rw [performed.journal, handed_append]
    simp [handed]
  | restart move performed => exact .inl (performed_attempts move performed)

/-- `restart` is only ever called when a connection is closed. -/
theorem Bound.restartsIdle {s t : ClientLoop} (bound : Bound s) {op : Op} {o : ConnectorLife.Op}
    (stands : Stands s t op o) : s.connectorLife.RestartsIdle o := by
  rintro a rfl connecting
  cases stands with
  | restart attempt live mine connected =>
    have state := bound.connected _ mine
    rw [show s.client.connector.state = .kConnecting from connecting] at state
    cases state

theorem Bound.life {s t : ClientLoop} (bound : Bound s) {op : Op} (h : s.step op = .ok t) :
    t.connectorLife = s.connectorLife ∨
      ∃ o, Stands s t op o ∧ s.connectorLife.Does o t.connectorLife := by
  rcases (step_takes h).life bound.timersFirst bound.alive.located.nodup with
    kept | ⟨o, stands, hstep⟩
  · exact .inl kept
  · exact .inr ⟨o, stands, ConnectorLife.step_cases hstep⟩

/-- The socket that is handed over is that of the attempt in progress, which has ended. -/
theorem Bound.handing {s t : ClientLoop} (bound : Bound s) {op : Op} (h : s.step op = .ok t)
    {sockfd : Nat} (given : handed t.calls = handed s.calls ++ [sockfd]) :
    s.client.connector.state = .kConnecting ∧ t.client.connector.state = .kConnected ∧
      ∃ ch, s.client.connector.channel = some ch ∧ ch.fd = sockfd := by
  rcases bound.life h with kept | ⟨o, stands, did⟩
  · rw [show t.calls = s.calls from congrArg ConnectorLife.calls kept] at given
    simp at given
  · rcases handed_does did with same | ⟨_, connecting, connected, ch, channel, given'⟩
    · rw [show handed t.calls = handed s.calls from same] at given
      simp at given
    · rw [show handed t.calls = handed s.calls ++ [ch.fd] from given'] at given
      cases List.append_cancel_left given
      exact ⟨connecting, connected, ch, channel, rfl⟩

theorem Bound.step {s t : ClientLoop} (bound : Bound s) {op : Op} (h : s.step op = .ok t) :
    Bound t := by
  have takes := step_takes h
  have life := bound.life h
  refine ⟨bound.alive.step h, takes.turn.timersFirst bound.timersFirst, ?_, ?_, ?_⟩
  · rcases life with kept | ⟨o, stands, did⟩
    · rw [kept]
      exact bound.situation
    · exact did.situation bound.situation bound.timersRetry (bound.restartsIdle stands)
  · rcases life with kept | ⟨o, stands, did⟩
    · rw [kept]
      exact bound.timersRetry
    · exact did.timersRetry bound.timersRetry
  · intro c mine
    show t.connectorLife.connector.state = .kConnected
    rcases takes.connection with ⟨same, _⟩ | ⟨_, none, _⟩ |
      ⟨_, _, _, sockfd, rfl, _, _, _, given, _⟩
    · rw [same] at mine
      have connected : s.connectorLife.connector.state = .kConnected := bound.connected c mine
      rcases life with kept | ⟨o, stands, did⟩
      · rw [kept]
        exact connected
      · refine did.connected connected ?_
        rintro a rfl
        cases stands with
        | restart attempt live mine' connected gone =>
          rw [same, mine] at gone
          cases gone
    · rw [none] at mine
      cases mine
    · exact (bound.handing h given).2.1

theorem reached_bound {wc : Bool} {s : ClientLoop} (reached : Reaches step (new wc) s) :
    Bound s :=
  Reaches.keeps (fun _ _ _ bound h => bound.step h) reached (new_bound wc)

/-! ## Kernel answers for runs on fixed labels -/

/-- Nothing fails, and the next attempt gets this descriptor. -/
def Answers.willing (sockfd : Nat) : Answers := ⟨.accepted 0, none, none, .inProgress sockfd⟩

/-- Nothing fails, and no attempt can be made. -/
def Answers.quiet : Answers := ⟨.accepted 0, none, none, ⟨none, none, none⟩⟩

/-- The two ends of a socket that is not connected to itself. -/
def twoEnds : SockNames := ⟨.ok ⟨127#32, 1#16⟩, .ok ⟨127#32, 2#16⟩⟩

end ClientLoop

end ZDQ
