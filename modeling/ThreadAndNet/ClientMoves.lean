import ThreadAndNet.ClientLoop

/-!
# What the steps of a client do

A step that did not fail passed its guards and ran one of the functions of the client,
of its loop or of a connection. What each of them then did is said here, so that
nothing later has to look into one again.
-/

namespace ZDQ

open Machine

/-- `connectEstablished` keeps the socket, and neither closes nor appends anything. -/
theorem TcpConnection.connectEstablished_cases {c d : TcpConnection} {calls : List Call}
    (h : c.connectEstablished = .ok (d, calls)) :
    d.channel.fd = c.channel.fd ∧ d.writeCompleteCallback = c.writeCompleteCallback ∧
      .closeCallback ∉ calls ∧ ∀ f, .append f ∉ calls := by
  unfold connectEstablished at h
  split at h
  · cases h
    refine ⟨rfl, rfl, ?_, ?_⟩ <;> simp
  · cases h

namespace TcpClient

theorem onConnector_cases {c client : TcpClient} {o : Connector.Outcome}
    {calls : List LoopCall} (h : c.onConnector o = .ok (client, calls)) :
    ∃ k made, o = .ok (k, made) ∧ client = { c with connector := k } ∧
      calls = made.map .connector := by
  unfold onConnector at h
  split at h
  · cases h
  · cases h
    exact ⟨_, _, rfl, rfl, rfl⟩

theorem newConnection_cases {c client : TcpClient} {sockfd : Nat} {names : SockNames}
    {conn : TcpConnection} {calls : List Call}
    (h : c.newConnection sockfd names = .ok (client, conn, calls)) :
    client = { c with
      connection := some c.nextConnId
      nextConnId := c.nextConnId + 1 } ∧
      (TcpConnection.new sockfd c.writeCallback).connectEstablished = .ok (conn, calls) := by
  unfold newConnection at h
  split at h
  · cases h
  split at h
  · cases h
  split at h
  · cases h
  dsimp only at h
  split at h
  · cases h
  · rename_i established
    cases h
    exact ⟨rfl, established⟩

/-- The connection is let go, and the connector is restarted or left alone. -/
theorem removeConnection_cases {c client : TcpClient} {conn : Nat} {a : Connector.Attempt}
    {calls : List LoopCall} (h : c.removeConnection conn a = .ok (client, calls)) :
    c.connection = some conn ∧ client = { c with
        connection := none
        connector := client.connector } ∧
      ∃ made : List ConnectorCall,
        calls = .appendConnectDestroyed conn :: made.map .connector ∧
        (client.connector = c.connector ∧ made = [] ∨
          c.connected = true ∧ c.connector.restart a = .ok (client.connector, made)) := by
  unfold removeConnection at h
  split at h
  swap
  · cases h
  rename_i mine
  obtain ⟨m, first, second, hm, hnext, rfl⟩ := andThen_cases h
  cases hm
  split at hnext
  · rename_i again
    rw [Bool.and_eq_true] at again
    obtain ⟨k, made, hk, rfl, rfl⟩ := onConnector_cases hnext
    exact ⟨mine, rfl, made, rfl, .inr ⟨again.2, hk⟩⟩
  · cases hnext
    exact ⟨mine, rfl, [], rfl, .inl ⟨rfl, rfl⟩⟩

theorem connectorEvent_cases {c client : TcpClient} {revents : BitVec 32}
    {a : Connector.EventAnswers} {names : SockNames} {calls : List ConnectorCall}
    {made : Option (TcpConnection × List Call)}
    (h : c.connectorEvent revents a names = .ok (client, calls, made)) :
    ∃ k, c.connector.handleEvent revents a = .ok (k, calls) ∧
      (made = none ∧ client = { c with connector := k } ∧
          (∀ sockfd, calls.getLast? ≠ some (.newConnectionCallback sockfd)) ∨
        ∃ sockfd conn connCalls, made = some (conn, connCalls) ∧
          calls.getLast? = some (.newConnectionCallback sockfd) ∧
          { c with connector := k }.newConnection sockfd names =
            .ok (client, conn, connCalls)) := by
  unfold connectorEvent at h
  split at h
  · cases h
  rename_i k calls' handled
  dsimp only at h
  split at h
  · rename_i sockfd last
    split at h
    · cases h
    · rename_i created
      cases h
      exact ⟨k, handled, .inr ⟨sockfd, _, _, rfl, last, created⟩⟩
  · rename_i other
    cases h
    exact ⟨k, handled, .inl ⟨rfl, rfl, other⟩⟩

theorem destruct_cases {c client : TcpClient} {unique : Bool} {calls : List ClientCall}
    (h : c.destruct unique = .ok (client, calls)) :
    (∃ conn, c.connection = some conn ∧ client = c ∧
        calls = .setCloseCallback conn :: if unique then [.forceClose conn] else []) ∨
      c.connection = none ∧ ∃ made,
        c.onConnector c.connector.stop = .ok (client, made) ∧ calls = made.map .onLoop := by
  unfold destruct at h
  split at h
  · rename_i conn mine
    cases h
    exact .inl ⟨conn, mine, rfl, rfl⟩
  · rename_i idle
    split at h
    · cases h
    · rename_i stopped
      cases h
      exact .inr ⟨idle, _, stopped, rfl⟩

end TcpClient

namespace ClientLoop

/-! ## Calls -/

theorem onPoller_cases {s t : ClientLoop} {o : Except Failure Registration}
    (h : s.onPoller o = .ok t) : ∃ r, o = .ok r ∧ t = { s with registration := r } := by
  unfold onPoller at h
  split at h
  · cases h
  · cases h
    exact ⟨_, rfl, rfl⟩

theorem letGo_cases {s t : ClientLoop} {thread : Option Nat} {c : Nat}
    (h : s.letGo thread c = .ok t) :
    ∃ e, s.conns c = some e ∧
      t = (s.put c { e with track := e.track.see (.removed 0) }).append thread
        (.conn c .connectDestroyed) := by
  unfold letGo at h
  split at h
  · cases h
  · rename_i e he
    cases h
    exact ⟨e, he, rfl⟩

theorem onLoop_cases {s t : ClientLoop} {thread : Option Nat}
    {o : TcpClient.Outcome LoopCall} (h : s.onLoop thread o = .ok t) :
    ∃ client calls, o = .ok (client, calls) ∧
      run (performLoop thread) { s with client := client } calls = .ok t := by
  unfold onLoop at h
  split at h
  · cases h
  · exact ⟨_, _, rfl, h⟩

/-- A member function of the connector was called. -/
theorem onConnector_cases {s t : ClientLoop} {thread : Option Nat} {c : TcpClient}
    {o : Connector.Outcome} (h : s.onLoop thread (c.onConnector o) = .ok t) :
    ∃ k calls, o = .ok (k, calls) ∧
      run (performConnector thread) { s with client := { c with connector := k } } calls =
        .ok t := by
  obtain ⟨client, made, ho, hrun⟩ := onLoop_cases h
  obtain ⟨k, calls, rfl, rfl, rfl⟩ := TcpClient.onConnector_cases ho
  rw [run_map] at hrun
  exact ⟨k, calls, rfl, hrun⟩

theorem removeConnection_cases {s t : ClientLoop} {thread : Option Nat} {c : Nat}
    {detached : Bool} {a : Connector.Attempt}
    (h : s.removeConnection thread c detached a = .ok t) :
    detached = true ∧ s.letGo thread c = .ok t ∨
      detached = false ∧ s.destroyed = false ∧ thread = some 0 ∧
        ∃ client calls, s.client.removeConnection c a = .ok (client, calls) ∧
          run (performLoop thread) { s with client := client } calls = .ok t := by
  unfold removeConnection at h
  split at h
  · rename_i detached
    exact .inl ⟨detached, h⟩
  rename_i attached
  split at h
  · cases h
  rename_i live
  split at h
  · rename_i here
    exact .inr ⟨Bool.eq_false_iff.mpr attached, Bool.eq_false_iff.mpr live, here, onLoop_cases h⟩
  · cases h

theorem perform_cases {s t : ClientLoop} {thread : Option Nat} {c : Nat}
    {a : Connector.Attempt} {call : Call} (h : perform thread c a s call = .ok t) :
    ∃ e track, s.conns c = some e ∧ e.track.note (thread == some 0) call = .ok track ∧
      ((∃ f, call = .append f ∧
          t = (s.put c { e with track := track }).append thread (.conn c f)) ∨
        call = .closeCallback ∧
          (s.put c { e with track := track }).removeConnection thread c e.detached a = .ok t ∨
        (∀ f, call ≠ .append f) ∧ call ≠ .closeCallback ∧
          t = s.put c { e with track := track }) := by
  unfold perform at h
  split at h
  · cases h
  rename_i e he
  split at h
  · cases h
  rename_i track noted
  refine ⟨e, track, he, noted, ?_⟩
  dsimp only at h
  split at h
  · rename_i f
    cases h
    exact .inl ⟨f, rfl, rfl⟩
  · exact .inr (.inl ⟨rfl, h⟩)
  · rename_i append close
    cases h
    exact .inr (.inr ⟨append, close, rfl⟩)

theorem act_cases {s t : ClientLoop} {thread : Option Nat} {c : Nat} {a : Connector.Attempt}
    {o : TcpConnection.Outcome} (h : s.act thread c a o = .ok t) :
    ∃ e conn calls, s.conns c = some e ∧ o = .ok (conn, calls) ∧
      run (perform thread c a) (s.put c { e with track := { e.track with conn := conn } }) calls =
        .ok t := by
  unfold act at h
  split at h
  · cases h
  rename_i e he
  split at h
  · cases h
  · exact ⟨e, _, _, he, rfl, h⟩

theorem userCall_cases {s t : ClientLoop} {thread : Option Nat} {c : Nat}
    {u : TcpConnection.UserCall} (h : s.userCall thread c u = .ok t) :
    ∃ e, s.conns c = some e ∧
      s.act thread c ⟨none, none, none⟩ (e.track.conn.userCall (thread == some 0) u) =
        .ok t := by
  unfold userCall at h
  split at h
  · cases h
  · rename_i e he
    exact ⟨e, he, h⟩

theorem setCloseCallback_cases {s t : ClientLoop} {c : Nat}
    (h : s.setCloseCallback c = .ok t) :
    ∃ e, s.conns c = some e ∧ t = s.put c { e with detached := true } := by
  unfold setCloseCallback at h
  split at h
  · cases h
  · rename_i e he
    cases h
    exact ⟨e, he, rfl⟩

/-- `setCloseCallback` is run or queued. -/
theorem performClient_setCloseCallback {s t : ClientLoop} {thread : Option Nat}
    {shutdown : Status} {c : Nat}
    (h : performClient thread shutdown s (.setCloseCallback c) = .ok t) :
    s.setCloseCallback c = .ok t ∨ t = s.append thread (.setCloseCallback c) := by
  simp only [performClient] at h
  split at h
  · exact .inl h
  · cases h
    exact .inr rfl

theorem onClient_cases {s t : ClientLoop} {thread : Option Nat} {shutdown : Status}
    {o : TcpClient.Outcome ClientCall} (h : s.onClient thread shutdown o = .ok t) :
    ∃ client calls, o = .ok (client, calls) ∧
      run (performClient thread shutdown) { s with client := client } calls = .ok t := by
  unfold onClient at h
  split at h
  · cases h
  · exact ⟨_, _, rfl, h⟩

theorem dropConnector_cases {s t : ClientLoop} (h : s.dropConnector = .ok t) : t = s := by
  unfold dropConnector at h
  split at h
  · cases h
    rfl
  · cases h

/-! ## What the loop runs -/

theorem runConn_cases {s t : ClientLoop} {c : Nat} {f : ConnFunctor} {a : Answers}
    (h : s.runConn c f a = .ok t) :
    ∃ e, s.conns c = some e ∧
      (s.put c { e with track := e.track.starts 0 f }).act (some 0) c a.attempt
        (e.track.conn.runFunctor a.write a.shutdown f) = .ok t := by
  unfold runConn at h
  split at h
  · cases h
  · rename_i e he
    exact ⟨e, he, h⟩

theorem runTimer_cases {s t : ClientLoop} {i : Nat} {a : Answers}
    (h : s.runTimer i a = .ok t) :
    ∃ f m, s.timers[i]? = some f ∧ s.runConnector f a = .ok m ∧
      t = { m with timers := m.timers.eraseIdx i } := by
  unfold runTimer at h
  split at h
  · cases h
  rename_i f timer
  split at h
  · cases h
  · rename_i m ran
    exact ⟨f, m, timer, ran, dropConnector_cases h⟩

theorem connectorEvent_cases {s t : ClientLoop} {revents : BitVec 32}
    {k : Connector.EventAnswers} {names : SockNames}
    (h : s.connectorEvent revents k names = .ok t) :
    s.connectorLive = true ∧ ∃ client calls made m,
      s.client.connectorEvent revents k names = .ok (client, calls, made) ∧
      run (performConnector (some 0)) { s with client := client } calls = .ok m ∧
      (made = none ∧ t = m ∨
        ∃ conn connCalls, made = some (conn, connCalls) ∧ m.destroyed = false ∧
          (m.put s.client.nextConnId ⟨(Track.create conn.channel.fd
            conn.writeCompleteCallback).starts 0 .connectEstablished, false, 0⟩).act (some 0)
              s.client.nextConnId ⟨none, none, none⟩ (.ok (conn, connCalls)) = .ok t) := by
  unfold connectorEvent at h
  split at h
  swap
  · cases h
  rename_i live
  dsimp only at h
  split at h
  · cases h
  rename_i client calls made handled
  split at h
  · cases h
  rename_i m performed
  refine ⟨live, client, calls, made, m, handled, performed, ?_⟩
  split at h
  · cases h
    exact .inl ⟨rfl, rfl⟩
  · rename_i conn connCalls
    split at h
    · cases h
    · rename_i present
      exact .inr ⟨conn, connCalls, rfl, Bool.eq_false_iff.mpr present, h⟩

/-! ## Steps -/

/-- What a step passed and what it ran. -/
inductive Does (s : ClientLoop) : Op → ClientLoop → Prop where
  | move {v : EventLoop.Move ClientChannel} {loop : EventLoop ClientChannel ClientFunctor}
      (moved : s.loop.move v = .ok loop) (nodup : loop.activeChannels.Nodup)
      (reported : ∀ ch ∈ loop.activeChannels, s.reports ch = true)
      (timersFirst : .timeQueue ∉ loop.activeChannels.tail) :
      Does s (.move v) { s with loop := loop }
  | functor {a : Answers} {cb : ClientFunctor}
      {loop : EventLoop ClientChannel ClientFunctor} {t : ClientLoop}
      (next : s.loop.nextFunctor = .ok (cb, loop))
      (ran : { s with loop := loop }.runFunctor a cb = .ok t) : Does s (.functor a) t
  | event {revents : BitVec 32} {input : TcpConnection.EventInput} {a : Answers} {c : Nat}
      {e : ClientConn} {loop : EventLoop ClientChannel ClientFunctor} {t : ClientLoop}
      (next : s.loop.nextChannel = .ok (.conn c, loop)) (here : s.conns c = some e)
      (handled : ({ s with loop := loop }.put c { e with track := e.track.see .event }).act
        (some 0) c a.attempt (e.track.conn.handleEvent revents input) = .ok t) :
      Does s (.event revents input a) t
  | connectorEvent {revents : BitVec 32} {k : Connector.EventAnswers} {names : SockNames}
      {loop : EventLoop ClientChannel ClientFunctor} {t : ClientLoop}
      (next : s.loop.nextChannel = .ok (.connector, loop))
      (handled : { s with loop := loop }.connectorEvent revents k names = .ok t) :
      Does s (.connectorEvent revents k names) t
  | timer {i : Nat} {a : Answers} {rest : List ClientChannel} {t : ClientLoop}
      (active : s.loop.activeChannels = .timeQueue :: rest) (ran : s.runTimer i a = .ok t) :
      Does s (.timer i a) t
  | timersDone {loop : EventLoop ClientChannel ClientFunctor}
      (next : s.loop.nextChannel = .ok (.timeQueue, loop)) :
      Does s .timersDone { s with loop := loop }
  | user {thread : Option Nat} {c : Nat} {u : TcpConnection.UserCall} {t : ClientLoop}
      (called : s.userCall thread c u = .ok t) : Does s (.user thread c u) t
  | hold {c : Nat} {e : ClientConn} (here : s.conns c = some e) :
      Does s (.hold c) (s.put c { e with userRefs := e.userRefs + 1 })
  | release {c n : Nat} {e : ClientConn} (here : s.conns c = some e)
      (held : e.userRefs = n + 1) : Does s (.release c) (s.put c { e with userRefs := n })
  | enableRetry (live : s.destroyed = false) :
      Does s .enableRetry { s with client := s.client.enableRetry }
  | connect {thread : Option Nat} {a : Connector.Attempt} {t : ClientLoop}
      (live : s.destroyed = false)
      (called : s.onLoop thread (s.client.connect (thread == some 0) a) = .ok t) :
      Does s (.connect thread a) t
  | disconnect {thread : Option Nat} {shutdown : Status} {t : ClientLoop}
      (live : s.destroyed = false)
      (called : s.onClient thread shutdown s.client.disconnect = .ok t) :
      Does s (.disconnect thread shutdown) t
  | stop {thread : Option Nat} {t : ClientLoop} (live : s.destroyed = false)
      (called : s.onLoop thread s.client.stop = .ok t) : Does s (.stop thread) t
  | destruct {thread : Option Nat} {unique : Bool} {m : ClientLoop}
      (live : s.destroyed = false) (last : s.uniqueness unique = true)
      (called : s.onClient thread none (s.client.destruct unique) = .ok m) :
      Does s (.destruct thread unique)
        { m with destroyed := true, client := { m.client with connection := none } }

theorem step_cases {s t : ClientLoop} {op : Op} (h : s.step op = .ok t) : Does s op t := by
  cases op with
  | move v =>
    simp only [step] at h
    split at h
    · cases h
    rename_i loop moved
    split at h
    · rename_i ready
      obtain ⟨nodup, reported, timersFirst⟩ := ready
      cases h
      exact .move moved nodup (List.all_eq_true.mp reported) timersFirst
    · cases h
  | functor a =>
    simp only [step] at h
    split at h
    · cases h
    · rename_i next
      exact .functor next h
  | event revents input a =>
    simp only [step] at h
    split at h
    · rename_i next
      split at h
      · cases h
      · rename_i e here
        exact .event next here h
    · cases h
  | connectorEvent revents k names =>
    simp only [step] at h
    split at h
    · rename_i next
      exact .connectorEvent next h
    · cases h
  | timer i a =>
    simp only [step] at h
    split at h
    · rename_i active
      exact .timer active h
    · cases h
  | timersDone =>
    simp only [step] at h
    split at h
    · rename_i next
      cases h
      exact .timersDone next
    · cases h
  | user thread c u => exact .user h
  | hold c =>
    simp only [step] at h
    split at h
    · cases h
    · rename_i e here
      cases h
      exact .hold here
  | release c =>
    simp only [step] at h
    split at h
    · cases h
    rename_i e here
    split at h
    · cases h
    · rename_i held
      cases h
      exact .release here held
  | enableRetry =>
    simp only [step] at h
    split at h
    · cases h
    · rename_i live
      cases h
      exact .enableRetry (Bool.eq_false_iff.mpr live)
  | connect thread a =>
    simp only [step] at h
    split at h
    · cases h
    · rename_i live
      exact .connect (Bool.eq_false_iff.mpr live) h
  | disconnect thread shutdown =>
    simp only [step] at h
    split at h
    · cases h
    · rename_i live
      exact .disconnect (Bool.eq_false_iff.mpr live) h
  | stop thread =>
    simp only [step] at h
    split at h
    · cases h
    · rename_i live
      exact .stop (Bool.eq_false_iff.mpr live) h
  | destruct thread unique =>
    simp only [step] at h
    split at h
    · cases h
    rename_i enabled
    rw [Bool.not_eq_true, Bool.or_eq_false_iff, Bool.not_eq_false'] at enabled
    split at h
    · cases h
    · rename_i called
      cases dropConnector_cases h
      exact .destruct enabled.1 enabled.2 called

end ClientLoop

end ZDQ
