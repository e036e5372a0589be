import ThreadAndNet.ConnectionLife
import ThreadAndNet.EventLoop
import ThreadAndNet.TcpClient

/-!
# A client on its loop

The client, its connector, the retry timers and all connections it ever made,
with the one loop they share; the loop's thread is called 0. Once the client is
destroyed, its connections and the functors it left behind stay.
-/

namespace ZDQ

open Machine

inductive ClientChannel where
  | connector
  | timeQueue
  | conn (c : Nat)
deriving DecidableEq

inductive ClientFunctor where
  /-- a member function of the connector, bound to the bare pointer -/
  | connector (f : ConnectorFunctor)
  /-- a member function of a connection, with the arguments bound to it -/
  | conn (c : Nat) (f : ConnFunctor)
  /-- `setCloseCallback` with the free function `removeConnection` -/
  | setCloseCallback (c : Nat)
deriving DecidableEq

/-- A connection the client made. -/
structure ClientConn where
  track : Track
  /-- whether `closeCallback_` is the free function `removeConnection` -/
  detached : Bool
  /-- how many references user code keeps -/
  userRefs : Nat

structure ClientLoop where
  client : TcpClient
  /-- whether `~TcpClient` has run -/
  destroyed : Bool
  loop : EventLoop ClientChannel ClientFunctor
  /-- the timers of `runAfter`; each of them holds the connector -/
  timers : List ConnectorFunctor
  /-- the poller's record of `channel_` -/
  registration : Registration
  conns : Nat → Option ClientConn
  /-- what the connector called so far -/
  calls : List ConnectorCall

namespace ClientLoop

def new (writeCallback : Bool) : ClientLoop where
  client := .new writeCallback
  destroyed := false
  loop := .new
  timers := []
  registration := .fresh
  conns := fun _ => none
  calls := []

/-- `appendFuncInLoop`, called on some thread. -/
def append (s : ClientLoop) (thread : Option Nat) (cb : ClientFunctor) : ClientLoop :=
  { s with loop := s.loop.appendFuncInLoop (thread == some 0) cb }

def put (s : ClientLoop) (c : Nat) (e : ClientConn) : ClientLoop :=
  { s with conns := Function.update s.conns c (some e) }

/-- The connector lives as long as the client or a timer holds it. -/
def connectorLive (s : ClientLoop) : Bool := !s.destroyed || !s.timers.isEmpty

/-- `~Connector`, where the last holder of the connector went. -/
def dropConnector (s : ClientLoop) : Except Failure ClientLoop :=
  if s.connectorLive || s.client.connector.channel.isNone then .ok s else .error .assertion

/-! ## Calls -/

def onPoller (s : ClientLoop) (r : Except Failure Registration) : Except Failure ClientLoop :=
  match r with
  | .error e => .error e
  | .ok r => .ok { s with registration := r }

/-- A call of the connector; `newConnectionCallback_` is `newConnection`, which its
caller makes after all other calls. -/
def performConnector (thread : Option Nat) (s : ClientLoop) (call : ConnectorCall) :
    Except Failure ClientLoop :=
  let s := { s with calls := s.calls ++ [call] }
  match call with
  | .update channel => s.onPoller (s.registration.update channel)
  | .remove _ => s.onPoller s.registration.remove
  | .appendFuncInLoop f => .ok (s.append thread (.connector f))
  | .runAfter _ f => .ok { s with timers := s.timers ++ [f] }
  | .socket _ => .ok s
  | .connect _ => .ok s
  | .close _ => .ok s
  | .newConnectionCallback _ => .ok s

/-- The owner of a connection lets it go. -/
def letGo (s : ClientLoop) (thread : Option Nat) (c : Nat) : Except Failure ClientLoop :=
  match s.conns c with
  | none => .error .undefined
  | some e =>
    .ok ((s.put c { e with track := e.track.see (.removed 0) }).append thread
      (.conn c .connectDestroyed))

def performLoop (thread : Option Nat) (s : ClientLoop) (call : LoopCall) :
    Except Failure ClientLoop :=
  match call with
  | .connector call => performConnector thread s call
  | .appendConnectDestroyed c => s.letGo thread c

def onLoop (s : ClientLoop) (thread : Option Nat) (o : TcpClient.Outcome LoopCall) :
    Except Failure ClientLoop :=
  match o with
  | .error e => .error e
  | .ok (client, calls) => run (performLoop thread) { s with client := client } calls

/-- `closeCallback_` of connection `c`: `removeConnection` of the client, or the free
function of that name. -/
def removeConnection (s : ClientLoop) (thread : Option Nat) (c : Nat) (detached : Bool)
    (a : Connector.Attempt) : Except Failure ClientLoop :=
  if detached then s.letGo thread c
  else if s.destroyed then .error .undefined
  else if thread = some 0 then s.onLoop thread (s.client.removeConnection c a)
  else .error .assertion

/-- A call of connection `c`, made on some thread. -/
def perform (thread : Option Nat) (c : Nat) (a : Connector.Attempt) (s : ClientLoop)
    (call : Call) : Except Failure ClientLoop :=
  match s.conns c with
  | none => .error .undefined
  | some e =>
    match e.track.note (thread == some 0) call with
    | .error e => .error e
    | .ok track =>
      let s := s.put c { e with track := track }
      match call with
      | .append f => .ok (s.append thread (.conn c f))
      | .closeCallback => s.removeConnection thread c e.detached a
      | _ => .ok s

/-- Take over what a member function of `c` returned and make its calls in order. -/
def act (s : ClientLoop) (thread : Option Nat) (c : Nat) (a : Connector.Attempt)
    (o : TcpConnection.Outcome) : Except Failure ClientLoop :=
  match s.conns c with
  | none => .error .undefined
  | some e =>
    match o with
    | .error failure => .error failure
    | .ok (conn, calls) =>
      run (perform thread c a) (s.put c { e with track := { e.track with conn := conn } }) calls

/-- A call of user code, or of the client, on connection `c`; it never closes the
connection, so no attempt to connect can follow. -/
def userCall (s : ClientLoop) (thread : Option Nat) (c : Nat) (u : TcpConnection.UserCall) :
    Except Failure ClientLoop :=
  match s.conns c with
  | none => .error .disabled
  | some e =>
    s.act thread c ⟨none, none, none⟩ (e.track.conn.userCall (thread == some 0) u)

def setCloseCallback (s : ClientLoop) (c : Nat) : Except Failure ClientLoop :=
  match s.conns c with
  | none => .error .undefined
  | some e => .ok (s.put c { e with detached := true })

def performClient (thread : Option Nat) (shutdown : Status) (s : ClientLoop)
    (call : ClientCall) : Except Failure ClientLoop :=
  match call with
  | .onLoop call => performLoop thread s call
  | .shutdown c => s.userCall thread c (.shutdown shutdown)
  | .setCloseCallback c =>
    if thread = some 0 then s.setCloseCallback c
    else .ok (s.append thread (.setCloseCallback c))
  | .forceClose c => s.userCall thread c .forceClose

def onClient (s : ClientLoop) (thread : Option Nat) (shutdown : Status)
    (o : TcpClient.Outcome ClientCall) : Except Failure ClientLoop :=
  match o with
  | .error e => .error e
  | .ok (client, calls) =>
    run (performClient thread shutdown) { s with client := client } calls

/-! ## What the loop runs -/

/-- The kernel's answers one step may need. -/
structure Answers where
  write : WriteResult
  shutdown : Status
  close : Status
  attempt : Connector.Attempt

/-- Run a functor of connection `c`. -/
def runConn (s : ClientLoop) (c : Nat) (f : ConnFunctor) (a : Answers) :
    Except Failure ClientLoop :=
  match s.conns c with
  | none => .error .undefined
  | some e =>
    (s.put c { e with track := e.track.starts 0 f }).act (some 0) c a.attempt
      (e.track.conn.runFunctor a.write a.shutdown f)

/-- Run a functor of the connector; `channel_` takes its record in the poller with it. -/
def runConnector (s : ClientLoop) (f : ConnectorFunctor) (a : Answers) :
    Except Failure ClientLoop :=
  match f with
  | .startInLoop =>
    s.onLoop (some 0) (s.client.onConnector (s.client.connector.startInLoop a.attempt))
  | .stopInLoop =>
    s.onLoop (some 0) (s.client.onConnector (s.client.connector.stopInLoop a.close))
  | .resetChannel =>
    { s with registration := .fresh }.onLoop (some 0)
      (s.client.onConnector s.client.connector.resetChannel)

def runFunctor (s : ClientLoop) (a : Answers) : ClientFunctor → Except Failure ClientLoop
  | .connector f => if s.connectorLive then s.runConnector f a else .error .undefined
  | .conn c f => s.runConn c f a
  | .setCloseCallback c => s.setCloseCallback c

/-- A retry timer runs, and is deleted afterwards with its reference. -/
def runTimer (s : ClientLoop) (i : Nat) (a : Answers) : Except Failure ClientLoop :=
  match s.timers[i]? with
  | none => .error .disabled
  | some f =>
    match s.runConnector f a with
    | .error e => .error e
    | .ok s => { s with timers := s.timers.eraseIdx i }.dropConnector

/-- The event of the connecting socket: the connector's calls, and what
`newConnection` did if it was called. -/
def connectorEvent (s : ClientLoop) (revents : BitVec 32) (k : Connector.EventAnswers)
    (names : SockNames) : Except Failure ClientLoop :=
  if s.connectorLive then
    let c := s.client.nextConnId
    match s.client.connectorEvent revents k names with
    | .error e => .error e
    | .ok (client, calls, made) =>
      match run (performConnector (some 0)) { s with client := client } calls with
      | .error e => .error e
      | .ok s =>
        match made with
        | none => .ok s
        | some (conn, connCalls) =>
          if s.destroyed then .error .undefined
          else
            let track := Track.create conn.channel.fd conn.writeCompleteCallback
            (s.put c ⟨track.starts 0 .connectEstablished, false, 0⟩).act (some 0) c
              ⟨none, none, none⟩ (.ok (conn, connCalls))
  else .error .undefined

/-- `poll` may report this channel. -/
def reports (s : ClientLoop) : ClientChannel → Bool
  | .connector => decide s.registration.Watched
  | .timeQueue => true
  | .conn c =>
    match s.conns c with
    | none => false
    | some e => decide e.track.registration.Watched

/-! ## Steps -/

/-- The steps of the loop's thread, and the calls of user code on any thread
(`none`: one that runs no loop). -/
inductive Op where
  | move (v : EventLoop.Move ClientChannel)
  | functor (a : Answers)
  | event (revents : BitVec 32) (input : TcpConnection.EventInput) (a : Answers)
  | connectorEvent (revents : BitVec 32) (k : Connector.EventAnswers) (names : SockNames)
  /-- one of the expired timers; which ones expire is up to the clock -/
  | timer (i : Nat) (a : Answers)
  /-- the end of `TimeQueue::handleRead` -/
  | timersDone
  | user (thread : Option Nat) (c : Nat) (u : TcpConnection.UserCall)
  | hold (c : Nat)
  | release (c : Nat)
  | enableRetry
  | connect (thread : Option Nat) (a : Connector.Attempt)
  | disconnect (thread : Option Nat) (shutdown : Status)
  | stop (thread : Option Nat)
  /-- `~TcpClient`; `unique` is what `connection_.unique()` returned -/
  | destruct (thread : Option Nat) (unique : Bool)

/-- The functor was bound to a `TcpConnectionPtr` of `c`. -/
def binds (c : Nat) : ClientFunctor → Bool
  | .conn _ (.sendInLoop _) => false
  | .conn _ .shutdownInLoop => false
  | .conn d _ => d == c
  | .setCloseCallback d => d == c
  | .connector _ => false

/-- Somebody besides `connection_` may hold `c`; a functor that has run is kept by its
batch until the batch ends. -/
def shared (s : ClientLoop) (c : Nat) : Bool :=
  match s.conns c with
  | none => false
  | some e => 0 < e.userRefs || s.loop.queued.any (binds c)

/-- What `connection_.unique()` can return. -/
def uniqueness (s : ClientLoop) (unique : Bool) : Bool :=
  match s.client.connection with
  | none => !unique
  | some c => if unique then !s.shared c else s.shared c || s.loop.callingPendingFunctors

def step (s : ClientLoop) : Op → Except Failure ClientLoop
  | .move v =>
    match s.loop.move v with
    | .error e => .error e
    | .ok loop =>
      -- `fillActiveChannels` finds every watched channel at most once, and in the order of
      -- the slots, of which the timers' is the first
      if loop.activeChannels.Nodup ∧ loop.activeChannels.all s.reports ∧
          .timeQueue ∉ loop.activeChannels.tail then
        .ok { s with loop := loop }
      else .error .disabled
  | .functor a =>
    match s.loop.nextFunctor with
    | .error e => .error e
    | .ok (cb, loop) => { s with loop := loop }.runFunctor a cb
  | .event revents input a =>
    match s.loop.nextChannel with
    | .ok (.conn c, loop) =>
      match s.conns c with
      | none => .error .undefined
      | some e =>
        ({ s with loop := loop }.put c { e with track := e.track.see .event }).act (some 0) c
          a.attempt (e.track.conn.handleEvent revents input)
    | _ => .error .disabled
  | .connectorEvent revents k names =>
    match s.loop.nextChannel with
    | .ok (.connector, loop) => { s with loop := loop }.connectorEvent revents k names
    | _ => .error .disabled
  | .timer i a =>
    match s.loop.activeChannels with
    | .timeQueue :: _ => s.runTimer i a
    | _ => .error .disabled
  | .timersDone =>
    match s.loop.nextChannel with
    | .ok (.timeQueue, loop) => .ok { s with loop := loop }
    | _ => .error .disabled
  | .user thread c u => s.userCall thread c u
  | .hold c =>
    match s.conns c with
    | none => .error .disabled
    | some e => .ok (s.put c { e with userRefs := e.userRefs + 1 })
  | .release c =>
    match s.conns c with
    | none => .error .disabled
    | some e =>
      match e.userRefs with
      | 0 => .error .disabled
      | n + 1 => .ok (s.put c { e with userRefs := n })
  | .enableRetry =>
    if s.destroyed then .error .disabled
    else .ok { s with client := s.client.enableRetry }
  | .connect thread a =>
    if s.destroyed then .error .disabled
    else s.onLoop thread (s.client.connect (thread == some 0) a)
  | .disconnect thread shutdown =>
    if s.destroyed then .error .disabled
    else s.onClient thread shutdown s.client.disconnect
  | .stop thread =>
    if s.destroyed then .error .disabled
    else s.onLoop thread s.client.stop
  | .destruct thread unique =>
    if s.destroyed || !s.uniqueness unique then .error .disabled
    else
      match s.onClient thread none (s.client.destruct unique) with
      | .error e => .error e
      | .ok s => { s with
          destroyed := true
          client := { s.client with connection := none } }.dropConnector

end ClientLoop

end ZDQ
