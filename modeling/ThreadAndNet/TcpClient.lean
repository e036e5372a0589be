import ThreadAndNet.Connector
import ThreadAndNet.TcpConnection

/-!
# The client: a connector and the connection it made last

A connection is known by the number it got from `nextConnId_`. Its name, which
`newConnection` formats from that number, plays no part in what happens to it
and is left out here.
-/

namespace ZDQ

/-- What a client does on its loop. -/
inductive LoopCall where
  | connector (call : ConnectorCall)
  /-- `loop_->appendFuncInLoop` of `connectDestroyed` on a connection -/
  | appendConnectDestroyed (conn : Nat)
deriving DecidableEq

/-- What it does besides to the connection it made last. -/
inductive ClientCall where
  | onLoop (call : LoopCall)
  | shutdown (conn : Nat)
  /-- `setCloseCallback` with the free function `removeConnection`, run or
  queued by `loop_->runInLoop` -/
  | setCloseCallback (conn : Nat)
  | forceClose (conn : Nat)
deriving DecidableEq

structure TcpClient where
  connector : Connector
  retry : Bool
  connected : Bool
  nextConnId : Nat
  connection : Option Nat
  /-- whether a `writeCallback_` is set -/
  writeCallback : Bool

namespace TcpClient

abbrev Outcome (C : Type) := Except Failure (TcpClient × List C)

def INT_MAX : Nat := 2 ^ 31 - 1

def new (writeCallback : Bool) : TcpClient := ⟨Connector.new, false, true, 1, none, writeCallback⟩

def enableRetry (c : TcpClient) : TcpClient := { c with retry := true }

/-- The client after a member function of its connector ran. -/
def onConnector (c : TcpClient) (o : Connector.Outcome) : Outcome LoopCall :=
  match o with
  | .error e => .error e
  | .ok (k, calls) => .ok ({ c with connector := k }, calls.map .connector)

def connect (c : TcpClient) (isInLoopThread : Bool) (a : Connector.Attempt) :
    Outcome LoopCall :=
  { c with connected := true }.onConnector (c.connector.start isInLoopThread a)

def disconnect (c : TcpClient) : Outcome ClientCall :=
  .ok ({ c with connected := false }, c.connection.toList.map .shutdown)

def stop (c : TcpClient) : Outcome LoopCall :=
  { c with connected := false }.onConnector c.connector.stop

/-- The client, the connection and the calls the connection made. -/
def newConnection (c : TcpClient) (sockfd : Nat) (names : SockNames) :
    Except Failure (TcpClient × TcpConnection × List Call) :=
  match InetAddress.getPeerInetAddress names with
  | .error e => .error e
  | .ok _ =>
    match InetAddress.getLocalInetAddress names with
    | .error e => .error e
    | .ok _ =>
      if INT_MAX ≤ c.nextConnId then .error .undefined
      else
        let conn := TcpConnection.new sockfd c.writeCallback
        match conn.connectEstablished with
        | .error e => .error e
        | .ok (conn, calls) =>
          .ok ({ c with nextConnId := c.nextConnId + 1, connection := some c.nextConnId },
            conn, calls)

def removeConnection (c : TcpClient) (conn : Nat) (a : Connector.Attempt) :
    Outcome LoopCall :=
  if c.connection = some conn then
    Machine.andThen
      (.ok ({ c with connection := none }, [.appendConnectDestroyed conn])) (fun c =>
        if c.retry && c.connected then c.onConnector (c.connector.restart a) else .ok (c, []))
  else .error .assertion

/-- The destructor; `unique` is whether `connection_` is the last reference. -/
def destruct (c : TcpClient) (unique : Bool) : Outcome ClientCall :=
  match c.connection with
  | some conn => .ok (c, .setCloseCallback conn :: if unique then [.forceClose conn] else [])
  | none =>
    match c.onConnector c.connector.stop with
    | .error e => .error e
    | .ok (c, calls) => .ok (c, calls.map .onLoop)

/-- An event of the connecting socket: the connector handles it, and its
`newConnectionCallback_` is `newConnection`. -/
def connectorEvent (c : TcpClient) (revents : BitVec 32) (a : Connector.EventAnswers)
    (names : SockNames) :
    Except Failure (TcpClient × List ConnectorCall × Option (TcpConnection × List Call)) :=
  match c.connector.handleEvent revents a with
  | .error e => .error e
  | .ok (k, calls) =>
    let c := { c with connector := k }
    match calls.getLast? with
    | some (.newConnectionCallback sockfd) =>
      match c.newConnection sockfd names with
      | .error e => .error e
      | .ok (c, conn, connCalls) => .ok (c, calls, some (conn, connCalls))
    | _ => .ok (c, calls, none)

end TcpClient

end ZDQ
