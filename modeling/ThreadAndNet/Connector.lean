import ThreadAndNet.Channel
import ThreadAndNet.InetAddress

/-!
# The connector: attempts to connect, one socket after the other

As for a connection, each member function returns the connector afterwards and
the calls it made. Every call that runs other code of the library, or of its
user, is the last thing the function does, so the owner can make it afterwards.
-/

namespace ZDQ

inductive Connector.States where
  | kDisconnected
  | kConnecting
  | kConnected
deriving DecidableEq, Repr

/-- What a connector puts on its loop or into a timer. -/
inductive ConnectorFunctor where
  | startInLoop
  | stopInLoop
  | resetChannel
deriving DecidableEq

inductive ConnectorCall where
  /-- `::socket` -/
  | socket (sockfd : Nat)
  /-- `::connect` -/
  | connect (sockfd : Nat)
  /-- `channel_->update()`, with the channel as it is then -/
  | update (channel : Channel)
  /-- `channel_->remove()` -/
  | remove (channel : Channel)
  /-- a `::close` that succeeded -/
  | close (sockfd : Nat)
  | appendFuncInLoop (f : ConnectorFunctor)
  | runAfter (delayMs : Nat) (f : ConnectorFunctor)
  | newConnectionCallback (sockfd : Nat)
deriving DecidableEq

structure Connector where
  connect_ : Bool
  state : Connector.States
  channel : Option Channel
  retryDelayMs : Nat

namespace Connector

open Machine

abbrev Outcome := Except Failure (Connector × List ConnectorCall)

/-- The member functions the channel's callbacks are bound to. -/
inductive Handler where
  | handleWrite
  | handleError
deriving DecidableEq

def kMaxRetryDelayMs : Nat := 30 * 1000
def kInitRetryDelayMs : Nat := 500

def new : Connector := ⟨false, .kDisconnected, none, kInitRetryDelayMs⟩

/-- The callbacks `connecting` gives to every channel it creates. -/
def callbacks : Callbacks Handler := ⟨none, some .handleWrite, some .handleError, none⟩

def setState (k : Connector) (s : States) : Connector := { k with state := s }

/-- The kernel's answers to one attempt; `none` for the socket is -1. -/
structure Attempt where
  socket : Option Nat
  connect : Status
  close : Status

def closeFd (sockfd : Nat) (close : Status) : Except Failure (List ConnectorCall) :=
  match close with
  | some _ => .error (.exit "Socket::closeFd")
  | none => .ok [.close sockfd]

theorem closeFd_cases {sockfd : Nat} {close : Status} {calls : List ConnectorCall}
    (h : closeFd sockfd close = .ok calls) : calls = [.close sockfd] := by
  unfold closeFd at h
  split at h
  · cases h
  · cases h
    rfl

def resetChannel (k : Connector) : Outcome := .ok ({ k with channel := none }, [])

def removeAndResetChannel (k : Connector) : Except Failure (Nat × Connector × List ConnectorCall) :=
  match k.channel with
  | none => .error .undefined
  | some channel =>
    let channel := channel.disableAll
    .ok (channel.fd, { k with channel := some channel },
      [.update channel, .remove channel, .appendFuncInLoop .resetChannel])

def retry (k : Connector) (sockfd : Nat) (close : Status) : Outcome :=
  match closeFd sockfd close with
  | .error e => .error e
  | .ok closed =>
    let k := k.setState .kDisconnected
    if k.connect_ then
      .ok ({ k with retryDelayMs := min (k.retryDelayMs * 2) kMaxRetryDelayMs },
        closed ++ [.runAfter k.retryDelayMs .startInLoop])
    else .ok (k, closed)

def connecting (k : Connector) (sockfd : Nat) : Outcome :=
  let k := k.setState .kConnecting
  match k.channel with
  | some _ => .error .assertion
  | none =>
    let channel := (Channel.new sockfd).enableWriteing
    .ok ({ k with channel := some channel }, [.update channel])

def connect (k : Connector) (a : Attempt) : Outcome :=
  match a.socket with
  -- `::connect` on -1 fails with EBADF, and then so does `::close`
  | none => .error (.exit "Socket::closeFd")
  | some sockfd =>
    andThen (.ok (k, [.socket sockfd, .connect sockfd])) (fun k =>
      match a.connect with
      | none | some .EINPROGRESS | some .EINTR | some .EISCONN => k.connecting sockfd
      | some .EAGAIN | some .EADDRINUSE | some .EADDRNOTAVAIL | some .ECONNREFUSED
      | some .ENETUNREACH => k.retry sockfd a.close
      | some .EACCES | some .EPERM | some .EAFNOSUPPORT | some .EALREADY | some .EBADF
      | some .EFAULT | some .ENOTSOCK | some _ =>
        match closeFd sockfd a.close with
        | .error e => .error e
        | .ok closed => .ok (k, closed))

def startInLoop (k : Connector) (a : Attempt) : Outcome :=
  if k.state = .kDisconnected then
    if k.connect_ then k.connect a else .ok (k, [])
  else .error .assertion

def start (k : Connector) (isInLoopThread : Bool) (a : Attempt) : Outcome :=
  let k := { k with connect_ := true }
  if isInLoopThread then k.startInLoop a else .ok (k, [.appendFuncInLoop .startInLoop])

def restart (k : Connector) (a : Attempt) : Outcome :=
  startInLoop { k.setState .kDisconnected with
    retryDelayMs := kInitRetryDelayMs
    connect_ := true } a

def stop (k : Connector) : Outcome :=
  .ok ({ k with connect_ := false }, [.appendFuncInLoop .stopInLoop])

def stopInLoop (k : Connector) (close : Status) : Outcome :=
  if k.state = .kConnecting then
    match (k.setState .kDisconnected).removeAndResetChannel with
    | .error e => .error e
    | .ok (sockfd, removed) => andThen (.ok removed) (fun k => k.retry sockfd close)
  else .ok (k, [])

/-- The kernel's answers while an event of a connecting socket is handled. -/
structure EventAnswers where
  /-- SO_ERROR, or why it could not be read -/
  socketError : Status
  names : SockNames
  close : Status

def handleWrite (k : Connector) (a : EventAnswers) : Outcome :=
  if k.state = .kConnecting then
    match k.removeAndResetChannel with
    | .error e => .error e
    | .ok (sockfd, removed) => andThen (.ok removed) (fun k =>
      if a.socketError.isSome then k.retry sockfd a.close
      else
        match InetAddress.isSelfConnect a.names with
        | .error e => .error e
        | .ok true => k.retry sockfd a.close
        | .ok false =>
          let k := k.setState .kConnected
          if k.connect_ then .ok (k, [.newConnectionCallback sockfd])
          else
            match closeFd sockfd a.close with
            | .error e => .error e
            | .ok closed => .ok (k, closed))
  else if k.state = .kDisconnected then .ok (k, [])
  else .error .assertion

def handleError (k : Connector) (a : EventAnswers) : Outcome :=
  if k.state = .kConnecting then
    match k.removeAndResetChannel with
    | .error e => .error e
    | .ok (sockfd, removed) => andThen (.ok removed) (fun k => k.retry sockfd a.close)
  else .ok (k, [])

def handle (k : Connector) (a : EventAnswers) : Handler → Outcome
  | .handleWrite => k.handleWrite a
  | .handleError => k.handleError a

/-- `channel_->handleEvent` after the poller reported `revents`. -/
def handleEvent (k : Connector) (revents : BitVec 32) (a : EventAnswers) : Outcome :=
  (callbacks.handleEvent revents).foldl
    (fun o h => andThen o (fun k => k.handle a h)) (.ok (k, []))

end Connector

end ZDQ
