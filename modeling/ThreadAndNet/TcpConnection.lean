import ThreadAndNet.BufferFifo
import ThreadAndNet.Channel
import ThreadAndNet.Syscall

/-!
# One TCP connection

Each member function maps the connection and the answers of the system calls it
makes to the connection afterwards and the calls it made on the outside world,
in order. What the poller, the loop and the owner do with these calls is said
where a connection is put into its surroundings. All functions but `send`,
`shutdown` and `forceClose` run on the loop's thread.
-/

namespace ZDQ

inductive StateE where
  | kDisconnected
  | kConnecting
  | kConnected
  | kDisconnecting
deriving DecidableEq, Repr

/-- The member functions a connection's functors on the loop are bound to. -/
inductive ConnFunctor where
  | connectEstablished
  | connectDestroyed
  | sendInLoop (message : List UInt8)
  | shutdownInLoop
  | forceCloseInLoop
  | writeCompleteCallback
deriving DecidableEq

/-- The member functions the channel's callbacks can be bound to. -/
inductive Handler where
  | handleRead
  | handleWrite
  | handleClose
  | handleError
deriving DecidableEq

inductive Call where
  /-- `channel_->update()`, with the channel as it is then -/
  | update (channel : Channel)
  /-- `loop_->removeChannel(channel_.get())` -/
  | removeChannel
  /-- `::write(fd, offered)` and its return value -/
  | write (offered : List UInt8) (returned : Int)
  /-- a `::shutdown(fd, SHUT_WR)` that succeeded -/
  | shutdownWrite
  /-- `loop_->appendFuncInLoop` -/
  | append (f : ConnFunctor)
  | connCallback (connected : Bool)
  | messageCallback
  | closeCallback
deriving DecidableEq

structure TcpConnection where
  state : StateE
  channel : Channel
  callbacks : Callbacks Handler
  inputBuf : Buffer
  outputBuf : Buffer
  /-- whether a `writeCompleteCallback_` is set -/
  writeCompleteCallback : Bool

namespace TcpConnection

open Machine

abbrev Outcome := Except Failure (TcpConnection × List Call)

/-- The constructor sets the read callback of the channel and no other. -/
def new (sockfd : Nat) (writeCompleteCallback : Bool) : TcpConnection where
  state := .kConnecting
  channel := Channel.new sockfd
  callbacks := ⟨some .handleRead, none, none, none⟩
  inputBuf := Buffer.new Buffer.defaultSize
  outputBuf := Buffer.new Buffer.defaultSize
  writeCompleteCallback := writeCompleteCallback

def connected (c : TcpConnection) : Bool := c.state == .kConnected

def setState (c : TcpConnection) (s : StateE) : TcpConnection := { c with state := s }

/-- Queue `writeCompleteCallback_`, if there is one. -/
def writeComplete (c : TcpConnection) : List Call :=
  if c.writeCompleteCallback then [.append .writeCompleteCallback] else []

def handleClose (c : TcpConnection) : Outcome :=
  let c := { c.setState .kDisconnected with channel := c.channel.disableAll }
  .ok (c, [.update c.channel, .closeCallback])

def connectEstablished (c : TcpConnection) : Outcome :=
  if c.state = .kConnecting then
    let c := { c.setState .kConnected with channel := c.channel.enableReading }
    .ok (c, [.update c.channel, .connCallback c.connected])
  else .error .assertion

def connectDestroyed (c : TcpConnection) : Outcome :=
  if c.state = .kConnected then
    let c := { c.setState .kDisconnected with channel := c.channel.disableAll }
    .ok (c, [.update c.channel, .connCallback c.connected, .removeChannel])
  else .ok (c, [.removeChannel])

def shutdownInLoop (c : TcpConnection) (shutdown : Status) : Outcome :=
  if c.channel.isWriteing then .ok (c, [])
  else
    match shutdown with
    | some _ => .error (.exit "shutdow")
    | none => .ok (c, [.shutdownWrite])

def shutdown (c : TcpConnection) (isInLoopThread : Bool) (result : Status) : Outcome :=
  if c.state = .kConnected then
    let c := c.setState .kDisconnecting
    if isInLoopThread then c.shutdownInLoop result else .ok (c, [.append .shutdownInLoop])
  else .ok (c, [])

/-- The end of `sendInLoop`: keep what `::write` did not take. -/
def keepUnsent (c : TcpConnection) (message : List UInt8) (nwrite : Nat) : Outcome :=
  if nwrite < message.length then
    match c.outputBuf.append (message.drop nwrite) (narrow (message.length - nwrite : Nat)) with
    | .error e => .error e
    | .ok outputBuf =>
      let c := { c with outputBuf := outputBuf }
      if c.channel.isWriteing then .ok (c, [])
      else
        let c := { c with channel := c.channel.enableWriteing }
        .ok (c, [.update c.channel])
  else .ok (c, c.writeComplete)

/-- `sendInLoop`; `nwrite` starts at 0 and is compared with a `size_t`, which is
harmless as -1 does not get that far. -/
def sendInLoop (c : TcpConnection) (message : List UInt8) (w : WriteResult) : Outcome :=
  if c.channel.isWriteing = false ∧ c.outputBuf.readBuffSize = 0 then
    let nwrite := w.returned message
    if nwrite = -1 then .error (.exit "ZDQ::TcpConnection::sendInLoop::write")
    else andThen (.ok (c, [.write message nwrite]))
      (fun c => c.keepUnsent message nwrite.toNat)
  else c.keepUnsent message 0

def send (c : TcpConnection) (isInLoopThread : Bool) (message : List UInt8)
    (w : WriteResult) : Outcome :=
  if c.state = .kConnected then
    if isInLoopThread then c.sendInLoop message w
    else .ok (c, [.append (.sendInLoop message)])
  else .ok (c, [])

/-- The part of `handleWrite` after the output buffer ran empty. -/
def drained (c : TcpConnection) (shutdown : Status) : Outcome :=
  let c := { c with channel := c.channel.disableWriteing }
  andThen (.ok (c, .update c.channel :: c.writeComplete)) (fun c =>
    if c.state = .kDisconnecting then c.shutdownInLoop shutdown else .ok (c, []))

def handleWrite (c : TcpConnection) (w : WriteResult) (shutdown : Status) : Outcome :=
  if c.channel.isWriteing then
    let n := w.returned c.outputBuf.readable
    andThen (.ok (c, [.write c.outputBuf.readable n])) (fun c =>
      if 0 < n then
        match c.outputBuf.retrieve (narrow n) with
        | .error e => .error e
        | .ok outputBuf =>
          let c := { c with outputBuf := outputBuf }
          if outputBuf.readBuffSize = 0 then c.drained shutdown else .ok (c, [])
      else .ok (c, []))
  else .ok (c, [])

def forceClose (c : TcpConnection) : Outcome :=
  if c.state = .kConnected ∨ c.state = .kDisconnecting then
    .ok (c.setState .kDisconnecting, [.append .forceCloseInLoop])
  else .ok (c, [])

def forceCloseInLoop (c : TcpConnection) : Outcome :=
  if c.state = .kConnected ∨ c.state = .kDisconnecting then c.handleClose
  else .ok (c, [])

/-- What user code does with a connection it was handed. -/
inductive UserCall where
  | send (message : List UInt8) (w : WriteResult)
  | shutdown (result : Status)
  | forceClose
  /-- `retrieveAsString` on `inputBuf_`, in the message callback or later; one step, though
  `Buffer` has no lock -/
  | retrieve (len : Nat)

def userCall (c : TcpConnection) (isInLoopThread : Bool) : UserCall → Outcome
  | .send message w => c.send isInLoopThread message w
  | .shutdown result => c.shutdown isInLoopThread result
  | .forceClose => c.forceClose
  | .retrieve len =>
    match c.inputBuf.retrieveAsString len with
    | .error e => .error e
    | .ok (_, inputBuf) => .ok ({ c with inputBuf := inputBuf }, [])

/-- The user calls made inside one callback on the loop's thread, in order. -/
def userCalls (c : TcpConnection) : List UserCall → Outcome
  | [] => .ok (c, [])
  | u :: rest => andThen (c.userCall true u) (fun c => c.userCalls rest)

/-- The answers one event may need, and what the message callback does. -/
structure EventInput where
  read : Buffer.Readv
  onMessage : List UserCall
  write : WriteResult
  shutdown : Status

/-- `handleRead`; `handleError` only prints SO_ERROR. -/
def handleRead (c : TcpConnection) (input : EventInput) : Outcome :=
  match c.inputBuf.readFd input.read with
  | .error e => .error e
  | .ok (n, inputBuf) =>
    let c := { c with inputBuf := inputBuf }
    if 0 < n then
      andThen (.ok (c, [.messageCallback])) (fun c => c.userCalls input.onMessage)
    else if n = 0 then c.handleClose
    else .ok (c, [])

def handle (c : TcpConnection) (input : EventInput) : Handler → Outcome
  | .handleRead => c.handleRead input
  | .handleWrite => c.handleWrite input.write input.shutdown
  | .handleClose => c.handleClose
  | .handleError => .ok (c, [])

/-- `channel_->handleEvent` after the poller reported `revents`. -/
def handleEvent (c : TcpConnection) (revents : BitVec 32) (input : EventInput) : Outcome :=
  (c.callbacks.handleEvent revents).foldl
    (fun o h => andThen o (fun c => c.handle input h)) (.ok (c, []))

/-- Run one of the connection's functors on the loop's thread. -/
def runFunctor (c : TcpConnection) (w : WriteResult) (shutdown : Status) :
    ConnFunctor → Outcome
  | .connectEstablished => c.connectEstablished
  | .connectDestroyed => c.connectDestroyed
  | .sendInLoop message => c.sendInLoop message w
  | .shutdownInLoop => c.shutdownInLoop shutdown
  | .forceCloseInLoop => c.forceCloseInLoop
  | .writeCompleteCallback => .ok (c, [])

end TcpConnection

end ZDQ
