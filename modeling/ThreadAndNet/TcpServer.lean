import ThreadAndNet.ConnectionLife
import ThreadAndNet.EventLoop
import ThreadAndNet.InetAddress

/-!
# A started server on its loops

Loop 0 is the loop of the server, loops 1 to `numThreads` are those of its thread
pool; a thread is named by its loop. A connection is known by the number it got
from `nextConnTd_`. All connections the server ever made stay in `served`.
-/

namespace ZDQ

open Machine

inductive ServerChannel where
  | acceptor
  | conn (c : Nat)
deriving DecidableEq

inductive ServerFunctor where
  /-- a member function of a connection, with the arguments bound to it -/
  | conn (c : Nat) (f : ConnFunctor)
  | removeConnectionInLoop (c : Nat)
deriving DecidableEq

/-- A connection the server made. -/
structure Served where
  track : Track
  /-- `loop_` -/
  loop : Nat
  name : String
  /-- the connections bound into `closeCallback_` -/
  closeCallback : List Nat
  /-- how many references user code keeps -/
  userRefs : Nat

structure TcpServer where
  name : String
  numThreads : Nat
  /-- `next_` of the thread pool -/
  next : Nat
  nextConnTd : Nat
  /-- whether a `writeCompleteCallback_` is set -/
  writeCompleteCallback : Bool
  conns : String → Option Nat
  loops : Nat → EventLoop ServerChannel ServerFunctor
  served : Nat → Option Served

namespace TcpServer

def INT_MAX : Nat := 2 ^ 31 - 1

def new (name : String) (numThreads : Nat) (writeCompleteCallback : Bool) : TcpServer where
  name := name
  numThreads := numThreads
  next := 0
  nextConnTd := 1
  writeCompleteCallback := writeCompleteCallback
  conns := fun _ => none
  loops := fun _ => .new
  served := fun _ => none

def onLoop (s : TcpServer) (l : Nat) (loop : EventLoop ServerChannel ServerFunctor) :
    TcpServer := { s with loops := Function.update s.loops l loop }

/-- `appendFuncInLoop` on loop `l`, called on some thread. -/
def append (s : TcpServer) (thread : Option Nat) (l : Nat) (cb : ServerFunctor) : TcpServer :=
  s.onLoop l ((s.loops l).appendFuncInLoop (thread == some l) cb)

def put (s : TcpServer) (c : Nat) (e : Served) : TcpServer :=
  { s with served := Function.update s.served c (some e) }

/-- `EventLoopThreadPool::getNextLoop` -/
def getNextLoop (s : TcpServer) : Nat × TcpServer :=
  if s.numThreads = 0 then (0, s)
  else (s.next + 1, { s with next := if s.numThreads ≤ s.next + 1 then 0 else s.next + 1 })

def removeConnectionInLoop (s : TcpServer) (thread : Option Nat) (c : Nat) :
    Except Failure TcpServer :=
  if thread = some 0 then
    match s.served c with
    | none => .error .undefined
    | some e =>
      .ok (({ s with conns := Function.update s.conns e.name none }.put c
        { e with track := e.track.see (.removed 0) }).append thread e.loop
          (.conn c .connectDestroyed))
  else .error .assertion

/-- `removeConnection`, with `runInLoop` on the server's loop. -/
def removeConnection (s : TcpServer) (thread : Option Nat) (c : Nat) :
    Except Failure TcpServer :=
  if thread = some 0 then s.removeConnectionInLoop thread c
  else .ok (s.append thread 0 (.removeConnectionInLoop c))

/-- A call of connection `c`, made on some thread. -/
def perform (thread : Option Nat) (c : Nat) (s : TcpServer) (call : Call) :
    Except Failure TcpServer :=
  match s.served c with
  | none => .error .undefined
  | some e =>
    match e.track.note (thread == some e.loop) call with
    | .error e => .error e
    | .ok track =>
      let s := s.put c { e with track := track }
      match call with
      | .append f => .ok (s.append thread e.loop (.conn c f))
      | .closeCallback => s.removeConnection thread c
      | _ => .ok s

/-- Take over what a member function of `c` returned and make its calls in order. -/
def act (s : TcpServer) (thread : Option Nat) (c : Nat) (o : TcpConnection.Outcome) :
    Except Failure TcpServer :=
  match s.served c with
  | none => .error .undefined
  | some e =>
    match o with
    | .error failure => .error failure
    | .ok (conn, calls) =>
      run (perform thread c) (s.put c { e with track := { e.track with conn := conn } }) calls

/-- Run a functor of connection `c` on the thread of loop `l`. -/
def runConn (s : TcpServer) (l : Nat) (c : Nat) (f : ConnFunctor) (w : WriteResult)
    (shutdown : Status) : Except Failure TcpServer :=
  match s.served c with
  | none => .error .undefined
  | some e =>
    (s.put c { e with track := e.track.starts l f }).act (some l) c
      (e.track.conn.runFunctor w shutdown f)

/-- What fits into a `char[32]` beside the terminating zero. -/
def buf32 (text : String) : String := String.ofList (text.toList.take 31)

/-- `newConnection`, on the server's thread. -/
def newConnection (s : TcpServer) (sockfd : Nat) (names : SockNames) :
    Except Failure TcpServer :=
  let c := s.nextConnTd
  if INT_MAX ≤ c then .error .undefined
  else
    let connName := s.name ++ buf32 ("#" ++ toString c)
    match InetAddress.getLocalInetAddress names with
    | .error e => .error e
    | .ok _ =>
      let (ioLoop, s) := s.getNextLoop
      let s := { s with
        nextConnTd := c + 1
        conns := Function.update s.conns connName (some c) }
      let s := s.put c ⟨.create sockfd s.writeCompleteCallback, ioLoop, connName, [c], 0⟩
      if ioLoop = 0 then s.runConn 0 c .connectEstablished (.accepted 0) none
      else .ok (s.append (some 0) ioLoop (.conn c .connectEstablished))

/-- `poll` of loop `l` may report this channel. -/
def reports (s : TcpServer) (l : Nat) : ServerChannel → Bool
  | .acceptor => l == 0
  | .conn c =>
    match s.served c with
    | none => false
    | some e => e.loop == l && decide e.track.registration.Watched

/-- The steps of the loops' threads, and the calls of user code on any thread
(`none`: one that runs no loop). -/
inductive Op where
  | move (l : Nat) (v : EventLoop.Move ServerChannel)
  /-- an event of the acceptor; `none` is a failed `::accept` -/
  | accept (sockfd : Option Nat) (names : SockNames)
  | event (l : Nat) (revents : BitVec 32) (input : TcpConnection.EventInput)
  | functor (l : Nat) (w : WriteResult) (shutdown : Status)
  | user (thread : Option Nat) (c : Nat) (u : TcpConnection.UserCall)
  /-- user code copies or drops a reference -/
  | hold (c : Nat)
  | release (c : Nat)

def step (s : TcpServer) : Op → Except Failure TcpServer
  | .move l v =>
    match (s.loops l).move v with
    | .error e => .error e
    | .ok loop =>
      -- `fillActiveChannels` finds every watched channel at most once
      if loop.activeChannels.Nodup ∧ loop.activeChannels.all (s.reports l) then
        .ok (s.onLoop l loop)
      else .error .disabled
  | .accept sockfd names =>
    match (s.loops 0).nextChannel with
    | .ok (.acceptor, loop) =>
      match sockfd with
      | none => .error .assertion
      | some sockfd => (s.onLoop 0 loop).newConnection sockfd names
    | _ => .error .disabled
  | .event l revents input =>
    match (s.loops l).nextChannel with
    | .ok (.conn c, loop) =>
      match s.served c with
      | none => .error .undefined
      | some e =>
        ((s.onLoop l loop).put c { e with track := e.track.see .event }).act (some l) c
          (e.track.conn.handleEvent revents input)
    | _ => .error .disabled
  | .functor l w shutdown =>
    match (s.loops l).nextFunctor with
    | .error e => .error e
    | .ok (.conn c f, loop) => (s.onLoop l loop).runConn l c f w shutdown
    | .ok (.removeConnectionInLoop c, loop) =>
      (s.onLoop l loop).removeConnectionInLoop (some l) c
  | .user thread c u =>
    match s.served c with
    | none => .error .disabled
    | some e => s.act thread c (e.track.conn.userCall (thread == some e.loop) u)
  | .hold c =>
    match s.served c with
    | none => .error .disabled
    | some e => .ok (s.put c { e with userRefs := e.userRefs + 1 })
  | .release c =>
    match s.served c with
    | none => .error .disabled
    | some e =>
      match e.userRefs with
      | 0 => .error .disabled
      | n + 1 => .ok (s.put c { e with userRefs := n })

end TcpServer

end ZDQ
