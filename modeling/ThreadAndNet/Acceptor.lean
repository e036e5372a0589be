import ThreadAndNet.ServerLife

/-!
# What the acceptor makes of each `::accept`

`Socket::Accept` takes a descriptor for valid if it is greater than 0, `handleRead`
if it is not negative. Both agree with the kernel only on the first kind: descriptor
0 is closed and handed over all the same, and a failure trips the assertion.
-/

namespace ZDQ

open Machine

/-- `::accept`: a descriptor with the address of the peer, or -1. -/
inductive AcceptResult where
  | accepted (fd : Nat) (addr : InetAddress)
  | failed (e : Errno)

namespace AcceptResult

def returned : AcceptResult → Int
  | .accepted fd _ => fd
  | .failed _ => -1

/-- The connection there is to hand over. -/
def connection : AcceptResult → List (Int × InetAddress)
  | .accepted fd addr => [(fd, addr)]
  | .failed _ => []

end AcceptResult

inductive AcceptorCall where
  | close (fd : Int)
  /-- `callback_`, which a server binds to its `newConnection` -/
  | callback (connfd : Int) (peeraddr : InetAddress)
deriving DecidableEq

namespace AcceptorCall

def handed (calls : List AcceptorCall) : List (Int × InetAddress) :=
  calls.filterMap (fun call =>
    match call with
    | .callback connfd peeraddr => some (connfd, peeraddr)
    | .close _ => none)

end AcceptorCall

/-- `Socket::Accept`: what it returns, what it leaves in `*peeraddr` and its calls. -/
def Socket.Accept (r : AcceptResult) (peeraddr : InetAddress) :
    Int × InetAddress × List AcceptorCall :=
  match r with
  | .accepted peerfd addr =>
    if 0 < peerfd then (peerfd, addr, []) else (peerfd, peeraddr, [.close peerfd])
  | .failed _ => (-1, peeraddr, [.close (-1)])

structure Acceptor where
  /-- whether a `callback_` is set -/
  callback : Bool
  channel : Channel
  listening : Bool

namespace Acceptor

def new (sockfd : Nat) : Acceptor := ⟨false, .new sockfd, false⟩

def setConnCallback (a : Acceptor) : Acceptor := { a with callback := true }

/-- `listen`, with what `::listen` answers. -/
def listen (a : Acceptor) (listened : Status) : Except Failure Acceptor :=
  match listened with
  | some _ => .error (.exit "listen")
  | none => .ok { a with listening := true, channel := a.channel.enableReading }

/-- `handleRead`; `closed` is the answer to the `::close` of a connection nobody wants. -/
def handleRead (a : Acceptor) (r : AcceptResult) (closed : Status) :
    Except Failure (List AcceptorCall) :=
  let (connfd, peeraddr, calls) := Socket.Accept r ⟨0, 0⟩
  if 0 ≤ connfd then
    if a.callback then .ok (calls ++ [.callback connfd peeraddr])
    else
      match closed with
      | some _ => .error (.exit "Acceptor::handleRead::close")
      | none => .ok (calls ++ [.close connfd])
  else .error .assertion

end Acceptor

/-- The calls made for one `::accept` are what they should be. -/
structure Settled (r : AcceptResult) (calls : List AcceptorCall) : Prop where
  /-- a connection is handed over if and only if there is one -/
  called : AcceptorCall.handed calls = r.connection
  /-- it is still open then -/
  opened : ∀ before after connfd peeraddr,
    calls = before ++ .callback connfd peeraddr :: after → .close connfd ∉ before
  /-- it is handed over or closed, never both -/
  once : ∀ fd addr, r = .accepted fd addr →
    Xor (∃ peeraddr, .callback fd peeraddr ∈ calls) (.close fd ∈ calls)

namespace Acceptor

variable {a : Acceptor}

theorem handleRead_positive (set : a.callback) {fd : Nat} (positive : 0 < fd)
    (addr : InetAddress) (closed : Status) :
    a.handleRead (.accepted fd addr) closed = .ok [.callback fd addr] := by
  simp [handleRead, Socket.Accept, positive, set]

/-- Descriptor 0 is handed over after it was closed, and without the peer's address. -/
theorem handleRead_zero (set : a.callback) (addr : InetAddress) (closed : Status) :
    a.handleRead (.accepted 0 addr) closed = .ok [.close 0, .callback 0 ⟨0, 0⟩] := by
  simp [handleRead, Socket.Accept, set]

theorem handleRead_failed (e : Errno) (closed : Status) :
    a.handleRead (.failed e) closed = .error .assertion := rfl

theorem settled_callback (fd : Nat) (addr : InetAddress) :
    Settled (.accepted fd addr) [.callback fd addr] := by
  refine ⟨rfl, ?_, ?_⟩
  · intro before after connfd peeraddr split
    cases before with
    | nil => exact List.not_mem_nil
    | cons first rest =>
      have length := congrArg List.length split
      simp at length
  · intro fd' addr' same
    cases same
    exact .inl ⟨⟨addr, List.mem_cons_self⟩, by simp⟩

theorem not_settled_zero (addr : InetAddress) :
    ¬ Settled (.accepted 0 addr) [.close 0, .callback 0 ⟨0, 0⟩] :=
  fun settled => settled.opened [.close 0] [] 0 ⟨0, 0⟩ rfl List.mem_cons_self

/-- The two tests settle a descriptor greater than 0, and nothing else. -/
theorem handleRead_settled_iff (set : a.callback) (r : AcceptResult) (closed : Status) :
    (∃ calls, a.handleRead r closed = .ok calls ∧ Settled r calls) ↔ 0 < r.returned := by
  cases r with
  | failed e =>
    refine iff_of_false ?_ (by simp [AcceptResult.returned])
    rintro ⟨calls, handled, _⟩
    rw [handleRead_failed] at handled
    cases handled
  | accepted fd addr =>
    rcases Nat.eq_zero_or_pos fd with rfl | positive
    · refine iff_of_false ?_ (by simp [AcceptResult.returned])
      rintro ⟨calls, handled, settled⟩
      rw [handleRead_zero set] at handled
      cases handled
      exact not_settled_zero addr settled
    · refine iff_of_true ?_ (Int.natCast_pos.mpr positive)
      exact ⟨_, handleRead_positive set positive addr closed, settled_callback fd addr⟩

end Acceptor

/-- A server and its acceptor, with what became of the connections so far. -/
structure AcceptingServer where
  server : TcpServer
  acceptor : Acceptor
  started : Bool
  /-- what `::accept` returned -/
  accepted : List (Int × InetAddress)
  /-- what `newConnection` was called with -/
  handed : List (Int × InetAddress)
  /-- what the acceptor closed -/
  closed : List Int

namespace AcceptingServer

def new (sockfd : Nat) (name : String) (numThreads : Nat) (writeCompleteCallback : Bool) :
    AcceptingServer where
  server := .new name numThreads writeCompleteCallback
  acceptor := (Acceptor.new sockfd).setConnCallback
  started := false
  accepted := []
  handed := []
  closed := []

/-- The loop once it has taken the event of the acceptor, if that is next. -/
def acceptorEvent (s : AcceptingServer) : Option (EventLoop ServerChannel ServerFunctor) :=
  match (s.server.loops 0).nextChannel with
  | .ok (.acceptor, loop) => if s.acceptor.channel.isReading then some loop else none
  | _ => none

def perform (names : SockNames) (s : AcceptingServer) :
    AcceptorCall → Except Failure AcceptingServer
  | .close fd => .ok { s with closed := s.closed ++ [fd] }
  | .callback connfd peeraddr =>
    (s.server.newConnection connfd.toNat names).map (fun server =>
      { s with server := server, handed := s.handed ++ [(connfd, peeraddr)] })

inductive Op where
  /-- `start` on the server's thread, where `runInLoop` calls `listen` at once -/
  | start (listened : Status)
  | accept (r : AcceptResult) (closed : Status) (names : SockNames)
  | other (op : TcpServer.Op)

def step (s : AcceptingServer) : Op → Except Failure AcceptingServer
  | .start listened =>
    if s.started then .error .assertion
    else (s.acceptor.listen listened).map (fun acceptor =>
      { s with started := true, acceptor := acceptor })
  | .accept r closed names =>
    match s.acceptorEvent with
    | none => .error .disabled
    | some loop =>
      match s.acceptor.handleRead r closed with
      | .error e => .error e
      | .ok calls =>
        run (perform names) { s with
          server := s.server.onLoop 0 loop
          accepted := s.accepted ++ r.connection } calls
  | .other (.accept _ _) => .error .disabled
  | .other op => (s.server.step op).map (fun server => { s with server := server })

/-- Up to now each accepted connection was handed over, or else closed. -/
structure Accounted (s : AcceptingServer) : Prop where
  handed : s.handed = s.accepted
  counted : ∀ fd : Nat, (s.accepted.map Prod.fst).count (fd : Int) =
    (s.handed.map Prod.fst).count (fd : Int) + s.closed.count (fd : Int)

/-- What becomes of one `::accept`; after a failed one the server listens on. -/
def Proper (s : AcceptingServer) : Op → Prop
  | .accept r closed names => s.acceptorEvent.isSome →
    (∃ calls, s.acceptor.handleRead r closed = .ok calls ∧ Settled r calls) ∧
      ∀ e, r = .failed e → ∃ t, s.step (.accept r closed names) = .ok t ∧
        t.acceptor.listening ∧ t.acceptor.channel.isReading ∧
        t.server.conns = s.server.conns
  | _ => True

/-- An `::accept` that is made returns a descriptor greater than 0. -/
def Positive (s : AcceptingServer) : Op → Prop
  | .accept r _ _ => s.acceptorEvent.isSome → 0 < r.returned
  | _ => True

variable {s t : AcceptingServer} {op : Op}

theorem proper_iff (set : s.acceptor.callback) : s.Proper op ↔ s.Positive op := by
  cases op with
  | accept r closed names =>
    refine imp_congr_right fun _ => ?_
    rw [Acceptor.handleRead_settled_iff set]
    refine and_iff_left_of_imp fun positive e failed => ?_
    rw [failed] at positive
    cases positive
  | _ => exact Iff.rfl

/-- What one step does: the acceptor starts to listen, it handles an event, or the server
does something else. -/
inductive Steps (s : AcceptingServer) : Op → AcceptingServer → Prop where
  | start {acceptor : Acceptor} (listened : Status) :
      s.acceptor.listen listened = .ok acceptor →
      Steps s (.start listened) { s with started := true, acceptor := acceptor }
  | accept {loop : EventLoop ServerChannel ServerFunctor} {r : AcceptResult} {closed : Status}
      {names : SockNames} {calls : List AcceptorCall} {t : AcceptingServer} :
      (s.server.loops 0).nextChannel = .ok (.acceptor, loop) →
      s.acceptorEvent.isSome →
      s.acceptor.handleRead r closed = .ok calls →
      run (perform names) { s with
        server := s.server.onLoop 0 loop
        accepted := s.accepted ++ r.connection } calls = .ok t →
      Steps s (.accept r closed names) t
  | other {op : TcpServer.Op} {server : TcpServer} : s.server.step op = .ok server →
      Steps s (.other op) { s with server := server }

theorem acceptorEvent_some {loop : EventLoop ServerChannel ServerFunctor}
    (h : s.acceptorEvent = some loop) :
    (s.server.loops 0).nextChannel = .ok (.acceptor, loop) := by
  unfold acceptorEvent at h
  split at h
  · rename_i loop' next
    split at h
    · cases h
      exact next
    · cases h
  · cases h

theorem step_cases (h : s.step op = .ok t) : Steps s op t := by
  cases op with
  | start listened =>
    simp only [step] at h
    split at h
    · cases h
    · obtain ⟨acceptor, listens, rfl⟩ := map_cases h
      exact .start listened listens
  | accept r closed names =>
    simp only [step] at h
    split at h
    · cases h
    rename_i loop event
    split at h
    · cases h
    · rename_i calls handled
      exact .accept (acceptorEvent_some event) (by rw [event]; rfl) handled h
  | other op =>
    cases op with
    | accept sockfd names => cases h
    | _ =>
      obtain ⟨server, moved, rfl⟩ := map_cases h
      exact .other moved

theorem listen_callback {a b : Acceptor} {listened : Status} (h : a.listen listened = .ok b) :
    b.callback = a.callback := by
  cases listened with
  | none =>
    cases h
    rfl
  | some e => cases h

theorem run_perform_acceptor {names : SockNames} {calls : List AcceptorCall}
    (h : run (perform names) s calls = .ok t) : t.acceptor = s.acceptor := by
  refine run_frame AcceptingServer.acceptor (fun s call m _ made => ?_) h
  cases call with
  | close fd =>
    cases made
    rfl
  | callback connfd peeraddr =>
    obtain ⟨server, _, rfl⟩ := map_cases made
    rfl

/-- Nothing takes the callback away that the constructor of the server set. -/
theorem step_callback (set : s.acceptor.callback) (h : s.step op = .ok t) :
    t.acceptor.callback := by
  cases step_cases h with
  | start listened listens => exact (listen_callback listens).trans set
  | accept next event handled performed =>
    rw [run_perform_acceptor performed]
    exact set
  | other moved => exact set

/-- So far each connection was handed over and nothing closed. -/
structure HandsOver (s : AcceptingServer) : Prop where
  callback : s.acceptor.callback
  handed : s.handed = s.accepted
  closed : s.closed = []

theorem HandsOver.new (sockfd : Nat) (name : String) (numThreads : Nat) (wc : Bool) :
    HandsOver (new sockfd name numThreads wc) := ⟨rfl, rfl, rfl⟩

theorem HandsOver.accounted (h : HandsOver s) : Accounted s := by
  refine ⟨h.handed, fun fd => ?_⟩
  rw [h.handed, h.closed, List.count_nil, Nat.add_zero]

theorem HandsOver.step (h : HandsOver s) (positive : s.Positive op)
    (hstep : s.step op = .ok t) : HandsOver t := by
  have set := step_callback h.callback hstep
  cases step_cases hstep with
  | start listened listens => exact ⟨set, h.handed, h.closed⟩
  | @accept loop r closed names calls _ next event handled performed =>
    have valid := positive event
    cases r with
    | failed e => cases valid
    | accepted fd addr =>
      rw [Acceptor.handleRead_positive h.callback (Int.natCast_pos.mp valid)] at handled
      cases handled
      obtain ⟨m, made, done⟩ := run_cons_inv performed
      cases done
      obtain ⟨server, _, rfl⟩ := map_cases made
      exact ⟨set, congrArg (· ++ [((fd : Int), addr)]) h.handed, h.closed⟩
  | other moved => exact ⟨set, h.handed, h.closed⟩

/-- The connections of a run are accounted for, and each `::accept` gets what it should. -/
def Settles (s : AcceptingServer) (ops : List Op) : Prop :=
  Throughout step Accounted s ops ∧ Along step Proper s ops

/-- Whatever `::accept` returns in a run, it is treated as it should be if and only if each
time a descriptor greater than 0 is returned. -/
theorem settles_iff (sockfd : Nat) (name : String) (numThreads : Nat) (wc : Bool)
    (ops : List Op) :
    Settles (new sockfd name numThreads wc) ops ↔
      Along step Positive (new sockfd name numThreads wc) ops := by
  have decided : Throughout step Accounted (new sockfd name numThreads wc) ops ∧
        Along step (fun s op => ¬ ¬ s.Proper op) (new sockfd name numThreads wc) ops ↔
      Along step Positive (new sockfd name numThreads wc) ops := by
    refine safe_iff_along
      (fun s op t rest (h : HandsOver s) positive hstep => h.step positive hstep)
      (fun s rest h => h.accounted) ?_ (HandsOver.new sockfd name numThreads wc)
    intro s op rest h
    exact not_congr (proper_iff h.callback)
  simpa only [Settles, not_not] using decided

/-- The server waits for its acceptor, in the first round of events. -/
def listens : List Op := [.start none, .other (.move 0 .loop), .other (.move 0 .test),
  .other (.move 0 (.polled [.acceptor]))]

theorem not_settles_listens {r : AcceptResult} (invalid : r.returned ≤ 0) (closed : Status)
    (names : SockNames) :
    ¬ Settles (new 3 "server" 0 false) (listens ++ [.accept r closed names]) := by
  have ran : ∃ s, run step (new 3 "server" 0 false) listens = .ok s ∧
      s.acceptor.callback ∧ s.acceptorEvent.isSome := ⟨_, rfl, rfl, by decide⟩
  obtain ⟨s, ran, set, event⟩ := ran
  rintro ⟨_, along⟩
  have positive := (proper_iff set).mp (along.last ran) event
  exact absurd positive (Int.not_lt.mpr invalid)

/-- What the kernel says of a descriptor that was closed. -/
def notOpen : SockNames := ⟨.error .EBADF, .error .EBADF⟩

/-- A process without standard input gets descriptor 0, one without descriptors none. -/
theorem not_settles_zero_failed :
    ¬ Settles (new 3 "server" 0 false)
        (listens ++ [.accept (.accepted 0 ⟨127, 1⟩) none notOpen]) ∧
      ¬ Settles (new 3 "server" 0 false)
        (listens ++ [.accept (.failed .other) none notOpen]) :=
  ⟨not_settles_listens (by decide) none notOpen, not_settles_listens (by decide) none notOpen⟩

/-! ## The server alone -/

/-- What is handed over to the server is what `::accept` returned, if nothing else is. -/
theorem accept_server (set : s.acceptor.callback) {fd : Nat} {addr : InetAddress}
    {closed : Status} {names : SockNames} {calls : List AcceptorCall}
    (handled : s.acceptor.handleRead (.accepted fd addr) closed = .ok calls)
    {u : AcceptingServer} (performed : run (perform names) u calls = .ok t) :
    u.server.newConnection fd names = .ok t.server := by
  rcases Nat.eq_zero_or_pos fd with rfl | positive
  · rw [Acceptor.handleRead_zero set] at handled
    cases handled
    obtain ⟨m, closes, rest⟩ := run_cons_inv performed
    cases closes
    obtain ⟨m, made, done⟩ := run_cons_inv rest
    cases done
    obtain ⟨server, new, rfl⟩ := map_cases made
    exact new
  · rw [Acceptor.handleRead_positive set positive] at handled
    cases handled
    obtain ⟨m, made, done⟩ := run_cons_inv performed
    cases done
    obtain ⟨server, new, rfl⟩ := map_cases made
    exact new

/-- For the server itself, an event of its acceptor is the step it already had. -/
theorem step_server (set : s.acceptor.callback) (h : s.step op = .ok t) :
    Reaches TcpServer.step s.server t.server := by
  cases step_cases h with
  | start listened listens => exact .refl _
  | @accept loop r closed names calls _ next event handled performed =>
    cases r with
    | failed e => cases handled
    | accepted fd addr =>
      refine .one (.accept (some fd) names) ?_
      simp only [TcpServer.step, next]
      exact accept_server set handled performed
  | other moved => exact .one _ moved

/-- The acceptor adds no run to those of the server. -/
theorem reaches_server {sockfd : Nat} {name : String} {numThreads : Nat} {wc : Bool}
    (h : Reaches step (new sockfd name numThreads wc) s) :
    Reaches TcpServer.step (TcpServer.new name numThreads wc) s.server := by
  have keep : ∀ m op t, (m.acceptor.callback ∧
      Reaches TcpServer.step (TcpServer.new name numThreads wc) m.server) →
      step m op = .ok t → (t.acceptor.callback ∧
        Reaches TcpServer.step (TcpServer.new name numThreads wc) t.server) := by
    rintro m op t ⟨set, reached⟩ hstep
    exact ⟨step_callback set hstep, reached.trans (step_server set hstep)⟩
  exact (Reaches.keeps keep h ⟨rfl, Reaches.refl _⟩).2

end AcceptingServer

end ZDQ
