import ThreadAndNet.ConnectionDispatch
import ThreadAndNet.TcpClient

/-!
# Which answers of a socket end the process

`sendInLoop`, `shutdownInLoop`, the connector's `handleWrite` and the client's
`newConnection` pass a failed system call on to `ERR_EXIT`. For each of them the
failing call is named exactly; a run of a connection or of a client ends the
process if and only if one of its steps meets such a call.
-/

namespace ZDQ

open Machine

/-- The process ends through `ERR_EXIT`. -/
def Exits {T : Type*} (o : Except Failure T) : Prop := ∃ message, o = .error (.exit message)

section Exits
variable {S T C : Type*}

@[simp] theorem exits_exit (message : String) :
    Exits (.error (.exit message) : Except Failure T) := ⟨message, rfl⟩

@[simp] theorem not_exits_ok (t : T) : ¬ Exits (.ok t : Except Failure T) := by
  rintro ⟨message, h⟩
  cases h

@[simp] theorem not_exits_assertion : ¬ Exits (.error .assertion : Except Failure T) := by
  rintro ⟨message, h⟩
  cases h

@[simp] theorem not_exits_undefined : ¬ Exits (.error .undefined : Except Failure T) := by
  rintro ⟨message, h⟩
  cases h

/-- A failure passed on by a caller ends the process as it did before. -/
theorem exits_error_iff (T : Type*) {o : Except Failure S} {e : Failure} (h : o = .error e) :
    Exits (.error e : Except Failure T) ↔ Exits o := by
  rw [h]
  simp [Exits]

theorem not_exits_error {o : Except Failure S} {e : Failure} (h : o = .error e)
    (safe : ¬ Exits o) : ¬ Exits (.error e : Except Failure T) :=
  fun exits => safe ((exits_error_iff T h).mp exits)

@[simp] theorem exits_andThen_ok (s : S) (first : List C)
    (f : S → Except Failure (T × List C)) :
    Exits (andThen (.ok (s, first)) f) ↔ Exits (f s) := by
  simp [Exits, andThen_eq_error]

theorem exits_andThen {o : Except Failure (S × List C)}
    {f : S → Except Failure (T × List C)} :
    Exits (andThen o f) ↔ Exits o ∨ ∃ s first, o = .ok (s, first) ∧ Exits (f s) := by
  cases o with
  | error e => simp [Exits, andThen]
  | ok r =>
    obtain ⟨s, first⟩ := r
    simp

theorem exits_map (o : Except Failure S) (f : S → T) : Exits (o.map f) ↔ Exits o := by
  cases o with
  | error e => exact exits_error_iff _ rfl
  | ok t => simp [Except.map]

theorem exits_iff {o : Except Failure T} :
    Exits o ↔ ∃ e, (∃ message, e = Failure.exit message) ∧ o = .error e := by
  constructor
  · rintro ⟨message, h⟩
    exact ⟨_, ⟨message, rfl⟩, h⟩
  · rintro ⟨_, ⟨message, rfl⟩, h⟩
    exact ⟨message, h⟩

end Exits

namespace Buffer

theorem append_not_exits (b : Buffer) (buf : List UInt8) (len : Int) :
    ¬ Exits (b.append buf len) := by
  rw [append]
  split <;> simp

theorem retrieve_not_exits (b : Buffer) (len : Int) : ¬ Exits (b.retrieve len) := by
  rw [retrieve]
  split
  · dsimp only
    split <;> simp
  · simp

theorem retrieveAsString_not_exits (b : Buffer) (len : Nat) :
    ¬ Exits (b.retrieveAsString len) := by
  rw [retrieveAsString]
  split
  · split
    · simp
    · rename_i h
      exact not_exits_error h (b.retrieve_not_exits _)
  · simp

theorem readFd_not_exits (b : Buffer) (r : Readv) : ¬ Exits (b.readFd r) := by
  unfold readFd
  split
  · simp
  · dsimp only
    split
    · simp
    · split
      · simp
      · rename_i h
        exact not_exits_error h (append_not_exits _ _ _)

end Buffer

namespace TcpConnection

/-- `sendInLoop` makes a direct `::write`, and it fails. -/
def DirectWriteFails (c : TcpConnection) (message : List UInt8) (w : WriteResult) : Prop :=
  c.channel.isWriteing = false ∧ c.outputBuf.readBuffSize = 0 ∧ w.returned message = -1

/-- `shutdownInLoop` makes a `::shutdown`, and it fails. -/
def ShutdownFails (c : TcpConnection) (result : Status) : Prop :=
  c.channel.isWriteing = false ∧ result ≠ none

theorem keepUnsent_not_exits (c : TcpConnection) (message : List UInt8) (k : Nat) :
    ¬ Exits (c.keepUnsent message k) := by
  rw [keepUnsent]
  split
  · split
    · rename_i happ
      exact not_exits_error happ (Buffer.append_not_exits _ _ _)
    · dsimp only
      split <;> simp
  · simp

theorem sendInLoop_exits_iff (c : TcpConnection) (message : List UInt8) (w : WriteResult) :
    Exits (c.sendInLoop message w) ↔ c.DirectWriteFails message w := by
  rw [sendInLoop, DirectWriteFails]
  by_cases direct : c.channel.isWriteing = false ∧ c.outputBuf.readBuffSize = 0
  · rw [if_pos direct]
    by_cases failed : w.returned message = -1
    · simp [failed, direct]
    · simp [failed, keepUnsent_not_exits]
  · rw [if_neg direct]
    constructor
    · intro h
      exact absurd h (keepUnsent_not_exits c message 0)
    · rintro ⟨idle, empty, _⟩
      exact absurd ⟨idle, empty⟩ direct

theorem shutdownInLoop_exits_iff (c : TcpConnection) (result : Status) :
    Exits (c.shutdownInLoop result) ↔ c.ShutdownFails result := by
  unfold shutdownInLoop ShutdownFails
  by_cases writeing : c.channel.isWriteing = true
  · simp [writeing]
  · cases result <;> simp [writeing]

/-- The user call makes one of the two system calls, and it fails. -/
def UserCallFatal (c : TcpConnection) (isInLoopThread : Bool) : UserCall → Prop
  | .send message w =>
    c.state = .kConnected ∧ isInLoopThread = true ∧ c.DirectWriteFails message w
  | .shutdown result =>
    c.state = .kConnected ∧ isInLoopThread = true ∧ c.ShutdownFails result
  | .forceClose => False
  | .retrieve _ => False

/-- One of the user calls of a callback does. -/
def UserCallsFatal (c : TcpConnection) : List UserCall → Prop
  | [] => False
  | u :: rest => c.UserCallFatal true u ∨
    ∃ d calls, c.userCall true u = .ok (d, calls) ∧ d.UserCallsFatal rest

/-- The step makes a `::write` or `::shutdown` that ends the process. -/
def OpFatal (c : TcpConnection) : ConnOp → Prop
  | .functor (.sendInLoop message) w _ => c.DirectWriteFails message w
  | .functor .shutdownInLoop _ shutdown => c.ShutdownFails shutdown
  | .functor _ _ _ => False
  | .user isInLoopThread u => c.UserCallFatal isInLoopThread u
  | .event revents input => revents &&& (POLLIN ||| POLLPRI ||| POLLRDHUP) ≠ 0 ∧
    ∃ n inputBuf, c.inputBuf.readFd input.read = .ok (n, inputBuf) ∧ 0 < n ∧
      { c with inputBuf := inputBuf }.UserCallsFatal input.onMessage

theorem userCall_exits_iff (c : TcpConnection) (isInLoopThread : Bool) (u : UserCall) :
    Exits (c.userCall isInLoopThread u) ↔ c.UserCallFatal isInLoopThread u := by
  cases u with
  | send message w =>
    rw [userCall, send, UserCallFatal]
    by_cases connected : c.state = .kConnected
    · cases isInLoopThread <;> simp [connected, sendInLoop_exits_iff]
    · simp [connected]
  | shutdown result =>
    rw [userCall, shutdown, UserCallFatal]
    by_cases connected : c.state = .kConnected
    · cases isInLoopThread <;>
        simp [connected, shutdownInLoop_exits_iff, ShutdownFails, setState]
    · simp [connected]
  | forceClose =>
    rw [userCall, forceClose, UserCallFatal]
    split <;> simp
  | retrieve len =>
    rw [userCall, UserCallFatal]
    split
    · rename_i h
      simpa using not_exits_error h (Buffer.retrieveAsString_not_exits _ _)
    · simp

theorem userCalls_exits_iff (us : List UserCall) (c : TcpConnection) :
    Exits (c.userCalls us) ↔ c.UserCallsFatal us := by
  induction us generalizing c with
  | nil => simp [userCalls, UserCallsFatal]
  | cons u rest ih =>
    simp only [userCalls, UserCallsFatal, exits_andThen, userCall_exits_iff, ih]

theorem handleRead_exits_iff (c : TcpConnection) (input : EventInput) :
    Exits (c.handleRead input) ↔
      ∃ n inputBuf, c.inputBuf.readFd input.read = .ok (n, inputBuf) ∧ 0 < n ∧
        { c with inputBuf := inputBuf }.UserCallsFatal input.onMessage := by
  rw [handleRead]
  cases h : c.inputBuf.readFd input.read with
  | error e => simpa using not_exits_error h (Buffer.readFd_not_exits _ _)
  | ok r =>
    obtain ⟨n, inputBuf⟩ := r
    by_cases got : 0 < n
    · simp [got, userCalls_exits_iff]
    · by_cases closed : n = 0
      · simp [closed, handleClose]
      · simp [got, closed]

theorem runFunctor_exits_iff (c : TcpConnection) (f : ConnFunctor) (w : WriteResult)
    (shutdown : Status) :
    Exits (c.runFunctor w shutdown f) ↔ c.OpFatal (.functor f w shutdown) := by
  cases f with
  | connectEstablished =>
    simp only [runFunctor, connectEstablished, OpFatal]
    split <;> simp
  | connectDestroyed =>
    simp only [runFunctor, connectDestroyed, OpFatal]
    split <;> simp
  | sendInLoop message => exact sendInLoop_exits_iff c message w
  | shutdownInLoop => exact shutdownInLoop_exits_iff c shutdown
  | forceCloseInLoop =>
    simp only [runFunctor, forceCloseInLoop, OpFatal]
    split <;> simp [handleClose]
  | writeCompleteCallback => simp [runFunctor, OpFatal]

theorem Wired.apply_exits_iff {c : TcpConnection} (wired : c.Wired) (op : ConnOp) :
    Exits (op.apply c) ↔ c.OpFatal op := by
  cases op with
  | functor f w shutdown => exact runFunctor_exits_iff c f w shutdown
  | user isInLoopThread u => exact userCall_exits_iff c isInLoopThread u
  | event revents input =>
    rw [ConnOp.apply, wired.handleEvent_eq, OpFatal]
    split
    · rename_i readable
      simp only [handleRead_exits_iff, readable, ne_eq, not_false_eq_true, true_and]
    · rename_i quiet
      exact iff_of_false (not_exits_ok _) (fun h => quiet h.1)

/-- A run of a connection ends the process exactly if one of its steps does. -/
theorem connection_run_exits_iff (sockfd : Nat) (wc : Bool) (ops : List ConnOp) :
    Exits (run connStep (new sockfd wc, []) ops) ↔
      ¬ Along connStep (fun s op => ¬ s.1.OpFatal op) (new sockfd wc, []) ops := by
  rw [exits_iff]
  refine run_fails_iff connStep_wired ?_ (fun op _ => trivial) rfl
  rintro ⟨c, before⟩ op wired -
  rw [not_not, ← wired.apply_exits_iff op, ← exits_iff, connStep, exits_andThen_ok]

end TcpConnection

namespace Connector

/-- Only answers a peer can cause are failures: reading the own name of an open
socket and closing it work. -/
structure EventAnswers.PeerOnly (a : EventAnswers) : Prop where
  sockname : ∃ addr, a.names.sockname = .ok addr
  close : a.close = none

structure Attempt.PeerOnly (a : Attempt) : Prop where
  socket : a.socket ≠ none
  close : a.close = none

/-- The peer of a socket that turned writable and reports no error has no name. -/
def HandleWriteFatal (k : Connector) (a : EventAnswers) : Prop :=
  k.state = .kConnecting ∧ k.channel ≠ none ∧ a.socketError = none ∧
    ∃ e, a.names.peername = .error e

theorem closeFd_ok (sockfd : Nat) : closeFd sockfd none = .ok [.close sockfd] := rfl

theorem retry_not_exits (k : Connector) (sockfd : Nat) : ¬ Exits (k.retry sockfd none) := by
  rw [retry, closeFd_ok]
  dsimp only
  split <;> simp

theorem connecting_not_exits (k : Connector) (sockfd : Nat) :
    ¬ Exits (k.connecting sockfd) := by
  rw [connecting]
  dsimp only
  split <;> simp

theorem connect_not_exits (k : Connector) {a : Attempt} (peerOnly : a.PeerOnly) :
    ¬ Exits (k.connect a) := by
  obtain ⟨sockfd, hsocket⟩ := Option.ne_none_iff_exists'.mp peerOnly.socket
  simp only [connect, hsocket, exits_andThen_ok, peerOnly.close]
  split
  all_goals first
    | exact connecting_not_exits _ _
    | exact retry_not_exits _ _
    | simp [closeFd_ok]

theorem startInLoop_not_exits (k : Connector) {a : Attempt} (peerOnly : a.PeerOnly) :
    ¬ Exits (k.startInLoop a) := by
  rw [startInLoop]
  split
  · split
    · exact connect_not_exits k peerOnly
    · simp
  · simp

theorem start_not_exits (k : Connector) (isInLoopThread : Bool) {a : Attempt}
    (peerOnly : a.PeerOnly) : ¬ Exits (k.start isInLoopThread a) := by
  cases isInLoopThread with
  | true => exact startInLoop_not_exits _ peerOnly
  | false => simp [start]

theorem stopInLoop_not_exits (k : Connector) : ¬ Exits (k.stopInLoop none) := by
  rw [stopInLoop]
  split
  · rw [removeAndResetChannel]
    split
    · rename_i h
      split at h
      · cases h
        simp
      · cases h
    · rw [exits_andThen_ok]
      exact retry_not_exits _ _
  · simp

theorem handleWrite_exits_iff (k : Connector) {a : EventAnswers} (peerOnly : a.PeerOnly) :
    Exits (k.handleWrite a) ↔ k.HandleWriteFatal a := by
  obtain ⟨addr, hname⟩ := peerOnly.sockname
  rw [handleWrite, HandleWriteFatal]
  by_cases isConnecting : k.state = .kConnecting
  · cases hchannel : k.channel with
    | none => simp [isConnecting, removeAndResetChannel, hchannel]
    | some channel =>
      cases hsock : a.socketError with
      | some e =>
        simp [isConnecting, removeAndResetChannel, hchannel, peerOnly.close, retry_not_exits]
      | none =>
        cases hpeer : a.names.peername with
        | error e =>
          simp [isConnecting, removeAndResetChannel, hchannel,
            InetAddress.isSelfConnect_of_noPeer hname hpeer]
        | ok peer =>
          by_cases self : addr = peer
          · simp [isConnecting, removeAndResetChannel, hchannel,
              InetAddress.isSelfConnect_of_peer hname hpeer, self, peerOnly.close,
              retry_not_exits]
          · by_cases wanted : k.connect_ = true
            · simp [isConnecting, removeAndResetChannel, hchannel, wanted, setState,
                InetAddress.isSelfConnect_of_peer hname hpeer, self]
            · simp [isConnecting, removeAndResetChannel, hchannel, wanted, setState,
                InetAddress.isSelfConnect_of_peer hname hpeer, self, peerOnly.close,
                closeFd_ok]
  · by_cases idle : k.state = .kDisconnected
    · simp [idle]
    · simp [isConnecting, idle]

/-- What `handleError` leaves behind makes a later `handleWrite` harmless. -/
theorem handleError_spec (k : Connector) {a : EventAnswers} (peerOnly : a.PeerOnly) :
    ¬ Exits (k.handleError a) ∧
      ∀ l calls, k.handleError a = .ok (l, calls) → l.state ≠ .kConnecting := by
  rw [handleError]
  by_cases isConnecting : k.state = .kConnecting
  · rw [if_pos isConnecting]
    cases hchannel : k.channel with
    | none => simp [removeAndResetChannel, hchannel]
    | some channel =>
      simp only [removeAndResetChannel, hchannel, exits_andThen_ok, peerOnly.close]
      refine ⟨retry_not_exits _ _, ?_⟩
      intro l calls h
      obtain ⟨m, first, second, _, hl, _⟩ := andThen_cases h
      rw [retry, closeFd_ok] at hl
      dsimp only at hl
      split at hl
      · cases hl
        simp [setState]
      · cases hl
        simp [setState]
  · rw [if_neg isConnecting]
    refine ⟨not_exits_ok _, ?_⟩
    intro l calls h
    cases h
    exact isConnecting

/-- The error callback comes first, then the write callback. -/
theorem handleEvent_eq (k : Connector) (revents : BitVec 32) (a : EventAnswers) :
    k.handleEvent revents a =
      andThen
        (if revents &&& (POLLERR ||| POLLNVAL) = 0 then .ok (k, []) else k.handleError a)
        (fun k => if revents &&& POLLOUT = 0 then .ok (k, []) else k.handleWrite a) := by
  simp only [handleEvent, callbacks, Callbacks.handleEvent, Option.toList_none, ite_self,
    Option.toList_some, List.nil_append, List.append_nil, bne_iff_ne, ite_not]
  by_cases error : revents &&& (POLLERR ||| POLLNVAL) = 0
  · by_cases write : revents &&& POLLOUT = 0
    · simp [error, write, andThen]
    · simp only [error, write, if_true, if_false, List.nil_append, List.foldl_cons,
        List.foldl_nil, handle]
  · by_cases write : revents &&& POLLOUT = 0
    · simp only [error, write, if_true, if_false, List.append_nil, List.foldl_cons,
        List.foldl_nil, handle, andThen_pure]
      exact andThen_start (f := fun k => k.handleError a) k
    · simp only [error, write, if_false, List.cons_append, List.nil_append,
        List.foldl_cons, List.foldl_nil, handle]
      rw [andThen_start (f := fun k => k.handleError a) k]

/-- The new socket is handed to `newConnectionCallback_`. -/
def HandsOver (k : Connector) (a : EventAnswers) : Prop :=
  k.state = .kConnecting ∧ k.channel ≠ none ∧ a.socketError = none ∧
    (∃ peer, a.names.peername = .ok peer ∧ a.names.sockname ≠ .ok peer) ∧
    k.connect_ = true

theorem handleWrite_handsOver {k : Connector} {a : EventAnswers} (peerOnly : a.PeerOnly)
    (h : k.HandsOver a) :
    ∃ l first sockfd,
      k.handleWrite a = .ok (l, first ++ [.newConnectionCallback sockfd]) := by
  obtain ⟨isConnecting, hasChannel, noError, ⟨peer, hpeer, self⟩, wanted⟩ := h
  obtain ⟨addr, hname⟩ := peerOnly.sockname
  obtain ⟨channel, hchannel⟩ := Option.ne_none_iff_exists'.mp hasChannel
  have other : ¬ addr = peer := by
    rintro rfl
    exact self hname
  simp only [handleWrite, isConnecting, if_true, removeAndResetChannel, hchannel, andThen,
    noError, Option.isSome_none, InetAddress.isSelfConnect_of_peer hname hpeer, other,
    decide_false, wanted, setState, Bool.false_eq_true, if_false]
  exact ⟨_, _, _, rfl⟩

theorem retry_calls {k l : Connector} {sockfd fd : Nat} {close : Status}
    {calls : List ConnectorCall} (h : k.retry sockfd close = .ok (l, calls)) :
    .newConnectionCallback fd ∉ calls := by
  rw [retry] at h
  split at h
  · cases h
  · rename_i closed hclosed
    cases closeFd_cases hclosed
    dsimp only at h
    split at h
    · cases h
      simp
    · cases h
      simp

theorem removed_calls {k l : Connector} {sockfd fd : Nat} {calls : List ConnectorCall}
    (h : k.removeAndResetChannel = .ok (sockfd, l, calls)) :
    .newConnectionCallback fd ∉ calls ∧ l.connect_ = k.connect_ ∧ k.channel ≠ none := by
  unfold removeAndResetChannel at h
  split at h
  · cases h
  · rename_i channel hchannel
    cases h
    simp [hchannel]

theorem handleWrite_calls {k l : Connector} {a : EventAnswers} {calls : List ConnectorCall}
    {fd : Nat} (h : k.handleWrite a = .ok (l, calls))
    (handed : .newConnectionCallback fd ∈ calls) : k.HandsOver a := by
  rw [handleWrite] at h
  split at h
  · rename_i isConnecting
    split at h
    · cases h
    · rename_i sockfd removed hremoved
      obtain ⟨m, first, second, hm, hd, rfl⟩ := andThen_cases h
      cases hm
      obtain ⟨notFirst, same, hasChannel⟩ := removed_calls hremoved
      have inSecond : .newConnectionCallback fd ∈ second :=
        (List.mem_append.mp handed).resolve_left notFirst
      split at hd
      · exact absurd inSecond (retry_calls hd)
      · rename_i noError
        split at hd
        · cases hd
        · exact absurd inSecond (retry_calls hd)
        · rename_i hself
          obtain ⟨addr, peer, hname, hpeer, other⟩ := InetAddress.isSelfConnect_false hself
          dsimp only at hd
          split at hd
          · rename_i wanted
            refine ⟨isConnecting, hasChannel, by simpa using noError, ⟨peer, hpeer, ?_⟩, ?_⟩
            · rw [hname]
              simpa using other
            · rw [← same]
              exact wanted
          · split at hd
            · cases hd
            · rename_i closed hclosed
              cases closeFd_cases hclosed
              cases hd
              simp at inSecond
  · split at h
    · cases h
      cases handed
    · cases h

theorem handleError_calls {k l : Connector} {a : EventAnswers} {calls : List ConnectorCall}
    {fd : Nat} (h : k.handleError a = .ok (l, calls)) :
    .newConnectionCallback fd ∉ calls := by
  rw [handleError] at h
  split at h
  · split at h
    · cases h
    · rename_i sockfd removed hremoved
      obtain ⟨m, first, second, hm, hd, rfl⟩ := andThen_cases h
      cases hm
      rw [List.mem_append, not_or]
      exact ⟨(removed_calls hremoved).1, retry_calls hd⟩
  · cases h
    simp

/-- The poller reported the socket writable and in no error. -/
def OnlyWritable (revents : BitVec 32) : Prop :=
  revents &&& (POLLERR ||| POLLNVAL) = 0 ∧ revents &&& POLLOUT ≠ 0

theorem handleEvent_exits_iff (k : Connector) (revents : BitVec 32) {a : EventAnswers}
    (peerOnly : a.PeerOnly) :
    Exits (k.handleEvent revents a) ↔ OnlyWritable revents ∧ k.HandleWriteFatal a := by
  rw [handleEvent_eq, OnlyWritable]
  by_cases error : revents &&& (POLLERR ||| POLLNVAL) = 0
  · rw [if_pos error, andThen_start]
    by_cases write : revents &&& POLLOUT = 0
    · rw [if_pos write]
      exact iff_of_false (not_exits_ok _) (fun h => h.1.2 write)
    · rw [if_neg write, handleWrite_exits_iff k peerOnly]
      exact (and_iff_right ⟨error, write⟩).symm
  · obtain ⟨safe, spent⟩ := k.handleError_spec peerOnly
    rw [if_neg error, exits_andThen]
    constructor
    · rintro (h | ⟨l, calls, hl, h⟩)
      · exact absurd h safe
      · split at h
        · exact absurd h (not_exits_ok _)
        · exact absurd ((handleWrite_exits_iff l peerOnly).mp h).1 (spent l calls hl)
    · rintro ⟨⟨noError, _⟩, _⟩
      exact absurd noError error

theorem handleEvent_handsOver {k : Connector} {revents : BitVec 32} {a : EventAnswers}
    (peerOnly : a.PeerOnly) (writable : OnlyWritable revents) (h : k.HandsOver a) :
    ∃ l first sockfd,
      k.handleEvent revents a = .ok (l, first ++ [.newConnectionCallback sockfd]) := by
  rw [handleEvent_eq, if_pos writable.1, andThen_start, if_neg writable.2]
  exact handleWrite_handsOver peerOnly h

theorem handleEvent_calls {k l : Connector} {revents : BitVec 32} {a : EventAnswers}
    (peerOnly : a.PeerOnly) {calls : List ConnectorCall} {fd : Nat}
    (h : k.handleEvent revents a = .ok (l, calls))
    (handed : .newConnectionCallback fd ∈ calls) :
    OnlyWritable revents ∧ k.HandsOver a := by
  rw [handleEvent_eq] at h
  by_cases error : revents &&& (POLLERR ||| POLLNVAL) = 0
  · rw [if_pos error, andThen_start] at h
    split at h
    · cases h
      cases handed
    · rename_i write
      exact ⟨⟨error, write⟩, handleWrite_calls h handed⟩
  · rw [if_neg error] at h
    obtain ⟨m, first, second, hm, hl, rfl⟩ := andThen_cases h
    have inSecond : .newConnectionCallback fd ∈ second :=
      (List.mem_append.mp handed).resolve_left (handleError_calls hm)
    split at hl
    · cases hl
      cases inSecond
    · exact absurd (handleWrite_calls hl inSecond).1
        ((k.handleError_spec peerOnly).2 m first hm)

end Connector

namespace TcpClient

theorem newConnection_exits_iff (c : TcpClient) (sockfd : Nat) {names : SockNames}
    (sockname : ∃ addr, names.sockname = .ok addr) :
    Exits (c.newConnection sockfd names) ↔ ∃ e, names.peername = .error e := by
  obtain ⟨addr, hname⟩ := sockname
  rw [newConnection]
  cases hpeer : names.peername with
  | error e => simp [InetAddress.getPeerInetAddress, hpeer]
  | ok peer =>
    simp only [InetAddress.getPeerInetAddress, InetAddress.getLocalInetAddress, hpeer, hname]
    split
    · simp
    · simp [TcpConnection.connectEstablished, TcpConnection.new]

/-- The peer of a socket that has just connected has no name when `isSelfConnect`
or when `newConnection` asks for it. -/
def ConnectorEventFatal (c : TcpClient) (revents : BitVec 32) (a : Connector.EventAnswers)
    (names : SockNames) : Prop :=
  Connector.OnlyWritable revents ∧
    (c.connector.HandleWriteFatal a ∨
      c.connector.HandsOver a ∧ ∃ e, names.peername = .error e)

theorem connectorEvent_exits_iff (c : TcpClient) (revents : BitVec 32)
    {a : Connector.EventAnswers} (peerOnly : a.PeerOnly) {names : SockNames}
    (sockname : ∃ addr, names.sockname = .ok addr) :
    Exits (c.connectorEvent revents a names) ↔ c.ConnectorEventFatal revents a names := by
  have early := c.connector.handleEvent_exits_iff revents peerOnly
  rw [connectorEvent, ConnectorEventFatal]
  cases h : c.connector.handleEvent revents a with
  | error e =>
    have noneHanded : ¬ (Connector.OnlyWritable revents ∧ c.connector.HandsOver a) := by
      rintro ⟨writable, handsOver⟩
      obtain ⟨l, first, sockfd, hl⟩ :=
        Connector.handleEvent_handsOver peerOnly writable handsOver
      rw [h] at hl
      cases hl
    dsimp only
    rw [exits_error_iff _ h, early]
    tauto
  | ok r =>
    obtain ⟨l, calls⟩ := r
    rw [h] at early
    have survived := early.not.mp (not_exits_ok _)
    by_cases handsOver : Connector.OnlyWritable revents ∧ c.connector.HandsOver a
    · obtain ⟨l', first, sockfd, hl⟩ :=
        Connector.handleEvent_handsOver peerOnly handsOver.1 handsOver.2
      rw [h] at hl
      cases hl
      have next := newConnection_exits_iff { c with connector := l } sockfd sockname
      dsimp only
      rw [List.getLast?_concat]
      dsimp only
      split
      · rename_i e hnew
        rw [exits_error_iff _ hnew, next]
        tauto
      · rename_i hnew
        rw [hnew] at next
        have named := next.not.mp (not_exits_ok _)
        refine iff_of_false (not_exits_ok _) ?_
        tauto
    · dsimp only
      have quiet : ∀ sockfd, calls.getLast? ≠ some (.newConnectionCallback sockfd) := by
        intro sockfd last
        exact handsOver (Connector.handleEvent_calls peerOnly h (List.mem_of_getLast? last))
      refine iff_of_false ?_ (by tauto)
      split
      · rename_i sockfd last
        exact absurd last (quiet sockfd)
      · exact not_exits_ok _

/-- The steps of a client on its loop, and the calls of its user. The connector's
functors may run whenever the loop gets to them. -/
inductive ClientOp where
  | connect (isInLoopThread : Bool) (a : Connector.Attempt)
  | disconnect
  | stop
  | startInLoop (a : Connector.Attempt)
  | stopInLoop (close : Status)
  | resetChannel
  | connectorEvent (revents : BitVec 32) (a : Connector.EventAnswers) (names : SockNames)
  | removeConnection (conn : Nat) (a : Connector.Attempt)

/-- The client after a step; the calls it made are other steps. -/
def clientStep (c : TcpClient) : ClientOp → Except Failure TcpClient
  | .connect isInLoopThread a => (c.connect isInLoopThread a).map Prod.fst
  | .disconnect => c.disconnect.map Prod.fst
  | .stop => c.stop.map Prod.fst
  | .startInLoop a => (c.onConnector (c.connector.startInLoop a)).map Prod.fst
  | .stopInLoop close => (c.onConnector (c.connector.stopInLoop close)).map Prod.fst
  | .resetChannel => (c.onConnector c.connector.resetChannel).map Prod.fst
  | .connectorEvent revents a names => (c.connectorEvent revents a names).map Prod.fst
  | .removeConnection conn a => (c.removeConnection conn a).map Prod.fst

def ClientOp.PeerOnly : ClientOp → Prop
  | .connect _ a => a.PeerOnly
  | .startInLoop a => a.PeerOnly
  | .stopInLoop close => close = none
  | .connectorEvent _ a names => a.PeerOnly ∧ ∃ addr, names.sockname = .ok addr
  | .removeConnection _ a => a.PeerOnly
  | _ => True

def ClientOpFatal (c : TcpClient) : ClientOp → Prop
  | .connectorEvent revents a names => c.ConnectorEventFatal revents a names
  | _ => False

theorem onConnector_exits_iff (c : TcpClient) (o : Connector.Outcome) :
    Exits (c.onConnector o) ↔ Exits o := by
  unfold onConnector
  split
  · exact exits_error_iff _ rfl
  · simp

theorem removeConnection_not_exits (c : TcpClient) (conn : Nat) {a : Connector.Attempt}
    (peerOnly : a.PeerOnly) : ¬ Exits (c.removeConnection conn a) := by
  rw [removeConnection]
  split
  · rw [exits_andThen_ok]
    split
    · rw [onConnector_exits_iff]
      exact Connector.startInLoop_not_exits _ peerOnly
    · exact not_exits_ok _
  · exact not_exits_assertion

theorem clientStep_exits_iff (c : TcpClient) {op : ClientOp} (peerOnly : op.PeerOnly) :
    Exits (clientStep c op) ↔ c.ClientOpFatal op := by
  cases op with
  | connect isInLoopThread a =>
    refine iff_of_false ?_ id
    rw [clientStep, exits_map, connect, onConnector_exits_iff]
    exact Connector.start_not_exits _ isInLoopThread peerOnly
  | disconnect => exact iff_of_false (not_exits_ok _) id
  | stop => exact iff_of_false (not_exits_ok _) id
  | startInLoop a =>
    refine iff_of_false ?_ id
    rw [clientStep, exits_map, onConnector_exits_iff]
    exact Connector.startInLoop_not_exits _ peerOnly
  | stopInLoop close =>
    refine iff_of_false ?_ id
    cases (show close = none from peerOnly)
    rw [clientStep, exits_map, onConnector_exits_iff]
    exact Connector.stopInLoop_not_exits _
  | resetChannel => exact iff_of_false (not_exits_ok _) id
  | connectorEvent revents a names =>
    rw [clientStep, exits_map]
    exact connectorEvent_exits_iff c revents peerOnly.1 peerOnly.2
  | removeConnection conn a =>
    refine iff_of_false ?_ id
    rw [clientStep, exits_map]
    exact removeConnection_not_exits c conn peerOnly

/-- A run of a client ends the process exactly if one of its steps does. -/
theorem client_run_exits_iff (wc : Bool) {ops : List ClientOp}
    (peerOnly : ∀ op ∈ ops, op.PeerOnly) :
    Exits (run clientStep (new wc) ops) ↔
      ¬ Along clientStep (fun c op => ¬ c.ClientOpFatal op) (new wc) ops := by
  rw [exits_iff]
  refine run_fails_iff (fun _ _ _ _ _ => trivial) ?_ peerOnly trivial
  intro c op _ admitted
  rw [not_not, ← clientStep_exits_iff c admitted, exits_iff]

end TcpClient

/-- A peer ends the process exactly through a failing direct `::write`, a failing
`::shutdown`, or a freshly connected socket whose peer has no name any more. -/
theorem peer_ends_process_iff (sockfd : Nat) (wc : Bool) (ops : List TcpConnection.ConnOp)
    (clientOps : List TcpClient.ClientOp) (peerOnly : ∀ op ∈ clientOps, op.PeerOnly) :
    (Exits (run TcpConnection.connStep (TcpConnection.new sockfd wc, []) ops) ↔
      ¬ Along TcpConnection.connStep (fun s op => ¬ s.1.OpFatal op)
        (TcpConnection.new sockfd wc, []) ops) ∧
    (Exits (run TcpClient.clientStep (TcpClient.new wc) clientOps) ↔
      ¬ Along TcpClient.clientStep (fun c op => ¬ c.ClientOpFatal op)
        (TcpClient.new wc) clientOps) :=
  ⟨TcpConnection.connection_run_exits_iff sockfd wc ops,
    TcpClient.client_run_exits_iff wc peerOnly⟩

section PeerRuns

def localName : InetAddress := ⟨0x7f000001#32, 0x2710#16⟩
def peerName : InetAddress := ⟨0x0a000001#32, 0x2711#16⟩

/-- `connect()` on the loop, and the socket is writable at once. -/
def connects (isSelf forConnection : Except Errno InetAddress) : List TcpClient.ClientOp :=
  [.connect true ⟨some 9, some .EINPROGRESS, none⟩,
    .connectorEvent POLLOUT ⟨none, ⟨.ok localName, isSelf⟩, none⟩
      ⟨.ok localName, forConnection⟩]

theorem peer_ends_process_each_call :
    run TcpConnection.connStep (TcpConnection.new 7 false, [])
        [.functor .connectEstablished (.accepted 0) none,
          .user true (.send [1] (.failed .EAGAIN))] =
      .error (.exit "ZDQ::TcpConnection::sendInLoop::write") ∧
    run TcpConnection.connStep (TcpConnection.new 7 false, [])
        [.functor .connectEstablished (.accepted 0) none,
          .user true (.shutdown (some .ENOTCONN))] =
      .error (.exit "shutdow") ∧
    run TcpClient.clientStep (TcpClient.new false) (connects (.error .ENOTCONN) (.ok peerName)) =
      .error (.exit "getpeername") ∧
    run TcpClient.clientStep (TcpClient.new false) (connects (.ok peerName) (.error .ENOTCONN)) =
      .error (.exit "getpeername") :=
  ⟨rfl, rfl, rfl, rfl⟩

theorem peer_ends_process_iff_pipe_and_reset :
    (Exits (run TcpConnection.connStep (TcpConnection.new 7 false, [])
        [.functor .connectEstablished (.accepted 0) none,
          .functor (.sendInLoop [1]) (.failed .EPIPE) none]) ↔
      ¬ Along TcpConnection.connStep (fun s op => ¬ s.1.OpFatal op)
        (TcpConnection.new 7 false, [])
        [.functor .connectEstablished (.accepted 0) none,
          .functor (.sendInLoop [1]) (.failed .EPIPE) none]) ∧
    (Exits (run TcpClient.clientStep (TcpClient.new false)
        (connects (.ok peerName) (.error .ENOTCONN))) ↔
      ¬ Along TcpClient.clientStep (fun c op => ¬ c.ClientOpFatal op) (TcpClient.new false)
        (connects (.ok peerName) (.error .ENOTCONN))) := by
  refine peer_ends_process_iff 7 false _ _ ?_
  intro op hop
  simp only [connects, List.mem_cons, List.not_mem_nil, or_false] at hop
  rcases hop with rfl | rfl
  · exact ⟨by simp, rfl⟩
  · exact ⟨⟨⟨localName, rfl⟩, rfl⟩, ⟨localName, rfl⟩⟩

end PeerRuns

end ZDQ
