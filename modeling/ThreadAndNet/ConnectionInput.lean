import ThreadAndNet.BufferFifo
import ThreadAndNet.ConnectionDispatch

/-!
# What user code gets to read

Whatever the message callback and other calls take out of `inputBuf_`, and how much at a time,
it is the stream that `readv` has delivered. A length from 2^31 on is another one once it is an
`int`, so those are left out.
-/

namespace ZDQ

open Machine

namespace TcpConnection

variable {c d : TcpConnection} {calls : List Call}

/-- The string that a call of user code is given. -/
def UserCall.takes (c : TcpConnection) : UserCall → List UInt8
  | .retrieve len =>
    match c.inputBuf.retrieveAsString len with
    | .ok (bytes, _) => bytes
    | .error _ => []
  | _ => []

/-- What the calls of one callback are given, in order. -/
def takesAll (c : TcpConnection) : List UserCall → List UInt8
  | [] => []
  | u :: rest =>
    u.takes c ++
      match c.userCall true u with
      | .ok (d, _) => d.takesAll rest
      | .error _ => []

def UserCall.Short : UserCall → Prop
  | .retrieve len => len < 2 ^ 31
  | _ => True

instance : DecidablePred UserCall.Short
  | .retrieve len => inferInstanceAs (Decidable (len < 2 ^ 31))
  | .send _ _ | .shutdown _ | .forceClose => isTrue trivial

/-- The bytes that `readv` delivers in an event. -/
def delivered (c : TcpConnection) (revents : BitVec 32) (read : Buffer.Readv) : List UInt8 :=
  if .handleRead ∈ c.callbacks.handleEvent revents then
    match read with
    | .failed => []
    | .read bytes => bytes.take c.inputBuf.iovecSpace
  else []

/-- What the message callback of an event is given. -/
def callbackTakes (c : TcpConnection) (revents : BitVec 32) (input : EventInput) : List UInt8 :=
  if .handleRead ∈ c.callbacks.handleEvent revents then
    match c.inputBuf.readFd input.read with
    | .ok (n, inputBuf) =>
      if 0 < n then { c with inputBuf := inputBuf }.takesAll input.onMessage else []
    | .error _ => []
  else []

def ConnOp.delivers (c : TcpConnection) : ConnOp → List UInt8
  | .event revents input => c.delivered revents input.read
  | _ => []

def ConnOp.takes (c : TcpConnection) : ConnOp → List UInt8
  | .event revents input => c.callbackTakes revents input
  | .user _ u => u.takes c
  | .functor _ _ _ => []

def ConnOp.Short : ConnOp → Prop
  | .event _ input => ∀ u ∈ input.onMessage, u.Short
  | .user _ u => u.Short
  | .functor _ _ _ => True

instance : DecidablePred ConnOp.Short
  | .event _ input => inferInstanceAs (Decidable (∀ u ∈ input.onMessage, u.Short))
  | .user _ u => inferInstanceAs (Decidable u.Short)
  | .functor _ _ _ => isTrue trivial

end TcpConnection

/-- A connection with its stream of input. -/
structure Listener where
  conn : TcpConnection
  /-- what `readv` has delivered -/
  delivered : List UInt8
  /-- what user code has been given -/
  taken : List UInt8

namespace Listener

open TcpConnection

def new (sockfd : Nat) (writeCompleteCallback : Bool) : Listener :=
  ⟨.new sockfd writeCompleteCallback, [], []⟩

def step (j : Listener) (op : ConnOp) : Except Failure Listener :=
  (op.apply j.conn).map (fun r =>
    ⟨r.1, j.delivered ++ op.delivers j.conn, j.taken ++ op.takes j.conn⟩)

end Listener

namespace TcpConnection

variable {c d : TcpConnection} {calls : List Call}

theorem userCall_takes {inLoop : Bool} {u : UserCall} (short : u.Short)
    (h : c.userCall inLoop u = .ok (d, calls)) :
    u.takes c ++ d.inputBuf.readable = c.inputBuf.readable := by
  cases u with
  | send message w =>
    simp only [userCall, send] at h
    split at h
    · split at h
      · rw [(sendInLoop_outputOnly h).inputBuf]
        rfl
      · cases h
        rfl
    · cases h
      rfl
  | shutdown result =>
    simp only [userCall, shutdown] at h
    split at h
    · split at h
      · rw [(shutdownInLoop_outputOnly h).inputBuf]
        rfl
      · cases h
        rfl
    · cases h
      rfl
  | forceClose =>
    simp only [userCall, forceClose] at h
    split at h
    · cases h
      rfl
    · cases h
      rfl
  | retrieve len =>
    have inside : len ≤ c.inputBuf.readBuffSize := by
      by_contra outside
      simp only [userCall, Buffer.retrieveAsString, if_neg outside] at h
      cases h
    obtain ⟨rest, hrest, left⟩ := c.inputBuf.retrieveAsString_spec short inside
    simp only [userCall, hrest] at h
    cases h
    rw [UserCall.takes, hrest, left]
    exact List.take_append_drop len _

theorem userCalls_takesAll {us : List UserCall} (short : ∀ u ∈ us, u.Short)
    (h : c.userCalls us = .ok (d, calls)) :
    c.takesAll us ++ d.inputBuf.readable = c.inputBuf.readable := by
  induction us generalizing c calls with
  | nil =>
    cases h
    rfl
  | cons u rest ih =>
    obtain ⟨m, first, second, hm, hd, rfl⟩ := andThen_cases h
    have own := userCall_takes (short u List.mem_cons_self) hm
    have others := ih (fun v mem => short v (List.mem_cons_of_mem u mem)) hd
    rw [takesAll, hm]
    dsimp only
    rw [List.append_assoc, others, own]

/-- What is read in an event goes behind what was there, and the callback takes from the
front. -/
theorem handleRead_takes {input : EventInput} (short : ∀ u ∈ input.onMessage, u.Short)
    (h : c.handleRead input = .ok (d, calls)) :
    (match c.inputBuf.readFd input.read with
      | .ok (n, inputBuf) =>
        if 0 < n then { c with inputBuf := inputBuf }.takesAll input.onMessage else []
      | .error _ => []) ++ d.inputBuf.readable =
    c.inputBuf.readable ++
      match input.read with
      | .failed => []
      | .read bytes => bytes.take c.inputBuf.iovecSpace := by
  rw [handleRead] at h
  cases hread : input.read with
  | failed =>
    rw [hread] at h
    cases h
    simp [Buffer.readFd]
  | read bytes =>
    obtain ⟨r, hr, grown⟩ := c.inputBuf.readFd_spec bytes
    rw [hread, hr] at h
    rw [hr]
    dsimp only at h ⊢
    split at h
    · rename_i some
      obtain ⟨m, first, more, hm, hd, rfl⟩ := andThen_cases h
      cases hm
      rw [if_pos some, userCalls_takesAll short hd, grown]
    · rename_i none
      rw [if_neg none, ← grown, List.nil_append]
      split at h
      · cases h
        rfl
      · cases h
        rfl

/-- With the wiring of the constructor an event reads exactly if `handleRead` is called. -/
theorem Wired.reads (wired : c.Wired) (revents : BitVec 32) :
    .handleRead ∈ c.callbacks.handleEvent revents ↔
      revents &&& (POLLIN ||| POLLPRI ||| POLLRDHUP) ≠ 0 := by
  rw [Wired] at wired
  simp only [Callbacks.handleEvent, wired, Option.toList_none, ite_self, Option.toList_some,
    List.nil_append, List.append_nil, bne_iff_ne]
  split <;> simp_all

theorem runFunctor_inputBuf {w : WriteResult} {shutdown : Status} {f : ConnFunctor}
    (h : c.runFunctor w shutdown f = .ok (d, calls)) : d.inputBuf = c.inputBuf := by
  cases f with
  | sendInLoop message => exact (sendInLoop_outputOnly h).inputBuf
  | shutdownInLoop => exact (shutdownInLoop_outputOnly h).inputBuf
  | writeCompleteCallback =>
    cases h
    rfl
  | connectEstablished =>
    simp only [runFunctor, connectEstablished] at h
    split at h
    · cases h
      rfl
    · cases h
  | connectDestroyed =>
    simp only [runFunctor, connectDestroyed] at h
    split at h
    · cases h
      rfl
    · cases h
      rfl
  | forceCloseInLoop =>
    simp only [runFunctor, forceCloseInLoop] at h
    split at h
    · cases h
      rfl
    · cases h
      rfl

/-- One step takes from the front and delivers at the end. -/
theorem ConnOp.apply_takes (wired : c.Wired) {op : ConnOp} (short : op.Short)
    (h : op.apply c = .ok (d, calls)) :
    op.takes c ++ d.inputBuf.readable = c.inputBuf.readable ++ op.delivers c := by
  cases op with
  | functor f w shutdown =>
    rw [runFunctor_inputBuf h]
    exact (List.append_nil _).symm
  | user inLoop u =>
    have given : u.takes c ++ d.inputBuf.readable = c.inputBuf.readable := userCall_takes short h
    exact given.trans (List.append_nil _).symm
  | event revents input =>
    have h : c.handleEvent revents input = .ok (d, calls) := h
    rw [wired.handleEvent_eq] at h
    simp only [ConnOp.takes, ConnOp.delivers, callbackTakes, TcpConnection.delivered]
    split at h
    · rename_i reads
      have reads := (wired.reads revents).mpr reads
      rw [if_pos reads, if_pos reads]
      exact handleRead_takes short h
    · rename_i still
      have still := (wired.reads revents).not.mpr still
      rw [if_neg still, if_neg still]
      cases h
      exact (List.append_nil _).symm

end TcpConnection

namespace Listener

open TcpConnection

variable {j k : Listener}

structure Inv (j : Listener) : Prop where
  wired : j.conn.Wired
  order : j.taken ++ j.conn.inputBuf.readable = j.delivered

theorem Inv.step (inv : Inv j) {op : ConnOp} (short : op.Short) (h : j.step op = .ok k) :
    Inv k := by
  obtain ⟨⟨d, calls⟩, applied, rfl⟩ := map_cases h
  refine ⟨op.apply_wired inv.wired applied, ?_⟩
  dsimp only
  rw [List.append_assoc, op.apply_takes inv.wired short applied, ← List.append_assoc, inv.order]

/-- In every run, what user code has been given and then what is left in `inputBuf_` is what
`readv` has delivered, byte for byte. -/
theorem input_in_order {sockfd : Nat} {wc : Bool} {ops : List ConnOp}
    (short : ∀ op ∈ ops, op.Short) (h : run step (new sockfd wc) ops = .ok j) :
    j.taken ++ j.conn.inputBuf.readable = j.delivered := by
  have keep : ∀ (j k : Listener) (op : ConnOp), Inv j → op.Short → j.step op = .ok k → Inv k :=
    fun _ _ _ kept short made => kept.step short made
  have start : Inv (new sockfd wc) := ⟨rfl, by simp [new, TcpConnection.new]⟩
  exact (run_keeps (fun _ _ _ => keep _ _ _) start (along_of_mem (fun op mem _ => short op mem) _)
    h).order

/-- Two deliveries; the callback of the first leaves a byte. -/
def leftOver : List ConnOp :=
  [.functor .connectEstablished (.accepted 0) none,
    .event POLLIN ⟨.read [1, 2, 3], [.retrieve 2], .accepted 0, none⟩,
    .event POLLIN ⟨.read [4], [], .accepted 0, none⟩, .user true (.retrieve 1)]

theorem input_in_order_leftOver : ∃ j, run step (new 5 false) leftOver = .ok j ∧
    j.taken = [1, 2, 3] ∧ j.taken ++ j.conn.inputBuf.readable = j.delivered := by
  obtain ⟨j, ran, given⟩ := ok_of_any (o := run step (new 5 false) leftOver)
    (p := fun j => j.taken = [1, 2, 3]) (by decide +kernel)
  exact ⟨j, ran, of_decide_eq_true given, input_in_order (by decide) ran⟩

end Listener

end ZDQ
