import ThreadAndNet.TcpConnection

/-!
# The output of a connection is a queue of bytes

The direct write of `sendInLoop`, its buffered path and the drain of
`handleWrite` agree on the order of the bytes because write interest is on
exactly while output is pending.
-/

namespace ZDQ.TcpConnection

open Machine

/-- The bytes the `::write` calls of a trace took. -/
def accepted : List Call → List UInt8
  | [] => []
  | .write offered returned :: rest => offered.take returned.toNat ++ accepted rest
  | _ :: rest => accepted rest

@[simp] theorem accepted_append (first second : List Call) :
    accepted (first ++ second) = accepted first ++ accepted second := by
  induction first with
  | nil => rfl
  | cons call rest ih =>
    cases call <;> simp [accepted, ih]

@[simp] theorem accepted_writeComplete (c : TcpConnection) :
    accepted c.writeComplete = [] := by
  rw [writeComplete]
  split <;> rfl

/-- Write interest is on exactly while bytes are pending. -/
def PendingIffWriteing (c : TcpConnection) : Prop :=
  c.channel.isWriteing = true ↔ c.outputBuf.readable ≠ []

theorem keepUnsent_spec (c : TcpConnection) {message : List UInt8} (k : Nat)
    (short : (message.drop k).length < 2 ^ 31) :
    ∃ d calls, c.keepUnsent message k = .ok (d, calls) ∧
      d.outputBuf.readable = c.outputBuf.readable ++ message.drop k ∧
      (d.channel.isWriteing = true ↔ c.channel.isWriteing = true ∨ k < message.length) ∧
      accepted calls = [] ∧ d.state = c.state := by
  rw [keepUnsent]
  by_cases unsent : k < message.length
  · have length : (message.length - k : Nat) = ((message.drop k).length : Int) := by
      rw [List.length_drop]
    obtain ⟨out, hout, hread⟩ := c.outputBuf.append_spec short
    rw [if_pos unsent, length, hout]
    by_cases writeing : c.channel.isWriteing = true
    · refine ⟨{ c with outputBuf := out }, [], ?_, hread, ?_, rfl, rfl⟩
      · simp only [writeing, if_true]
      · simp only [writeing, true_or]
    · refine ⟨{ c with outputBuf := out, channel := c.channel.enableWriteing },
        [.update c.channel.enableWriteing], ?_, hread, ?_, rfl, rfl⟩
      · simp only [writeing, if_false, Bool.false_eq_true]
      · simp only [Channel.isWriteing_enableWriteing, unsent, or_true]
  · rw [if_neg unsent]
    refine ⟨c, c.writeComplete, rfl, ?_, ?_, accepted_writeComplete c, rfl⟩
    · rw [List.drop_eq_nil_of_le (by omega), List.append_nil]
    · simp [unsent]

/-- The part of a message that a direct `::write` leaves, or all of it, fits an `int`. -/
def TailFits (c : TcpConnection) (message : List UInt8) (w : WriteResult) : Prop :=
  (message.drop (if c.channel.isWriteing = false ∧ c.outputBuf.readBuffSize = 0
    then (w.returned message).toNat else 0)).length < 2 ^ 31

theorem tailFits_of_short (c : TcpConnection) {message : List UInt8}
    (short : message.length < 2 ^ 31) (w : WriteResult) : c.TailFits message w := by
  rw [TailFits, List.length_drop]
  omega

/-- `sendInLoop` queues the message behind the pending bytes, some of it perhaps
already accepted by the kernel. -/
theorem sendInLoop_spec {c : TcpConnection} (inv : c.PendingIffWriteing)
    {message : List UInt8} {w : WriteResult} (fits : c.TailFits message w) :
    (∃ d calls, c.sendInLoop message w = .ok (d, calls) ∧
      accepted calls ++ d.outputBuf.readable = c.outputBuf.readable ++ message ∧
      d.PendingIffWriteing ∧ d.state = c.state) ∨
    (c.channel.isWriteing = false ∧ w.returned message = -1 ∧
      c.sendInLoop message w = .error (.exit "ZDQ::TcpConnection::sendInLoop::write")) := by
  rw [sendInLoop]
  rw [TailFits] at fits
  by_cases direct : c.channel.isWriteing = false ∧ c.outputBuf.readBuffSize = 0
  · rw [if_pos direct] at fits
    have empty := (Buffer.readBuffSize_eq_zero_iff _).mp direct.2
    rw [if_pos direct]
    rcases w.returned_range message with failed | ⟨k, hk, hle, _⟩
    · right
      exact ⟨direct.1, failed, by rw [if_pos failed]⟩
    · left
      rw [hk, Int.toNat_natCast] at fits
      obtain ⟨d, calls, hd, hread, hwr, hacc, hstate⟩ := c.keepUnsent_spec k fits
      have notFailed : ¬ (w.returned message = -1) := by omega
      refine ⟨d, [.write message k] ++ calls, ?_, ?_, ?_, hstate⟩
      · simp only [hk] at notFailed ⊢
        simp only [notFailed, if_false, andThen, Int.toNat_natCast, hd]
      · simp [accepted, hacc, hread, empty]
      · rw [PendingIffWriteing, hwr, hread, empty, direct.1]
        simp
  · rw [if_neg direct] at fits ⊢
    left
    obtain ⟨d, calls, hd, hread, hwr, hacc, hstate⟩ := c.keepUnsent_spec 0 fits
    have pending : c.outputBuf.readable ≠ [] := by
      intro empty
      have off : c.channel.isWriteing = false := by
        by_contra on
        exact inv.mp (by simpa using on) empty
      exact direct ⟨off, (Buffer.readBuffSize_eq_zero_iff _).mpr empty⟩
    refine ⟨d, calls, hd, ?_, ?_, hstate⟩
    · rw [hacc, hread, List.nil_append, List.drop_zero]
    · rw [PendingIffWriteing, hwr, hread]
      simp [pending, inv.mpr pending]

theorem drained_spec (c : TcpConnection) (shutdown : Status) :
    (∃ d calls, c.drained shutdown = .ok (d, calls) ∧ d.outputBuf = c.outputBuf ∧
      d.channel.isWriteing = false ∧ accepted calls = [] ∧ d.state = c.state) ∨
    (c.state = .kDisconnecting ∧ shutdown ≠ none ∧
      c.drained shutdown = .error (.exit "shutdow")) := by
  have calm : accepted (.update c.channel.disableWriteing :: c.writeComplete) = [] :=
    c.accepted_writeComplete
  by_cases closing : c.state = .kDisconnecting
  · cases shutdown with
    | none =>
      left
      refine ⟨{ c with channel := c.channel.disableWriteing },
        (.update c.channel.disableWriteing :: c.writeComplete) ++ [.shutdownWrite],
        ?_, rfl, Channel.isWriteing_disableWriteing _, ?_, rfl⟩
      · simp [drained, andThen, closing, shutdownInLoop, writeComplete]
      · rw [accepted_append, calm]
        rfl
    | some e =>
      right
      refine ⟨closing, Option.some_ne_none e, ?_⟩
      simp [drained, andThen, closing, shutdownInLoop]
  · left
    refine ⟨{ c with channel := c.channel.disableWriteing },
      .update c.channel.disableWriteing :: c.writeComplete,
      ?_, rfl, Channel.isWriteing_disableWriteing _, calm, rfl⟩
    simp [drained, andThen, closing, writeComplete]

/-- The last pending bytes of a connection that is to be shut down go out, and its
`::shutdown` fails. -/
def ShutdownRefused (c : TcpConnection) (w : WriteResult) (shutdown : Status) : Prop :=
  c.state = .kDisconnecting ∧ shutdown ≠ none ∧
    w.returned c.outputBuf.readable = c.outputBuf.readable.length

/-- `handleWrite` moves some pending bytes to the kernel. -/
theorem handleWrite_spec {c : TcpConnection} (inv : c.PendingIffWriteing)
    (w : WriteResult) (shutdown : Status) :
    (∃ d calls, c.handleWrite w shutdown = .ok (d, calls) ∧
      accepted calls ++ d.outputBuf.readable = c.outputBuf.readable ∧
      d.PendingIffWriteing ∧ d.state = c.state) ∨
    (c.ShutdownRefused w shutdown ∧ c.handleWrite w shutdown = .error (.exit "shutdow")) := by
  rw [handleWrite]
  by_cases writeing : c.channel.isWriteing = true
  · rw [if_pos writeing]
    rcases w.returned_range c.outputBuf.readable with failed | ⟨k, hk, hle, hsmall⟩
    · left
      refine ⟨c, [.write c.outputBuf.readable (-1)], ?_, ?_, inv, rfl⟩
      · simp [failed, andThen]
      · simp [accepted]
    · by_cases none : k = 0
      · left
        refine ⟨c, [.write c.outputBuf.readable 0], ?_, ?_, inv, rfl⟩
        · simp [hk, none, andThen]
        · simp [accepted]
      · have size : k ≤ c.outputBuf.readBuffSize := by
          rw [← Buffer.length_readable]
          exact hle
        obtain ⟨out, hout, hread⟩ := c.outputBuf.retrieve_spec size
        have pos : (0 : Int) < k := by omega
        have retrieved : c.outputBuf.retrieve (narrow k) = .ok out := by
          rw [narrow_of_lt (by omega) (by omega), hout]
        by_cases empty : out.readBuffSize = 0
        · have noneLeft := (Buffer.readBuffSize_eq_zero_iff _).mp empty
          have all : c.outputBuf.readable.take k = c.outputBuf.readable := by
            rw [noneLeft] at hread
            exact List.take_of_length_le (List.drop_eq_nil_iff.mp hread.symm)
          rcases drained_spec { c with outputBuf := out } shutdown with
            ⟨d, calls, hd, hbuf, hwr, hacc, hstate⟩ | ⟨closing, refused, hexit⟩
          · left
            refine ⟨d, [.write c.outputBuf.readable k] ++ calls, ?_, ?_, ?_, hstate⟩
            · simp only [hk, andThen, pos, if_true, retrieved, empty, hd]
            · simp [accepted, hacc, hbuf, noneLeft, all]
            · simp [PendingIffWriteing, hwr, hbuf, noneLeft]
          · right
            have whole : k = c.outputBuf.readable.length := by
              have short := congrArg List.length all
              rw [List.length_take] at short
              omega
            refine ⟨⟨closing, refused, hk.trans (by rw [whole])⟩, ?_⟩
            simp only [hk, andThen, pos, if_true, retrieved, empty, hexit]
        · left
          refine ⟨{ c with outputBuf := out }, [.write c.outputBuf.readable k] ++ [],
            ?_, ?_, ?_, rfl⟩
          · simp only [hk, andThen, pos, if_true, retrieved, empty, if_false]
          · simp [accepted, hread]
          · have some : out.readable ≠ [] := fun h =>
              empty ((Buffer.readBuffSize_eq_zero_iff _).mpr h)
            simp [PendingIffWriteing, writeing, some]
  · left
    refine ⟨c, [], ?_, rfl, inv, rfl⟩
    rw [if_neg writeing]

/-! ## Whole runs -/

/-- The steps that touch the output of a connection which stays open. -/
inductive OutputOp where
  | sendInLoop (message : List UInt8) (w : WriteResult)
  | handleWrite (w : WriteResult) (shutdown : Status)

namespace OutputOp

def apply (c : TcpConnection) : OutputOp → Outcome
  | .sendInLoop message w => c.sendInLoop message w
  | .handleWrite w shutdown => c.handleWrite w shutdown

def message : OutputOp → List UInt8
  | .sendInLoop message _ => message
  | .handleWrite _ _ => []

/-- Messages shorter than 2^31 bytes, and no failing direct write. -/
def Ordinary : OutputOp → Prop
  | .sendInLoop message w => message.length < 2 ^ 31 ∧ w.returned message ≠ -1
  | .handleWrite _ _ => True

end OutputOp

/-- A connection together with the calls it made so far. -/
def outputStep (s : TcpConnection × List Call) (op : OutputOp) :
    Except Failure (TcpConnection × List Call) :=
  andThen (.ok s) op.apply

theorem OutputOp.apply_spec {c : TcpConnection} (inv : c.PendingIffWriteing)
    {op : OutputOp} (ordinary : op.Ordinary) :
    (∃ d calls, op.apply c = .ok (d, calls) ∧
      accepted calls ++ d.outputBuf.readable = c.outputBuf.readable ++ op.message ∧
      d.PendingIffWriteing) ∨
    ∃ w shutdown, op = .handleWrite w shutdown ∧ c.ShutdownRefused w shutdown ∧
      op.apply c = .error (.exit "shutdow") := by
  cases op with
  | sendInLoop message w =>
    have room := c.tailFits_of_short ordinary.1 w
    rcases sendInLoop_spec inv room with ⟨d, calls, hd, hread, hinv, _⟩ | ⟨_, failed, _⟩
    · exact Or.inl ⟨d, calls, hd, hread, hinv⟩
    · exact absurd failed ordinary.2
  | handleWrite w shutdown =>
    rcases handleWrite_spec inv w shutdown with ⟨d, calls, hd, hread, hinv, _⟩ | ⟨refused, hexit⟩
    · left
      exact ⟨d, calls, hd, by rw [hread, OutputOp.message, List.append_nil], hinv⟩
    · exact Or.inr ⟨w, shutdown, rfl, refused, hexit⟩

/-- The run comes to a `handleWrite` whose `::shutdown` fails, and ends there. -/
def EndsRefused (s : TcpConnection × List Call) (ops : List OutputOp) : Prop :=
  ∃ before w shutdown after t, ops = before ++ .handleWrite w shutdown :: after ∧
    run outputStep s before = .ok t ∧ t.1.ShutdownRefused w shutdown ∧
    run outputStep s ops = .error (.exit "shutdow")

theorem EndsRefused.cons {s m : TcpConnection × List Call} {op : OutputOp}
    {rest : List OutputOp} (hstep : outputStep s op = .ok m) (h : EndsRefused m rest) :
    EndsRefused s (op :: rest) := by
  obtain ⟨before, w, shutdown, after, t, split, hrun, refused, exits⟩ := h
  refine ⟨op :: before, w, shutdown, after, t, by rw [split, List.cons_append], ?_, refused, ?_⟩
  · rw [run_cons_ok hstep, hrun]
  · rw [run_cons_ok hstep, exits]

theorem run_output {c : TcpConnection} (inv : c.PendingIffWriteing) (before : List Call)
    {ops : List OutputOp} (ordinary : ∀ op ∈ ops, op.Ordinary) :
    (∃ d calls, run outputStep (c, before) ops = .ok (d, before ++ calls) ∧
      accepted calls ++ d.outputBuf.readable =
        c.outputBuf.readable ++ ops.flatMap OutputOp.message ∧
      d.PendingIffWriteing) ∨
    EndsRefused (c, before) ops := by
  induction ops generalizing c before with
  | nil =>
    left
    exact ⟨c, [], by simp, by simp [accepted], inv⟩
  | cons op rest ih =>
    rcases OutputOp.apply_spec inv (ordinary op List.mem_cons_self) with
      ⟨m, calls, hm, hread, hinv⟩ | ⟨w, shutdown, rfl, refused, hexit⟩
    · have hstep : outputStep (c, before) op = .ok (m, before ++ calls) := by
        simp only [outputStep, andThen, hm]
      rcases ih hinv (before ++ calls) (fun o ho => ordinary o (List.mem_cons_of_mem op ho))
        with ⟨d, more, hd, hrest, hdinv⟩ | ends
      · left
        refine ⟨d, calls ++ more, ?_, ?_, hdinv⟩
        · rw [run_cons_ok hstep, hd, List.append_assoc]
        · rw [accepted_append, List.append_assoc, hrest, ← List.append_assoc, hread,
            List.flatMap_cons, List.append_assoc]
      · exact Or.inr (ends.cons hstep)
    · right
      refine ⟨[], w, shutdown, rest, (c, before), rfl, rfl, refused, ?_⟩
      exact run_cons_error (by simp only [outputStep, andThen, hexit]) rest

/-- Whatever the kernel accepts and when, what it accepted followed by what is
still buffered is the concatenation of the messages, and write interest is on
exactly while something is buffered. The one other way a run can go is that the process
exits in a `handleWrite` whose `::shutdown` fails. -/
theorem output_in_order (c : TcpConnection) (unsent : c.outputBuf.readable = [])
    (idle : c.channel.isWriteing = false) (ops : List OutputOp)
    (ordinary : ∀ op ∈ ops, op.Ordinary) :
    (∃ d calls, run outputStep (c, []) ops = .ok (d, calls) ∧
      accepted calls ++ d.outputBuf.readable = ops.flatMap OutputOp.message ∧
      (d.channel.isWriteing = true ↔ d.outputBuf.readable ≠ [])) ∨
    ∃ (before after : List OutputOp) (w : WriteResult) (shutdown : Status) (d : TcpConnection)
        (calls : List Call), ops = before ++ .handleWrite w shutdown :: after ∧
      run outputStep (c, []) before = .ok (d, calls) ∧ d.state = .kDisconnecting ∧
      shutdown ≠ none ∧ w.returned d.outputBuf.readable = d.outputBuf.readable.length ∧
      run outputStep (c, []) ops = .error (.exit "shutdow") := by
  have start : c.PendingIffWriteing := by
    rw [PendingIffWriteing, unsent, idle]
    simp
  rcases run_output start [] ordinary with ⟨d, calls, hd, hread, hinv⟩ | ends
  · left
    refine ⟨d, calls, hd, ?_, hinv⟩
    rw [hread, unsent, List.nil_append]
  · right
    obtain ⟨before, w, shutdown, after, ⟨d, calls⟩, split, hrun, ⟨closing, refused, all⟩, exits⟩ :=
      ends
    exact ⟨before, after, w, shutdown, d, calls, split, hrun, closing, refused, all, exits⟩

/-- A partial direct write, a message behind it, and two write events. -/
def partialWrites : List OutputOp :=
  [.sendInLoop [1, 2, 3] (.accepted 1), .sendInLoop [4] (.accepted 1),
    .handleWrite (.accepted 2) none, .handleWrite (.failed .EAGAIN) none]

theorem output_in_order_partial_writes :
    ∃ d calls, run outputStep (new 5 true, []) partialWrites = .ok (d, calls) ∧
      accepted calls ++ d.outputBuf.readable = [1, 2, 3, 4] ∧
      (d.channel.isWriteing = true ↔ d.outputBuf.readable ≠ []) := by
  have answered : ∀ op ∈ partialWrites, op.Ordinary ∧
      ∀ w shutdown, op = .handleWrite w shutdown → shutdown = none := by
    simp [partialWrites, OutputOp.Ordinary, WriteResult.returned, maxTransfer]
  rcases output_in_order (new 5 true) (Buffer.readable_new _) (Channel.isWriteing_new 5)
    partialWrites (fun op mem => (answered op mem).1) with
    inOrder | ⟨before, after, w, shutdown, d, calls, split, _, _, refused, _⟩
  · exact inOrder
  · have mem : .handleWrite w shutdown ∈ partialWrites := by
      rw [split]
      exact List.mem_append_right before List.mem_cons_self
    exact absurd ((answered _ mem).2 w shutdown rfl) refused

end ZDQ.TcpConnection
