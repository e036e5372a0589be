import ThreadAndNet.TcpConnection

/-!
# What the member functions of a connection leave alone

`OutputOnly` bounds the functions that move output; `UserOnly` bounds what user
code can do through `send`, `shutdown` and `forceClose`. Later invariants use
these bounds and never unfold the functions again.
-/

namespace ZDQ

/-- The calls the output functions make. -/
def Call.IsOutput : Call → Prop
  | .update _ => True
  | .write _ _ => True
  | .shutdownWrite => True
  | .append f => f = .writeCompleteCallback
  | _ => False

/-- The calls user code can cause without waiting for a functor. -/
def Call.IsUser : Call → Prop
  | .append (.sendInLoop _) => True
  | .append .shutdownInLoop => True
  | .append .forceCloseInLoop => True
  | call => call.IsOutput

theorem Call.IsOutput.isUser {call : Call} (h : call.IsOutput) : call.IsUser := by
  cases call with
  | append f => cases f <;> trivial
  | _ => exact h

namespace TcpConnection

open Machine

/-- Only the channel's interest and `outputBuf_` may have changed. -/
structure OutputOnly (c d : TcpConnection) (calls : List Call) : Prop where
  state : d.state = c.state
  callbacks : d.callbacks = c.callbacks
  fd : d.channel.fd = c.channel.fd
  inputBuf : d.inputBuf = c.inputBuf
  calls : ∀ call ∈ calls, call.IsOutput

theorem OutputOnly.refl (c : TcpConnection) : OutputOnly c c [] :=
  ⟨rfl, rfl, rfl, rfl, by simp⟩

theorem OutputOnly.trans {c d e : TcpConnection} {first second : List Call}
    (hcd : OutputOnly c d first) (hde : OutputOnly d e second) :
    OutputOnly c e (first ++ second) := by
  refine ⟨hde.state.trans hcd.state, hde.callbacks.trans hcd.callbacks,
    hde.fd.trans hcd.fd, hde.inputBuf.trans hcd.inputBuf, ?_⟩
  intro call hcall
  rcases List.mem_append.mp hcall with h | h
  · exact hcd.calls call h
  · exact hde.calls call h

theorem eq_of_mem_writeComplete {c : TcpConnection} {call : Call}
    (h : call ∈ c.writeComplete) : call = .append .writeCompleteCallback := by
  rw [writeComplete] at h
  split at h
  · exact List.mem_singleton.mp h
  · cases h

theorem shutdownInLoop_cases {c d : TcpConnection} {result : Status} {calls : List Call}
    (h : c.shutdownInLoop result = .ok (d, calls)) :
    d = c ∧ (c.channel.isWriteing = true ∧ calls = [] ∨
      c.channel.isWriteing = false ∧ calls = [.shutdownWrite]) := by
  unfold shutdownInLoop at h
  split at h
  · rename_i writeing
    cases h
    exact ⟨rfl, Or.inl ⟨writeing, rfl⟩⟩
  · rename_i idle
    split at h
    · cases h
    · cases h
      exact ⟨rfl, Or.inr ⟨by simpa using idle, rfl⟩⟩

theorem shutdownInLoop_outputOnly {c d : TcpConnection} {result : Status}
    {calls : List Call} (h : c.shutdownInLoop result = .ok (d, calls)) :
    OutputOnly c d calls := by
  obtain ⟨rfl, ⟨_, rfl⟩ | ⟨_, rfl⟩⟩ := shutdownInLoop_cases h
  · exact OutputOnly.refl d
  · exact ⟨rfl, rfl, rfl, rfl, by simp [Call.IsOutput]⟩

/-- An unsent tail goes to the buffer, and write interest is asked for once; with
nothing unsent the write is complete. -/
theorem keepUnsent_cases {c d : TcpConnection} {message : List UInt8} {k : Nat}
    {calls : List Call} (h : c.keepUnsent message k = .ok (d, calls)) :
    (∃ len out, c.outputBuf.append (message.drop k) len = .ok out ∧
      (d = { c with outputBuf := out } ∧ calls = [] ∨
        d = { c with outputBuf := out, channel := c.channel.enableWriteing } ∧
          calls = [.update c.channel.enableWriteing])) ∨
    (d = c ∧ calls = c.writeComplete) := by
  rw [keepUnsent] at h
  split at h
  · split at h
    · cases h
    · rename_i out hout
      dsimp only at h
      split at h
      · cases h
        exact Or.inl ⟨_, out, hout, Or.inl ⟨rfl, rfl⟩⟩
      · cases h
        exact Or.inl ⟨_, out, hout, Or.inr ⟨rfl, rfl⟩⟩
  · cases h
    exact Or.inr ⟨rfl, rfl⟩

theorem keepUnsent_outputOnly {c d : TcpConnection} {message : List UInt8} {k : Nat}
    {calls : List Call} (h : c.keepUnsent message k = .ok (d, calls)) :
    OutputOnly c d calls := by
  rcases keepUnsent_cases h with ⟨len, out, _, ⟨rfl, rfl⟩ | ⟨rfl, rfl⟩⟩ | ⟨rfl, rfl⟩
  · exact ⟨rfl, rfl, rfl, rfl, by simp⟩
  · exact ⟨rfl, rfl, rfl, rfl, by simp [Call.IsOutput]⟩
  · refine ⟨rfl, rfl, rfl, rfl, ?_⟩
    intro call hcall
    rw [eq_of_mem_writeComplete hcall]
    rfl

/-- Either the message was offered to `::write` first, or it went to the buffer. -/
theorem sendInLoop_cases {c d : TcpConnection} {message : List UInt8} {w : WriteResult}
    {calls : List Call} (h : c.sendInLoop message w = .ok (d, calls)) :
    (c.channel.isWriteing = false ∧ c.outputBuf.readBuffSize = 0 ∧
      w.returned message ≠ -1 ∧ ∃ more,
        c.keepUnsent message (w.returned message).toNat = .ok (d, more) ∧
        calls = .write message (w.returned message) :: more) ∨
    (¬ (c.channel.isWriteing = false ∧ c.outputBuf.readBuffSize = 0) ∧
      c.keepUnsent message 0 = .ok (d, calls)) := by
  rw [sendInLoop] at h
  split at h
  · rename_i direct
    dsimp only at h
    split at h
    · cases h
    · rename_i taken
      obtain ⟨_, _, more, hm, hd, rfl⟩ := andThen_cases h
      cases hm
      exact Or.inl ⟨direct.1, direct.2, taken, more, hd, rfl⟩
  · rename_i buffered
    exact Or.inr ⟨buffered, h⟩

theorem sendInLoop_outputOnly {c d : TcpConnection} {message : List UInt8}
    {w : WriteResult} {calls : List Call} (h : c.sendInLoop message w = .ok (d, calls)) :
    OutputOnly c d calls := by
  rcases sendInLoop_cases h with ⟨_, _, _, more, hd, rfl⟩ | ⟨_, hd⟩
  · have first : OutputOnly c c [.write message (w.returned message)] :=
      ⟨rfl, rfl, rfl, rfl, by simp [Call.IsOutput]⟩
    exact first.trans (keepUnsent_outputOnly hd)
  · exact keepUnsent_outputOnly hd

/-- `state_` is as before or went from kConnected to kDisconnecting. -/
structure UserOnly (c d : TcpConnection) (calls : List Call) : Prop where
  state : d.state = c.state ∨ c.state = .kConnected ∧ d.state = .kDisconnecting
  callbacks : d.callbacks = c.callbacks
  fd : d.channel.fd = c.channel.fd
  calls : ∀ call ∈ calls, call.IsUser

theorem OutputOnly.userOnly {c d : TcpConnection} {calls : List Call}
    (h : OutputOnly c d calls) : UserOnly c d calls :=
  ⟨Or.inl h.state, h.callbacks, h.fd, fun call hcall => (h.calls call hcall).isUser⟩

theorem state_trans {a b c : StateE} (hab : b = a ∨ a = .kConnected ∧ b = .kDisconnecting)
    (hbc : c = b ∨ b = .kConnected ∧ c = .kDisconnecting) :
    c = a ∨ a = .kConnected ∧ c = .kDisconnecting := by
  rcases hab with h | ⟨h, h'⟩ <;> rcases hbc with k | ⟨k, k'⟩
  · exact Or.inl (k.trans h)
  · exact Or.inr ⟨h.symm.trans k, k'⟩
  · exact Or.inr ⟨h, k.trans h'⟩
  · rw [h'] at k
    cases k

theorem UserOnly.trans {c d e : TcpConnection} {first second : List Call}
    (hcd : UserOnly c d first) (hde : UserOnly d e second) :
    UserOnly c e (first ++ second) := by
  refine ⟨state_trans hcd.state hde.state, hde.callbacks.trans hcd.callbacks,
    hde.fd.trans hcd.fd, ?_⟩
  intro call hcall
  rcases List.mem_append.mp hcall with h | h
  · exact hcd.calls call h
  · exact hde.calls call h

theorem send_userOnly {c d : TcpConnection} {inLoop : Bool} {message : List UInt8}
    {w : WriteResult} {calls : List Call} (h : c.send inLoop message w = .ok (d, calls)) :
    UserOnly c d calls := by
  rw [send] at h
  split at h
  · split at h
    · exact (sendInLoop_outputOnly h).userOnly
    · cases h
      exact ⟨Or.inl rfl, rfl, rfl, by simp [Call.IsUser]⟩
  · cases h
    exact (OutputOnly.refl c).userOnly

theorem shutdown_userOnly {c d : TcpConnection} {inLoop : Bool} {result : Status}
    {calls : List Call} (h : c.shutdown inLoop result = .ok (d, calls)) :
    UserOnly c d calls := by
  rw [shutdown] at h
  split at h
  · rename_i connected
    dsimp only at h
    split at h
    · have out := shutdownInLoop_outputOnly h
      exact ⟨Or.inr ⟨connected, out.state⟩, out.callbacks, out.fd,
        fun call hcall => (out.calls call hcall).isUser⟩
    · cases h
      exact ⟨Or.inr ⟨connected, rfl⟩, rfl, rfl, by simp [Call.IsUser]⟩
  · cases h
    exact (OutputOnly.refl c).userOnly

theorem forceClose_userOnly {c d : TcpConnection} {calls : List Call}
    (h : c.forceClose = .ok (d, calls)) : UserOnly c d calls := by
  rw [forceClose] at h
  split at h
  · rename_i live
    cases h
    refine ⟨?_, rfl, rfl, by simp [Call.IsUser]⟩
    rcases live with live | live
    · exact Or.inr ⟨live, rfl⟩
    · exact Or.inl live.symm
  · cases h
    exact (OutputOnly.refl c).userOnly

theorem userCall_userOnly {c d : TcpConnection} {inLoop : Bool} {u : UserCall}
    {calls : List Call} (h : c.userCall inLoop u = .ok (d, calls)) :
    UserOnly c d calls := by
  cases u with
  | send message w => exact send_userOnly h
  | shutdown result => exact shutdown_userOnly h
  | forceClose => exact forceClose_userOnly h
  | retrieve len =>
    rw [userCall] at h
    split at h
    · cases h
    · cases h
      exact ⟨Or.inl rfl, rfl, rfl, by simp⟩

theorem userCalls_userOnly {us : List UserCall} {c d : TcpConnection} {calls : List Call}
    (h : c.userCalls us = .ok (d, calls)) : UserOnly c d calls := by
  induction us generalizing c d calls with
  | nil =>
    cases h
    exact (OutputOnly.refl c).userOnly
  | cons u rest ih =>
    obtain ⟨m, first, second, hm, hd, rfl⟩ := andThen_cases h
    exact (userCall_userOnly hm).trans (ih hd)

/-- `handleRead` hands over a message, closes, or does nothing but read. -/
theorem handleRead_cases {c d : TcpConnection} {input : EventInput} {calls : List Call}
    (h : c.handleRead input = .ok (d, calls)) :
    ∃ inputBuf, (∃ more, { c with inputBuf := inputBuf }.userCalls input.onMessage =
        .ok (d, more) ∧ calls = .messageCallback :: more) ∨
      { c with inputBuf := inputBuf }.handleClose = .ok (d, calls) ∨
      (d = { c with inputBuf := inputBuf } ∧ calls = []) := by
  rw [handleRead] at h
  split at h
  · cases h
  · rename_i n inputBuf _
    refine ⟨inputBuf, ?_⟩
    dsimp only at h
    split at h
    · obtain ⟨m, first, second, hm, hd, rfl⟩ := andThen_cases h
      cases hm
      exact Or.inl ⟨second, hd, rfl⟩
    · split at h
      · exact Or.inr (Or.inl h)
      · cases h
        exact Or.inr (Or.inr ⟨rfl, rfl⟩)

/-- As the constructor wires it. -/
def Wired (c : TcpConnection) : Prop := c.callbacks = ⟨some .handleRead, none, none, none⟩

/-- With the constructor's wiring an event is a call of `handleRead` or nothing. -/
theorem Wired.handleEvent_eq {c : TcpConnection} (wired : c.Wired) (revents : BitVec 32)
    (input : EventInput) :
    c.handleEvent revents input =
      if revents &&& (POLLIN ||| POLLPRI ||| POLLRDHUP) ≠ 0 then c.handleRead input
      else .ok (c, []) := by
  rw [Wired] at wired
  simp only [handleEvent, Callbacks.handleEvent, wired, Option.toList_none, ite_self,
    Option.toList_some, List.nil_append, List.append_nil, bne_iff_ne]
  split
  · exact andThen_start (f := fun c => c.handle input .handleRead) c
  · rfl

theorem handleEvent_cases {c d : TcpConnection} (wired : c.Wired) {revents : BitVec 32}
    {input : EventInput} {calls : List Call}
    (h : c.handleEvent revents input = .ok (d, calls)) :
    c.handleRead input = .ok (d, calls) ∨ (d = c ∧ calls = []) := by
  rw [wired.handleEvent_eq] at h
  split at h
  · exact Or.inl h
  · right
    cases h
    exact ⟨rfl, rfl⟩

end TcpConnection

end ZDQ
