import ThreadAndNet.ConnectionFrame

/-!
# Write events of a connection as its constructor wires it

Pending output asks the poller for POLLOUT, but the channel has no write
callback: no event can reach `handleWrite`, so nothing leaves `outputBuf_`.
-/

namespace ZDQ

theorem Buffer.append_prefix {b r : Buffer} {buf : List UInt8} {len : Int}
    (h : b.append buf len = .ok r) : b.readable <+: r.readable := by
  rw [append] at h
  split at h
  · cases h
    rw [readable_put _ _ (take_reserve _ _)]
    exact List.prefix_append _ _
  · cases h

namespace TcpConnection

open Machine

/-- A step of a connection in its surroundings: one of its functors on the loop,
a call of user code on some thread, or an event of its channel. -/
inductive ConnOp where
  | functor (f : ConnFunctor) (w : WriteResult) (shutdown : Status)
  | user (isInLoopThread : Bool) (u : UserCall)
  | event (revents : BitVec 32) (input : EventInput)

def ConnOp.apply (c : TcpConnection) : ConnOp → Outcome
  | .functor f w shutdown => c.runFunctor w shutdown f
  | .user isInLoopThread u => c.userCall isInLoopThread u
  | .event revents input => c.handleEvent revents input

def connStep (s : TcpConnection × List Call) (op : ConnOp) :
    Except Failure (TcpConnection × List Call) :=
  andThen (.ok s) op.apply

/-- What a write event has to do for pending output to be sent. -/
def DrainsOn (c : TcpConnection) (revents : BitVec 32) (input : EventInput) : Prop :=
  ∃ d calls n, c.handleEvent revents input = .ok (d, calls) ∧
    .write c.outputBuf.readable n ∈ calls ∧
    (0 < n → d.outputBuf.readable = c.outputBuf.readable.drop n.toNat)

/-- No `::write` was made and the pending bytes are still in front. -/
def StaysPending (c d : TcpConnection) (calls : List Call) : Prop :=
  (∀ offered n, .write offered n ∉ calls) ∧
    c.outputBuf.readable <+: d.outputBuf.readable

theorem StaysPending.refl (c : TcpConnection) : StaysPending c c [] :=
  ⟨by simp, List.prefix_refl _⟩

theorem StaysPending.trans {c d e : TcpConnection} {first second : List Call}
    (hcd : StaysPending c d first) (hde : StaysPending d e second) :
    StaysPending c e (first ++ second) := by
  refine ⟨?_, hcd.2.trans hde.2⟩
  intro offered n h
  rcases List.mem_append.mp h with h | h
  · exact hcd.1 offered n h
  · exact hde.1 offered n h

theorem StaysPending.ne_nil {c d : TcpConnection} {calls : List Call}
    (h : StaysPending c d calls) (pending : c.outputBuf.readable ≠ []) :
    d.outputBuf.readable ≠ [] := by
  intro empty
  exact pending (List.prefix_nil.mp (empty ▸ h.2))

theorem keepUnsent_staysPending {c d : TcpConnection} {message : List UInt8} {k : Nat}
    {calls : List Call} (h : c.keepUnsent message k = .ok (d, calls)) :
    StaysPending c d calls := by
  rcases keepUnsent_cases h with ⟨len, out, hout, ⟨rfl, rfl⟩ | ⟨rfl, rfl⟩⟩ | ⟨rfl, rfl⟩
  · exact ⟨by simp, Buffer.append_prefix hout⟩
  · exact ⟨by simp, Buffer.append_prefix hout⟩
  · refine ⟨?_, List.prefix_refl _⟩
    intro offered n hwrite
    cases eq_of_mem_writeComplete hwrite

theorem userCall_staysPending {c d : TcpConnection} {inLoop : Bool} {u : UserCall}
    {calls : List Call} (pending : c.outputBuf.readable ≠ [])
    (h : c.userCall inLoop u = .ok (d, calls)) : StaysPending c d calls := by
  cases u with
  | send message w =>
    simp only [userCall, send] at h
    split at h
    · split at h
      · rcases sendInLoop_cases h with ⟨_, empty, _⟩ | ⟨_, hd⟩
        · exact absurd ((Buffer.readBuffSize_eq_zero_iff _).mp empty) pending
        · exact keepUnsent_staysPending hd
      · cases h
        exact ⟨by simp, List.prefix_refl _⟩
    · cases h
      exact StaysPending.refl c
  | shutdown result =>
    simp only [userCall, shutdown] at h
    split at h
    · split at h
      · obtain ⟨rfl, ⟨_, rfl⟩ | ⟨_, rfl⟩⟩ := shutdownInLoop_cases h
        · exact ⟨by simp, List.prefix_refl _⟩
        · exact ⟨by simp, List.prefix_refl _⟩
      · cases h
        exact ⟨by simp, List.prefix_refl _⟩
    · cases h
      exact StaysPending.refl c
  | forceClose =>
    simp only [userCall, forceClose] at h
    split at h
    · cases h
      exact ⟨by simp, List.prefix_refl _⟩
    · cases h
      exact StaysPending.refl c
  | retrieve len =>
    rw [userCall] at h
    split at h
    · cases h
    · cases h
      exact ⟨by simp, List.prefix_refl _⟩

theorem userCalls_staysPending {us : List UserCall} {c d : TcpConnection}
    {calls : List Call} (pending : c.outputBuf.readable ≠ [])
    (h : c.userCalls us = .ok (d, calls)) : StaysPending c d calls := by
  induction us generalizing c d calls with
  | nil =>
    cases h
    exact StaysPending.refl c
  | cons u rest ih =>
    obtain ⟨m, first, second, hm, hd, rfl⟩ := andThen_cases h
    have one := userCall_staysPending pending hm
    exact one.trans (ih (one.ne_nil pending) hd)

theorem handleEvent_staysPending {c d : TcpConnection} (wired : c.Wired)
    (pending : c.outputBuf.readable ≠ []) {revents : BitVec 32} {input : EventInput}
    {calls : List Call} (h : c.handleEvent revents input = .ok (d, calls)) :
    StaysPending c d calls := by
  rcases handleEvent_cases wired h with h | ⟨rfl, rfl⟩
  · obtain ⟨inputBuf, ⟨more, hd, rfl⟩ | hclose | ⟨rfl, rfl⟩⟩ := handleRead_cases h
    · have users := userCalls_staysPending (c := { c with inputBuf := inputBuf }) pending hd
      exact ⟨by simpa using users.1, users.2⟩
    · cases hclose
      exact ⟨by simp, List.prefix_refl _⟩
    · exact ⟨by simp, List.prefix_refl _⟩
  · exact StaysPending.refl d

/-- No functor changes what the channel calls or watches. -/
theorem runFunctor_callbacks {c d : TcpConnection} {w : WriteResult} {shutdown : Status}
    {f : ConnFunctor} {calls : List Call}
    (h : c.runFunctor w shutdown f = .ok (d, calls)) :
    d.callbacks = c.callbacks ∧ d.channel.fd = c.channel.fd := by
  cases f with
  | connectEstablished =>
    simp only [runFunctor, connectEstablished] at h
    split at h
    · cases h
      exact ⟨rfl, rfl⟩
    · cases h
  | connectDestroyed =>
    simp only [runFunctor, connectDestroyed] at h
    split at h
    · cases h
      exact ⟨rfl, rfl⟩
    · cases h
      exact ⟨rfl, rfl⟩
  | sendInLoop message =>
    have out := sendInLoop_outputOnly h
    exact ⟨out.callbacks, out.fd⟩
  | shutdownInLoop =>
    have out := shutdownInLoop_outputOnly h
    exact ⟨out.callbacks, out.fd⟩
  | forceCloseInLoop =>
    simp only [runFunctor, forceCloseInLoop] at h
    split at h
    · cases h
      exact ⟨rfl, rfl⟩
    · cases h
      exact ⟨rfl, rfl⟩
  | writeCompleteCallback =>
    cases h
    exact ⟨rfl, rfl⟩

theorem ConnOp.apply_callbacks {c d : TcpConnection} (wired : c.Wired) {op : ConnOp}
    {calls : List Call} (h : op.apply c = .ok (d, calls)) :
    d.callbacks = c.callbacks ∧ d.channel.fd = c.channel.fd := by
  cases op with
  | functor f w shutdown => exact runFunctor_callbacks h
  | user inLoop u =>
    have user := userCall_userOnly h
    exact ⟨user.callbacks, user.fd⟩
  | event revents input =>
    rcases handleEvent_cases wired h with h | ⟨rfl, _⟩
    · obtain ⟨inputBuf, ⟨more, hd, _⟩ | hclose | ⟨rfl, _⟩⟩ := handleRead_cases h
      · have users := userCalls_userOnly hd
        exact ⟨users.callbacks, users.fd⟩
      · cases hclose
        exact ⟨rfl, rfl⟩
      · exact ⟨rfl, rfl⟩
    · exact ⟨rfl, rfl⟩

theorem ConnOp.apply_wired {c d : TcpConnection} (wired : c.Wired) {op : ConnOp}
    {calls : List Call} (h : op.apply c = .ok (d, calls)) : d.Wired := by
  rw [Wired, (op.apply_callbacks wired h).1]
  exact wired

/-- Only an open connection is closed. -/
theorem runFunctor_closes {c d : TcpConnection} {w : WriteResult} {shutdown : Status}
    {f : ConnFunctor} {calls : List Call}
    (h : c.runFunctor w shutdown f = .ok (d, calls)) (closes : .closeCallback ∈ calls) :
    c.state ≠ .kDisconnected ∧ d.state = .kDisconnected := by
  cases f with
  | connectEstablished =>
    simp only [runFunctor, connectEstablished] at h
    split at h
    · cases h
      simp at closes
    · cases h
  | connectDestroyed =>
    simp only [runFunctor, connectDestroyed] at h
    split at h <;>
    · cases h
      simp at closes
  | sendInLoop message => exact ((sendInLoop_outputOnly h).calls _ closes).elim
  | shutdownInLoop => exact ((shutdownInLoop_outputOnly h).calls _ closes).elim
  | forceCloseInLoop =>
    simp only [runFunctor, forceCloseInLoop] at h
    split at h
    · rename_i live
      cases h
      refine ⟨?_, rfl⟩
      intro down
      rw [down] at live
      simp at live
    · cases h
      cases closes
  | writeCompleteCallback =>
    cases h
    cases closes

/-- Whoever calls `closeCallback_` has closed the connection before. -/
theorem ConnOp.apply_closes {c d : TcpConnection} (wired : c.Wired) {op : ConnOp}
    {calls : List Call} (h : op.apply c = .ok (d, calls)) (closes : .closeCallback ∈ calls) :
    d.state = .kDisconnected := by
  cases op with
  | functor f w shutdown => exact (runFunctor_closes h closes).2
  | user inLoop u => exact ((userCall_userOnly h).calls _ closes).elim
  | event revents input =>
    rcases handleEvent_cases wired h with h | ⟨_, rfl⟩
    · obtain ⟨inputBuf, ⟨more, hd, rfl⟩ | hclose | ⟨_, rfl⟩⟩ := handleRead_cases h
      · rcases List.mem_cons.mp closes with other | mem
        · cases other
        · exact ((userCalls_userOnly hd).calls _ mem).elim
      · cases hclose
        rfl
      · cases closes
    · cases closes

theorem connStep_wired (s : TcpConnection × List Call) (op : ConnOp)
    (t : TcpConnection × List Call) (wired : s.1.Wired) (h : connStep s op = .ok t) :
    t.1.Wired := by
  obtain ⟨c, first, second, hc, hd, _⟩ := andThen_cases h
  cases hc
  exact op.apply_wired wired hd

theorem reached_wired {sockfd : Nat} {wc : Bool} {s : TcpConnection × List Call}
    (reached : Reaches connStep (new sockfd wc, []) s) : s.1.Wired :=
  Reaches.keeps connStep_wired reached rfl

/-- In no reachable state with pending output does an event that contains POLLOUT
offer any of it to `::write`: what was pending stays pending. -/
theorem pending_output_never_drained {sockfd : Nat} {wc : Bool} {c : TcpConnection}
    {before : List Call} (reached : Reaches connStep (new sockfd wc, []) (c, before))
    (pending : c.outputBuf.readable ≠ []) (revents : BitVec 32)
    (_writable : revents &&& POLLOUT ≠ 0) (input : EventInput) :
    ¬ c.DrainsOn revents input ∧ ∀ d calls,
      c.handleEvent revents input = .ok (d, calls) →
        (∀ offered n, .write offered n ∉ calls) ∧
        c.outputBuf.readable <+: d.outputBuf.readable := by
  have wired : c.Wired := reached_wired reached
  constructor
  · rintro ⟨d, calls, n, h, hwrite, _⟩
    exact (handleEvent_staysPending wired pending h).1 _ n hwrite
  · intro d calls h
    exact handleEvent_staysPending wired pending h

/-- Established, then `[1, 2]` sent of which the kernel takes one byte. -/
def halfSent : List ConnOp :=
  [.functor .connectEstablished (.accepted 0) none,
    .user true (.send [1, 2] (.accepted 1))]

/-- The socket is writable and would take a byte. -/
def writableInput : EventInput := ⟨.failed, [], .accepted 1, none⟩

theorem halfSent_pending :
    ∃ c before, run connStep (new 7 false, []) halfSent = .ok (c, before) ∧
      c.outputBuf.readable = [2] ∧ c.handleEvent POLLOUT writableInput = .ok (c, []) := by
  refine ⟨_, _, rfl, ?_, rfl⟩
  decide

theorem pending_output_not_drained_after_halfSent :
    ∃ c before, Reaches connStep (new 7 false, []) (c, before) ∧
      c.outputBuf.readable = [2] ∧ ¬ c.DrainsOn POLLOUT writableInput := by
  obtain ⟨c, before, hrun, hread, hevent⟩ := halfSent_pending
  refine ⟨c, before, ⟨halfSent, hrun⟩, hread, ?_⟩
  rintro ⟨d, calls, n, h, hwrite, _⟩
  rw [hevent] at h
  cases h
  cases hwrite

theorem pending_output_never_drained_halfSent :
    ∃ c before, Reaches connStep (new 7 false, []) (c, before) ∧
      ¬ c.DrainsOn POLLOUT writableInput ∧ ∀ d calls,
        c.handleEvent POLLOUT writableInput = .ok (d, calls) →
          (∀ offered n, .write offered n ∉ calls) ∧
          c.outputBuf.readable <+: d.outputBuf.readable := by
  obtain ⟨c, before, hrun, hread, _⟩ := halfSent_pending
  have pending : c.outputBuf.readable ≠ [] := by
    rw [hread]
    decide
  refine ⟨c, before, ⟨halfSent, hrun⟩, ?_⟩
  exact pending_output_never_drained ⟨halfSent, hrun⟩ pending POLLOUT (by decide)
    writableInput

end TcpConnection

end ZDQ
