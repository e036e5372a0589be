import ThreadAndNet.PeerErrors

/-!
# What the connector's member functions do

Each of them either fails or makes one of a few moves. A move says how the
connector looks afterwards and which calls were made, so that nothing later has
to look into a member function again.
-/

namespace ZDQ

open Machine

namespace Connector

/-- The calls of `removeAndResetChannel`. -/
def removal (ch : Channel) : List ConnectorCall :=
  [.update ch.disableAll, .remove ch.disableAll, .appendFuncInLoop .resetChannel]

/-- The connector after `retry`. -/
def retried (k : Connector) : Connector :=
  { k with
    state := .kDisconnected
    retryDelayMs :=
      if k.connect_ then min (k.retryDelayMs * 2) kMaxRetryDelayMs else k.retryDelayMs }

/-- The timer `retry` sets. -/
def retryTimer (k : Connector) : List ConnectorCall :=
  if k.connect_ then [.runAfter k.retryDelayMs .startInLoop] else []

theorem retry_cases {k l : Connector} {sockfd : Nat} {close : Status}
    {calls : List ConnectorCall} (h : k.retry sockfd close = .ok (l, calls)) :
    l = k.retried ∧ calls = .close sockfd :: k.retryTimer := by
  unfold retry at h
  split at h
  · cases h
  rename_i closed hclosed
  cases closeFd_cases hclosed
  unfold retried retryTimer
  by_cases wanted : k.connect_ = true
  · simp only [setState, wanted, if_true] at h
    cases h
    simp [wanted]
  · simp only [setState, wanted, Bool.false_eq_true, if_false] at h
    cases h
    simp [wanted]

/-- The channel `connecting` creates. -/
def attemptChannel (sockfd : Nat) : Channel := (Channel.new sockfd).enableWriteing

/-- The moves of `startInLoop`. -/
inductive Attempts (k : Connector) : Connector → List ConnectorCall → Prop where
  | unwanted (off : k.connect_ = false) : Attempts k k []
  /-- the attempt is in progress -/
  | connects (sockfd : Nat) (wanted : k.connect_ = true) (empty : k.channel = none) :
      Attempts k { k with state := .kConnecting, channel := some (attemptChannel sockfd) }
        [.socket sockfd, .connect sockfd, .update (attemptChannel sockfd)]
  | retries (sockfd : Nat) (wanted : k.connect_ = true) :
      Attempts k k.retried ([.socket sockfd, .connect sockfd, .close sockfd] ++ k.retryTimer)
  /-- the socket is closed, and that is all -/
  | givesUp (sockfd : Nat) (wanted : k.connect_ = true) :
      Attempts k k [.socket sockfd, .connect sockfd, .close sockfd]

/-- The answers with which an attempt goes on after `connect` returned. -/
def Attempt.InProgress (a : Attempt) : Prop :=
  a.socket ≠ none ∧
    (a.connect = none ∨ a.connect = some .EINPROGRESS ∨ a.connect = some .EINTR ∨
      a.connect = some .EISCONN)

/-- The kernel began to connect this socket. -/
def Attempt.inProgress (sockfd : Nat) : Attempt := ⟨some sockfd, some .EINPROGRESS, none⟩

/-- Nobody listens at the server's address. -/
def Attempt.refused (sockfd : Nat) : Attempt := ⟨some sockfd, some .ECONNREFUSED, none⟩

theorem connecting_cases {k l : Connector} {sockfd : Nat} {calls : List ConnectorCall}
    (h : k.connecting sockfd = .ok (l, calls)) :
    k.channel = none ∧
      l = { k with state := .kConnecting, channel := some (attemptChannel sockfd) } ∧
      calls = [.update (attemptChannel sockfd)] := by
  unfold connecting at h
  dsimp only [setState] at h
  split at h
  · cases h
  · rename_i empty
    cases h
    exact ⟨empty, rfl, rfl⟩

theorem connect_cases {k l : Connector} {a : Attempt} {calls : List ConnectorCall}
    (h : k.connect a = .ok (l, calls)) (wanted : k.connect_ = true) : Attempts k l calls := by
  unfold connect at h
  split at h
  · cases h
  rename_i sockfd _
  obtain ⟨m, first, second, hm, hnext, rfl⟩ := andThen_cases h
  cases hm
  split at hnext
  all_goals first
    | obtain ⟨empty, rfl, rfl⟩ := connecting_cases hnext
      exact .connects sockfd wanted empty
    | obtain ⟨rfl, rfl⟩ := retry_cases hnext
      exact .retries sockfd wanted
    | split at hnext
      · cases hnext
      · rename_i closed hclosed
        cases closeFd_cases hclosed
        cases hnext
        exact .givesUp sockfd wanted

theorem startInLoop_cases {k l : Connector} {a : Attempt} {calls : List ConnectorCall}
    (h : k.startInLoop a = .ok (l, calls)) :
    k.state = .kDisconnected ∧ Attempts k l calls := by
  unfold startInLoop at h
  split at h
  · rename_i idle
    refine ⟨idle, ?_⟩
    split at h
    · rename_i wanted
      exact connect_cases h wanted
    · rename_i off
      cases h
      exact .unwanted (by simpa using off)
  · cases h

/-- The event that ends an attempt well. -/
def Succeeds (revents : BitVec 32) (a : EventAnswers) : Prop :=
  OnlyWritable revents ∧ a.socketError = none ∧ InetAddress.isSelfConnect a.names = .ok false

/-- The connector after the attempt with `ch` failed or was called off. -/
def dropped (k : Connector) (ch : Channel) : Connector :=
  { k.retried with channel := some ch.disableAll }

/-- The moves of `channel_->handleEvent`. -/
inductive Settles (k : Connector) (revents : BitVec 32) (a : EventAnswers) :
    Connector → List ConnectorCall → Prop where
  | stays (ignored : k.state = .kConnecting → ¬ Succeeds revents a) : Settles k revents a k []
  | drops (ch : Channel) (connecting : k.state = .kConnecting) (channel : k.channel = some ch)
      (failed : ¬ Succeeds revents a) :
      Settles k revents a (k.dropped ch) (removal ch ++ .close ch.fd :: k.retryTimer)
  | hands (ch : Channel) (connecting : k.state = .kConnecting) (channel : k.channel = some ch)
      (success : Succeeds revents a) (wanted : k.connect_ = true) :
      Settles k revents a { k with state := .kConnected, channel := some ch.disableAll }
        (removal ch ++ [.newConnectionCallback ch.fd])
  | closes (ch : Channel) (connecting : k.state = .kConnecting) (channel : k.channel = some ch)
      (success : Succeeds revents a) (off : k.connect_ = false) :
      Settles k revents a { k with state := .kConnected, channel := some ch.disableAll }
        (removal ch ++ [.close ch.fd])

theorem removeAndResetChannel_cases {k l : Connector} {sockfd : Nat}
    {calls : List ConnectorCall} (h : k.removeAndResetChannel = .ok (sockfd, l, calls)) :
    ∃ ch, k.channel = some ch ∧ sockfd = ch.fd ∧
      l = { k with channel := some ch.disableAll } ∧ calls = removal ch := by
  unfold removeAndResetChannel at h
  split at h
  · cases h
  · rename_i ch hchannel
    cases h
    exact ⟨ch, hchannel, rfl, rfl, rfl⟩

/-- `retry` on the socket of the channel that was just removed. -/
theorem dropped_cases {k l m : Connector} {sockfd : Nat} {close : Status}
    {removed calls : List ConnectorCall}
    (hremove : k.removeAndResetChannel = .ok (sockfd, m, removed))
    (hretry : m.retry sockfd close = .ok (l, calls)) :
    ∃ ch, k.channel = some ch ∧ l = k.dropped ch ∧
      removed ++ calls = removal ch ++ .close ch.fd :: k.retryTimer := by
  obtain ⟨ch, channel, rfl, rfl, rfl⟩ := removeAndResetChannel_cases hremove
  obtain ⟨rfl, rfl⟩ := retry_cases hretry
  exact ⟨ch, channel, rfl, rfl⟩

theorem handleError_cases {k l : Connector} {a : EventAnswers} {calls : List ConnectorCall}
    (h : k.handleError a = .ok (l, calls)) :
    k.state ≠ .kConnecting ∧ l = k ∧ calls = [] ∨
      k.state = .kConnecting ∧ ∃ ch, k.channel = some ch ∧ l = k.dropped ch ∧
        calls = removal ch ++ .close ch.fd :: k.retryTimer := by
  unfold handleError at h
  split at h
  · rename_i connecting
    split at h
    · cases h
    rename_i sockfd removed hremove
    obtain ⟨m, first, second, hm, hretry, rfl⟩ := andThen_cases h
    cases hm
    exact .inr ⟨connecting, dropped_cases hremove hretry⟩
  · rename_i settled
    cases h
    exact .inl ⟨settled, rfl, rfl⟩

theorem handleWrite_idle {k l : Connector} {a : EventAnswers} {calls : List ConnectorCall}
    (h : k.handleWrite a = .ok (l, calls)) (settled : k.state ≠ .kConnecting) :
    l = k ∧ calls = [] := by
  simp only [handleWrite, settled, if_false] at h
  split at h
  · cases h
    exact ⟨rfl, rfl⟩
  · cases h

theorem handleWrite_settles {k l : Connector} {revents : BitVec 32} {a : EventAnswers}
    {calls : List ConnectorCall} (only : OnlyWritable revents)
    (h : k.handleWrite a = .ok (l, calls)) : Settles k revents a l calls := by
  by_cases connecting : k.state = .kConnecting
  swap
  · obtain ⟨rfl, rfl⟩ := handleWrite_idle h connecting
    exact .stays (fun c => absurd c connecting)
  simp only [handleWrite, connecting, if_true] at h
  split at h
  · cases h
  rename_i sockfd removed hremove
  obtain ⟨m, first, second, hm, hnext, rfl⟩ := andThen_cases h
  cases hm
  have drops : ∀ {l calls}, m.retry sockfd a.close = .ok (l, calls) →
      ¬ Succeeds revents a → Settles k revents a l (first ++ calls) := by
    intro l calls hretry failed
    obtain ⟨ch, channel, rfl, made⟩ := dropped_cases hremove hretry
    rw [made]
    exact .drops ch connecting channel failed
  split at hnext
  · rename_i refused
    refine drops hnext (fun success => ?_)
    rw [success.2.1] at refused
    cases refused
  rename_i accepted
  have noError : a.socketError = none := by simpa using accepted
  split at hnext
  · cases hnext
  · rename_i self
    refine drops hnext (fun success => ?_)
    have other := success.2.2
    rw [self] at other
    cases other
  rename_i other
  obtain ⟨ch, channel, rfl, rfl, rfl⟩ := removeAndResetChannel_cases hremove
  have success : Succeeds revents a := ⟨only, noError, other⟩
  by_cases wanted : k.connect_ = true
  · simp only [setState, wanted, if_true] at hnext
    cases hnext
    simpa only [wanted] using Settles.hands ch connecting channel success wanted
  · simp only [setState, wanted, Bool.false_eq_true, if_false] at hnext
    split at hnext
    · cases hnext
    rename_i closed hclosed
    cases closeFd_cases hclosed
    cases hnext
    have off : k.connect_ = false := by simpa using wanted
    simpa only [off] using Settles.closes ch connecting channel success off

theorem handleEvent_cases {k l : Connector} {revents : BitVec 32} {a : EventAnswers}
    {calls : List ConnectorCall} (h : k.handleEvent revents a = .ok (l, calls)) :
    Settles k revents a l calls := by
  rw [handleEvent_eq] at h
  by_cases error : revents &&& (POLLERR ||| POLLNVAL) = 0
  · rw [if_pos error, andThen_start] at h
    by_cases write : revents &&& POLLOUT = 0
    · rw [if_pos write] at h
      cases h
      exact .stays (fun _ success => success.1.2 write)
    · rw [if_neg write] at h
      exact handleWrite_settles ⟨error, write⟩ h
  · have failed : ¬ Succeeds revents a := fun success => error success.1.1
    rw [if_neg error] at h
    obtain ⟨m, first, second, hm, hnext, rfl⟩ := andThen_cases h
    have settled : m.state ≠ .kConnecting → l = m ∧ second = [] := by
      intro idle
      split at hnext
      · cases hnext
        exact ⟨rfl, rfl⟩
      · exact handleWrite_idle hnext idle
    rcases handleError_cases hm with ⟨idle, rfl, rfl⟩ | ⟨connecting, ch, channel, rfl, rfl⟩
    · obtain ⟨rfl, rfl⟩ := settled idle
      exact .stays (fun c => absurd c idle)
    · obtain ⟨rfl, rfl⟩ := settled (by simp [dropped, retried])
      rw [List.append_nil]
      exact .drops ch connecting channel failed

theorem stopInLoop_cases {k l : Connector} {close : Status} {calls : List ConnectorCall}
    (h : k.stopInLoop close = .ok (l, calls)) :
    k.state ≠ .kConnecting ∧ l = k ∧ calls = [] ∨
      k.state = .kConnecting ∧ ∃ ch, k.channel = some ch ∧ l = k.dropped ch ∧
        calls = removal ch ++ .close ch.fd :: k.retryTimer := by
  unfold stopInLoop at h
  split at h
  · rename_i connecting
    split at h
    · cases h
    rename_i sockfd removed hremove
    obtain ⟨m, first, second, hm, hretry, rfl⟩ := andThen_cases h
    cases hm
    obtain ⟨ch, channel, rfl, made⟩ := dropped_cases hremove hretry
    exact .inr ⟨connecting, ch, channel, rfl, made⟩
  · rename_i settled
    cases h
    exact .inl ⟨settled, rfl, rfl⟩

/-! ## Assertions -/

/-- A failure passed on by a caller is no assertion if it was none before. -/
theorem error_not_assertion {S T : Type} {o : Except Failure S} {e : Failure} (h : o = .error e)
    (safe : o ≠ .error .assertion) : (.error e : Except Failure T) ≠ .error .assertion := by
  rintro ⟨⟩
  exact safe h

theorem andThen_ok_not_assertion {S T C : Type} {s : S} {first : List C}
    {f : S → Except Failure (T × List C)} (safe : f s ≠ .error .assertion) :
    andThen (.ok (s, first)) f ≠ .error .assertion := by
  intro h
  rcases andThen_eq_error.mp h with h | ⟨m, calls, hm, h⟩
  · cases h
  · cases hm
    exact safe h

theorem closeFd_not_assertion (sockfd : Nat) (close : Status) :
    closeFd sockfd close ≠ .error .assertion := by
  unfold closeFd
  split <;> simp

theorem retry_not_assertion (k : Connector) (sockfd : Nat) (close : Status) :
    k.retry sockfd close ≠ .error .assertion := by
  unfold retry
  split
  · rename_i h
    exact error_not_assertion h (closeFd_not_assertion sockfd close)
  · dsimp only
    split <;> simp

theorem connecting_assertion_iff (k : Connector) (sockfd : Nat) :
    k.connecting sockfd = .error .assertion ↔ k.channel ≠ none := by
  unfold connecting
  cases hchannel : k.channel <;> simp [setState, hchannel]

theorem connect_assertion_iff (k : Connector) (a : Attempt) :
    k.connect a = .error .assertion ↔ a.InProgress ∧ k.channel ≠ none := by
  unfold connect Attempt.InProgress
  cases hsocket : a.socket with
  | none => simp
  | some sockfd =>
    simp only [ne_eq, reduceCtorEq, not_false_eq_true, true_and]
    constructor
    · intro h
      rcases andThen_eq_error.mp h with h | ⟨m, first, hm, h⟩
      · cases h
      cases hm
      split at h
      all_goals first
        | rename_i answer
          exact ⟨by simp [answer], (connecting_assertion_iff k sockfd).mp h⟩
        | exact absurd h (retry_not_assertion _ _ _)
        | split at h
          · rename_i hclose
            exact absurd h (error_not_assertion hclose (closeFd_not_assertion _ _))
          · cases h
    · rintro ⟨answer, busy⟩
      refine andThen_eq_error.mpr (.inr ⟨k, _, rfl, ?_⟩)
      rcases answer with h | h | h | h <;>
        simpa only [h] using (connecting_assertion_iff k sockfd).mpr busy

/-- The two assertions `startInLoop` can run into. -/
theorem startInLoop_assertion_iff (k : Connector) (a : Attempt) :
    k.startInLoop a = .error .assertion ↔
      k.state ≠ .kDisconnected ∨ k.connect_ = true ∧ a.InProgress ∧ k.channel ≠ none := by
  unfold startInLoop
  by_cases idle : k.state = .kDisconnected
  · by_cases wanted : k.connect_ = true
    · simp [idle, wanted, connect_assertion_iff]
    · simp [idle, wanted]
  · simp [idle]

theorem removeAndResetChannel_not_assertion (k : Connector) :
    k.removeAndResetChannel ≠ .error .assertion := by
  unfold removeAndResetChannel
  split <;> simp

theorem stopInLoop_not_assertion (k : Connector) (close : Status) :
    k.stopInLoop close ≠ .error .assertion := by
  unfold stopInLoop
  split
  · split
    · rename_i h
      exact error_not_assertion h (removeAndResetChannel_not_assertion _)
    · exact andThen_ok_not_assertion (retry_not_assertion _ _ _)
  · simp

theorem handleError_not_assertion (k : Connector) (a : EventAnswers) :
    k.handleError a ≠ .error .assertion := by
  unfold handleError
  split
  · split
    · rename_i h
      exact error_not_assertion h (removeAndResetChannel_not_assertion _)
    · exact andThen_ok_not_assertion (retry_not_assertion _ _ _)
  · simp

theorem handleWrite_assertion_iff (k : Connector) (a : EventAnswers) :
    k.handleWrite a = .error .assertion ↔ k.state = .kConnected := by
  unfold handleWrite
  cases state : k.state with
  | kDisconnected => simp
  | kConnected => simp
  | kConnecting =>
    simp only [if_true, reduceCtorEq, iff_false]
    split
    · rename_i h
      exact error_not_assertion h (removeAndResetChannel_not_assertion _)
    refine andThen_ok_not_assertion ?_
    split
    · exact retry_not_assertion _ _ _
    split
    · rename_i h
      refine error_not_assertion h ?_
      unfold InetAddress.isSelfConnect InetAddress.getLocalInetAddress
        InetAddress.getPeerInetAddress
      split
      · rename_i h
        split at h <;> cases h
        simp
      · split
        · rename_i h
          split at h <;> cases h
          simp
        · simp
    · exact retry_not_assertion _ _ _
    · split
      · simp
      · split
        · rename_i h
          exact error_not_assertion h (closeFd_not_assertion _ _)
        · simp

/-- The assertion of `handleWrite` is the only one an event can run into. -/
theorem handleEvent_not_assertion {k : Connector} (open_ : k.state ≠ .kConnected)
    (revents : BitVec 32) (a : EventAnswers) :
    k.handleEvent revents a ≠ .error .assertion := by
  rw [handleEvent_eq]
  intro failed
  rcases andThen_eq_error.mp failed with h | ⟨m, first, hm, h⟩
  · split at h
    · cases h
    · exact handleError_not_assertion k a h
  · split at h
    · cases h
    have connected := (handleWrite_assertion_iff m a).mp h
    split at hm
    · cases hm
      exact open_ connected
    · rcases handleError_cases hm with ⟨_, same, _⟩ | ⟨_, ch, _, dropped, _⟩
      · rw [same] at connected
        exact open_ connected
      · rw [dropped] at connected
        cases connected

end Connector

end ZDQ
