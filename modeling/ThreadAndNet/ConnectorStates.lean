import ThreadAndNet.ConnectorLife

/-!
# What `state_` says about the last socket

The law holds until an attempt that was called off succeeds before `stopInLoop`
runs, or `restart` is called while an attempt is in progress. Both break it.
-/

namespace ZDQ

open Machine

namespace ConnectorLife

/-- The law of `state_`. -/
structure Lawful (s : ConnectorLife) : Prop where
  /-- a channel is registered for a socket whose outcome is not known -/
  connecting : s.connector.state = .kConnecting ↔
    ∃ ch, s.connector.channel = some ch ∧ s.registration.slot.isSome ∧
      (ch.fd, .held) ∈ s.book.sockets
  connected : s.connector.state = .kConnected →
    ∃ sockfd, s.book.sockets.head? = some (sockfd, .handedOver)
  closed : ∀ sockfd, s.book.sockets.head? = some (sockfd, .closed) →
    s.connector.state = .kDisconnected

/-- The steps that break the law. -/
def Breaks (s : ConnectorLife) : Op → Prop
  | .event revents a => s.connector.state = .kConnecting ∧ s.connector.connect_ = false ∧
    Connector.Succeeds revents a
  | .restart _ => s.connector.state = .kConnecting
  | _ => False

/-- `state_` and the fate of the last socket. -/
structure Fates (s : ConnectorLife) : Prop where
  connected : s.connector.state = .kConnected →
    ∃ sockfd, s.book.sockets.head? = some (sockfd, .handedOver)
  closed : ∀ sockfd, s.book.sockets.head? = some (sockfd, .closed) →
    s.connector.state = .kDisconnected

structure LawInv (s : ConnectorLife) : Prop where
  situation : Situation s
  timersRetry : TimersRetry s
  fates : Fates s

theorem new_lawInv : LawInv new :=
  ⟨new_situation, by simp [TimersRetry, new], ⟨fun h => absurd h (by simp [new, Connector.new]),
    fun _ h => absurd h (by simp [book, new, SocketBook.ofCalls, SocketBook.empty])⟩⟩

theorem Situation.lawful {s : ConnectorLife} (h : Situation s) (fates : Fates s) : Lawful s := by
  refine ⟨?_, fates.connected, fates.closed⟩
  cases h with
  | connecting ch pfd sockets state channel registration own resets book settled =>
    refine iff_of_true state ⟨ch, channel, ?_, ?_⟩
    · rw [registration]
      rfl
    · rw [book]
      exact List.mem_cons_self
  | leaving ch sockets state channel registration resets inactive book settled =>
    refine iff_of_false state ?_
    rintro ⟨ch', _, registered, _⟩
    rw [registration] at registered
    cases registered
  | idle sockets state channel registration resets inactive book settled =>
    refine iff_of_false state ?_
    rintro ⟨ch', _, registered, _⟩
    rw [registration] at registered
    cases registered

/-! ## What the steps do to `state_` and the last socket -/

theorem Fates.same {s t : ConnectorLife} (h : Fates s)
    (state : t.connector.state = s.connector.state) (book : t.book = s.book) : Fates t := by
  refine ⟨fun connected => ?_, fun sockfd head => ?_⟩
  · rw [book]
    exact h.connected (state.symm.trans connected)
  · rw [book] at head
    rw [state]
    exact h.closed sockfd head

/-- A connector that is not connected. -/
theorem Fates.disconnected {t : ConnectorLife} (state : t.connector.state = .kDisconnected) :
    Fates t :=
  ⟨fun connected => absurd (state.symm.trans connected) (by simp), fun _ _ => state⟩

theorem attempts_fates {s t : ConnectorLife} {k l : Connector} {calls : List ConnectorCall}
    (idle : k.state = .kDisconnected) (move : k.Attempts l calls)
    (performed : Performed s l calls t) : Fates t := by
  have state : t.connector.state = l.state := by rw [performed.connector]
  cases move with
  | unwanted off => exact .disconnected (state.trans idle)
  | connects sockfd wanted empty =>
    have book := performed.book
    rw [SocketBook.after_attempt] at book
    refine ⟨fun connected => absurd (state.symm.trans connected) (by simp), fun x head => ?_⟩
    rw [book] at head
    cases head
  | retries sockfd wanted => exact .disconnected state
  | givesUp sockfd wanted => exact .disconnected (state.trans idle)

theorem runs_fates {s t : ConnectorLife} {f : ConnectorFunctor} (h : Fates s)
    (ran : Runs s f t) : Fates t := by
  cases ran with
  | startInLoop idle move performed => exact attempts_fates idle move performed
  | notConnecting idle => exact h
  | stopInLoop connecting channel performed =>
    refine .disconnected ?_
    rw [performed.connector]
    rfl
  | resetChannel => exact h.same rfl rfl

/-- The channel of the attempt in progress is that of the last socket. -/
theorem Does.fates {s t : ConnectorLife} {op : Op} (did : Does s op t) (inv : LawInv s)
    (admitted : ¬ Breaks s op) : Fates t := by
  have h := inv.fates
  cases did with
  | poll phase watched => exact h.same rfl rfl
  | timer phase timer ran => exact (runs_fates h ran).same rfl rfl
  | timersDone phase => exact h.same rfl rfl
  | event phase move performed =>
    have state := congrArg Connector.state performed.connector
    cases move with
    | stays ignored => exact h.same state performed.book
    | drops ch connecting channel failed => exact .disconnected state
    | hands ch connecting channel success wanted =>
      obtain ⟨_, sockets, _, book, _⟩ := inv.situation.last connecting channel
      have after : t.book.sockets = (ch.fd, .handedOver) :: sockets := by
        rw [performed.book, SocketBook.after_append]
        show SocketBook.settle ch.fd .handedOver s.book.sockets = _
        rw [book, SocketBook.settle_head]
      refine ⟨fun _ => ⟨ch.fd, by rw [after]; rfl⟩, fun sockfd head => ?_⟩
      rw [after] at head
      cases head
    | closes ch connecting channel success off =>
      exact absurd ⟨connecting, off, success⟩ admitted
  | doAppendFunctors phase => exact h.same rfl rfl
  | functor phase ran =>
    refine runs_fates ?_ ran
    exact h.same rfl rfl
  | startNow idle move performed =>
    refine attempts_fates ?_ move performed
    exact idle
  | startLater performed =>
    have state := congrArg Connector.state performed.connector
    exact h.same state performed.book
  | stop performed =>
    have state := congrArg Connector.state performed.connector
    exact h.same state performed.book
  | restart move performed => exact attempts_fates rfl move performed

theorem LawInv.step {s t : ConnectorLife} {op : Op} (inv : LawInv s)
    (admitted : ¬ Breaks s op) (h : s.step op = .ok t) : LawInv t := by
  have did := step_cases h
  refine ⟨did.situation inv.situation inv.timersRetry ?_, did.timersRetry inv.timersRetry,
    did.fates inv admitted⟩
  rintro a rfl connecting
  exact admitted connecting

/-! ## The steps that break the law -/

theorem event_unlawful {s t : ConnectorLife} {revents : BitVec 32} {a : Connector.EventAnswers}
    (inv : LawInv s) (breaks : Breaks s (.event revents a))
    (did : Does s (.event revents a) t) : ¬ Lawful t := by
  obtain ⟨connecting, off, success⟩ := breaks
  cases did with
  | event phase move performed =>
    cases move with
    | stays ignored => exact absurd success (ignored connecting)
    | drops ch _ channel failed => exact absurd success failed
    | hands ch _ channel _ wanted =>
      rw [off] at wanted
      cases wanted
    | closes ch _ channel _ _ =>
      intro lawful
      obtain ⟨_, sockets, _, book, _⟩ := inv.situation.last connecting channel
      have after : t.book.sockets = (ch.fd, .closed) :: sockets := by
        rw [performed.book, SocketBook.after_append]
        show SocketBook.settle ch.fd .closed s.book.sockets = _
        rw [book, SocketBook.settle_head]
      have state := lawful.closed ch.fd (by rw [after]; rfl)
      rw [performed.connector] at state
      cases state

theorem restart_unlawful {s t : ConnectorLife} {a : Connector.Attempt} (inv : LawInv s)
    (breaks : Breaks s (.restart a)) (did : Does s (.restart a) t) : ¬ Lawful t := by
  cases inv.situation with
  | leaving _ _ settled => exact absurd breaks settled
  | idle _ settled => exact absurd breaks settled
  | connecting ch pfd sockets state channel registration own resets book settled =>
    -- the socket that was created and closed at once comes before the one still registered
    have stale : ∀ {calls : List ConnectorCall} {k : Connector} (sockfd : Nat),
        Performed s k calls t → k.state = .kDisconnected → k.channel = some ch → Aside calls →
        (∀ b : SocketBook, b.after calls = ⟨(sockfd, .closed) :: b.sockets, b.registered⟩) →
        ¬ Lawful t := by
      intro calls k sockfd performed idle kept aside outcome lawful
      have registered := (performed.record aside).1
      have holds : t.connector.state = .kConnecting := by
        refine lawful.connecting.mpr ⟨ch, ?_, ?_, ?_⟩
        · rw [performed.connector, kept]
        · rw [registered, registration]
          rfl
        · rw [performed.book, outcome, book]
          simp
      rw [performed.connector, idle] at holds
      cases holds
    cases did with
    | restart move performed =>
      cases move with
      | unwanted off => cases off
      | connects sockfd wanted empty =>
        rw [show s.connector.channel = none from empty] at channel
        cases channel
      | retries sockfd wanted =>
        refine stale sockfd performed rfl channel
          ((aside_socket sockfd).append (aside_retryTimer _)) (fun b => ?_)
        rw [SocketBook.after_append, SocketBook.after_retryTimer, SocketBook.after_refused]
      | givesUp sockfd wanted =>
        exact stale sockfd performed rfl channel (aside_socket sockfd)
          (fun b => SocketBook.after_refused b sockfd)

/-- A run that trips nothing is lawful throughout exactly if no step of it breaks the law. -/
theorem lawful_iff {labels : List Op} {t : ConnectorLife} (h : run step new labels = .ok t) :
    Throughout step Lawful new labels ↔ Along step (fun s op => ¬ Breaks s op) new labels := by
  refine throughout_iff_along (fun s op t (inv : LawInv s) => inv.step)
    (fun s inv => inv.situation.lawful inv.fates) ?_ new_lawInv h
  · intro s op t inv breaks hstep
    rw [not_not] at breaks
    have did := step_cases hstep
    cases op with
    | event revents a => exact event_unlawful inv breaks did
    | restart a => exact restart_unlawful inv breaks did
    | _ => exact absurd breaks id

/-- The other end of a socket has this address; the own end is port 1. -/
def names (port : BitVec 16) : SockNames := ⟨.ok ⟨127#32, 1#16⟩, .ok ⟨127#32, port⟩⟩

/-- The socket turns writable between `stop` and `stopInLoop`. -/
def calledOff : List Op :=
  [.start true (.inProgress 5), .stop, .poll false true, .event POLLOUT ⟨none, names 2, none⟩]

theorem not_lawful_calledOff : ∃ t, run step new calledOff = .ok t ∧
    t.connector.state = .kConnected ∧ t.book.sockets = [(5, .closed)] ∧ ¬ Lawful t := by
  obtain ⟨t, hrun, after⟩ := ok_of_any (o := run step new calledOff)
    (p := fun t => t.connector.state = .kConnected ∧ t.book.sockets = [(5, .closed)])
    (by decide +kernel)
  rw [decide_eq_true_eq] at after
  refine ⟨t, hrun, after.1, after.2, fun lawful => ?_⟩
  have state := lawful.closed 5 (by rw [after.2]; rfl)
  rw [after.1] at state
  cases state

/-- Nobody calls the attempt off, and the socket is handed over. -/
theorem lawful_iff_handedOver : ∃ t,
    run step new [.start true (.inProgress 5), .poll false true,
      .event POLLOUT ⟨none, names 2, none⟩] = .ok t ∧
    (Throughout step Lawful new [.start true (.inProgress 5), .poll false true,
      .event POLLOUT ⟨none, names 2, none⟩] ↔
      Along step (fun s op => ¬ Breaks s op) new [.start true (.inProgress 5), .poll false true,
        .event POLLOUT ⟨none, names 2, none⟩]) := by
  obtain ⟨t, hrun, _⟩ := ok_of_any (o := run step new [.start true (.inProgress 5),
    .poll false true, .event POLLOUT ⟨none, names 2, none⟩]) (p := fun _ => true)
    (by decide +kernel)
  exact ⟨t, hrun, lawful_iff hrun⟩

end ConnectorLife

end ZDQ
