import ThreadAndNet.ConnectorLife

/-!
# How a connector closes its sockets

A socket is closed by the step that created it, before its channel exists, or when
its channel was removed from the poller just before. Either way it was held until
then.
-/

namespace ZDQ

open Machine

namespace ConnectorLife

/-- Nothing but timers is set by these calls. -/
def OnlyTimers (calls : List ConnectorCall) : Prop :=
  ∀ call ∈ calls, ∃ delayMs f, call = .runAfter delayMs f

theorem onlyTimers_nil : OnlyTimers [] := by simp [OnlyTimers]

theorem onlyTimers_retryTimer (k : Connector) : OnlyTimers k.retryTimer := by
  unfold Connector.retryTimer
  split
  · simp [OnlyTimers]
  · exact onlyTimers_nil

theorem OnlyTimers.no_close {calls : List ConnectorCall} (h : OnlyTimers calls)
    (sockfd : Nat) : .close sockfd ∉ calls := by
  intro mem
  obtain ⟨_, _, same⟩ := h _ mem
  cases same

/-- The calls of one step, as far as sockets are concerned. -/
inductive Made (s : ConnectorLife) : List ConnectorCall → Prop where
  | nothingClosed {calls : List ConnectorCall} (none : ∀ sockfd, .close sockfd ∉ calls) :
      Made s calls
  /-- the attempt failed at once -/
  | refused (sockfd : Nat) {rest : List ConnectorCall}
      (unsettled : s.connector.state ≠ .kConnecting) (timers : OnlyTimers rest) :
      Made s ([.socket sockfd, .connect sockfd] ++ .close sockfd :: rest)
  /-- the attempt in progress failed or was called off -/
  | dropped (ch : Channel) {rest : List ConnectorCall}
      (connecting : s.connector.state = .kConnecting) (channel : s.connector.channel = some ch)
      (timers : OnlyTimers rest) : Made s (Connector.removal ch ++ .close ch.fd :: rest)

theorem attempts_made {s : ConnectorLife} (unsettled : s.connector.state ≠ .kConnecting)
    {k l : Connector} {calls : List ConnectorCall} (move : k.Attempts l calls) :
    Made s calls := by
  cases move with
  | unwanted off => exact .nothingClosed (by simp)
  | connects sockfd wanted empty => exact .nothingClosed (by simp)
  | retries sockfd wanted => exact .refused sockfd unsettled (onlyTimers_retryTimer k)
  | givesUp sockfd wanted => exact .refused sockfd unsettled onlyTimers_nil

theorem runs_made {s t : ConnectorLife} {f : ConnectorFunctor} (ran : Runs s f t) :
    ∃ made, t.calls = s.calls ++ made ∧ Made s made := by
  cases ran with
  | startInLoop idle move performed =>
    exact ⟨_, performed.journal, attempts_made (by simp [idle]) move⟩
  | notConnecting idle => exact ⟨[], (List.append_nil _).symm, .nothingClosed (by simp)⟩
  | stopInLoop connecting channel performed =>
    exact ⟨_, performed.journal, .dropped _ connecting channel (onlyTimers_retryTimer _)⟩
  | resetChannel => exact ⟨[], (List.append_nil _).symm, .nothingClosed (by simp)⟩

theorem Does.made {s t : ConnectorLife} {op : Op} (did : Does s op t)
    (restarts : RestartsIdle s op) : ∃ made, t.calls = s.calls ++ made ∧ Made s made := by
  have unchanged : ∀ {u : ConnectorLife}, u.calls = s.calls →
      ∃ made, u.calls = s.calls ++ made ∧ Made s made :=
    fun same => ⟨[], by rw [same, List.append_nil], .nothingClosed (by simp)⟩
  cases did with
  | poll phase watched => exact unchanged rfl
  | timer phase timer ran =>
    obtain ⟨made, journal, sound⟩ := runs_made ran
    exact ⟨made, journal, sound⟩
  | timersDone phase => exact unchanged rfl
  | event phase move performed =>
    refine ⟨_, performed.journal, ?_⟩
    cases move with
    | stays ignored => exact .nothingClosed (by simp)
    | drops ch connecting channel failed =>
      exact .dropped ch connecting channel (onlyTimers_retryTimer _)
    | hands ch connecting channel success wanted =>
      exact .nothingClosed (by simp [Connector.removal])
    | closes ch connecting channel success off =>
      exact .dropped ch connecting channel onlyTimers_nil
  | doAppendFunctors phase => exact unchanged rfl
  | functor phase ran =>
    obtain ⟨made, journal, sound⟩ := runs_made ran
    refine ⟨made, journal, ?_⟩
    cases sound with
    | nothingClosed none => exact .nothingClosed none
    | refused sockfd unsettled timers => exact .refused sockfd unsettled timers
    | dropped ch connecting channel timers => exact .dropped ch connecting channel timers
  | startNow idle move performed =>
    exact ⟨_, performed.journal, attempts_made (by simp [idle]) move⟩
  | startLater performed => exact ⟨_, performed.journal, .nothingClosed (by simp)⟩
  | stop performed => exact ⟨_, performed.journal, .nothingClosed (by simp)⟩
  | restart move performed =>
    exact ⟨_, performed.journal, attempts_made (restarts _ rfl) move⟩

/-- When the calls before have been made, this socket is the connector's, and the
poller has no slot and no entry for its channel. -/
structure MayClose (s : ConnectorLife) (before : List ConnectorCall) (sockfd : Nat) : Prop where
  held : (sockfd, .held) ∈ (s.book.after before).sockets
  unregistered : ∃ r, run recorded s.registration before = .ok r ∧ r.slot = none

theorem Situation.unregistered {s : ConnectorLife} (h : Situation s)
    (unsettled : s.connector.state ≠ .kConnecting) : s.registration.slot = none := by
  cases h with
  | connecting _ _ _ connecting => exact absurd connecting unsettled
  | leaving _ _ _ _ registration => rw [registration]
  | idle _ _ _ registration =>
    rw [registration]
    rfl

/-- Every `::close` finds its socket held and unregistered, and no step that closes a
socket hands one over. -/
theorem Made.mayClose {s : ConnectorLife} (situation : Situation s)
    {made before after : List ConnectorCall} {sockfd : Nat} (h : Made s made)
    (closes : made = before ++ .close sockfd :: after) :
    MayClose s before sockfd ∧ (∀ other, .newConnectionCallback other ∉ made) ∧
      ((sockfd, .held) ∈ s.book.sockets ∨ .socket sockfd ∈ made) := by
  cases h with
  | nothingClosed none =>
    refine absurd ?_ (none sockfd)
    rw [closes]
    simp
  | refused other unsettled timers =>
    rename_i rest
    have silent : ∀ fd, .newConnectionCallback fd ∉
        [.socket other, .connect other] ++ .close other :: rest := by
      intro fd mem
      simp only [List.cons_append, List.nil_append, List.mem_cons, reduceCtorEq, false_or] at mem
      obtain ⟨_, _, same⟩ := timers _ mem
      cases same
    obtain ⟨rfl, same, _⟩ := (List.append_cons_inj_of_notMem
      (by simp) (timers.no_close sockfd)).mp closes
    cases same
    refine ⟨⟨List.mem_cons_self, _, rfl, situation.unregistered unsettled⟩, silent, .inr ?_⟩
    simp
  | dropped ch connecting channel timers =>
    rename_i rest
    have silent : ∀ fd, .newConnectionCallback fd ∉
        Connector.removal ch ++ .close ch.fd :: rest := by
      intro fd mem
      simp only [Connector.removal, List.cons_append, List.nil_append, List.mem_cons,
        reduceCtorEq, false_or] at mem
      obtain ⟨_, _, same⟩ := timers _ mem
      cases same
    obtain ⟨rfl, same, _⟩ := (List.append_cons_inj_of_notMem
      (by simp [Connector.removal]) (timers.no_close sockfd)).mp closes
    cases same
    obtain ⟨pfd, sockets, registration, book, _⟩ := situation.last connecting channel
    refine ⟨⟨?_, ⟨true, none⟩, ?_, rfl⟩, silent, .inl ?_⟩
    · rw [SocketBook.after_removal, book]
      exact List.mem_cons_self
    · rw [registration]
      rfl
    · rw [book]
      exact List.mem_cons_self

/-! ## What is held, and what is created -/

/-- A socket that is held is in `channel_`, while an attempt is in progress. -/
theorem Situation.held_iff {s : ConnectorLife} (h : Situation s) (sockfd : Nat) :
    (sockfd, .held) ∈ s.book.sockets ↔ s.connector.state = .kConnecting ∧
      ∃ ch, s.connector.channel = some ch ∧ ch.fd = sockfd := by
  cases h with
  | connecting ch pfd sockets state channel _ _ _ book settled =>
    rw [book]
    constructor
    · intro mem
      rcases List.mem_cons.mp mem with same | mem
      · cases same
        exact ⟨state, ch, channel, rfl⟩
      · exact absurd mem (settled.absent sockfd)
    · rintro ⟨_, ch', hchannel, rfl⟩
      cases channel.symm.trans hchannel
      exact List.mem_cons_self
  | leaving ch sockets state _ _ _ _ book settled =>
    rw [book]
    exact ⟨fun mem => absurd mem (settled.absent sockfd), fun both => absurd both.1 state⟩
  | idle sockets state _ _ _ _ book settled =>
    rw [book]
    exact ⟨fun mem => absurd mem (settled.absent sockfd), fun both => absurd both.1 state⟩

theorem Situation.held_single {s : ConnectorLife} (h : Situation s) :
    s.book.sockets.countP (fun x => x.2 = .held) ≤ 1 := by
  have none : ∀ {sockets : List (Nat × SocketFate)}, SocketBook.Settled sockets →
      sockets.countP (fun x => x.2 = .held) = 0 := by
    intro sockets settled
    rw [List.countP_eq_zero]
    intro x mem
    simpa using settled x mem
  cases h with
  | connecting _ _ _ _ _ _ _ _ book settled =>
    rw [book, List.countP_cons, none settled]
    simp
  | leaving _ _ _ _ _ _ _ book settled =>
    rw [book, none settled]
    exact Nat.zero_le 1
  | idle _ _ _ _ _ _ book settled =>
    rw [book, none settled]
    exact Nat.zero_le 1

/-- The answers to the attempt a step may make. -/
def Op.attempt : Op → Option Connector.Attempt
  | .timer _ a _ => some a
  | .functor a _ => some a
  | .start _ a => some a
  | .restart a => some a
  | _ => none

theorem startInLoop_socket {k l : Connector} {a : Connector.Attempt}
    {calls : List ConnectorCall} (h : k.startInLoop a = .ok (l, calls)) {sockfd : Nat}
    (mem : .socket sockfd ∈ calls) : a.socket = some sockfd := by
  have first : calls.head? = some (.socket sockfd) := by
    cases (Connector.startInLoop_cases h).2 with
    | unwanted off => cases mem
    | connects other wanted empty =>
      simp only [List.mem_cons, ConnectorCall.socket.injEq, reduceCtorEq, List.not_mem_nil,
        or_false] at mem
      rw [mem]
      rfl
    | retries other wanted =>
      have timers := onlyTimers_retryTimer k
      simp only [List.cons_append, List.nil_append, List.mem_cons, ConnectorCall.socket.injEq,
        reduceCtorEq, false_or] at mem
      rcases mem with same | mem
      · rw [same]
        rfl
      · obtain ⟨_, _, same⟩ := timers _ mem
        cases same
    | givesUp other wanted =>
      simp only [List.mem_cons, ConnectorCall.socket.injEq, reduceCtorEq, List.not_mem_nil,
        or_false] at mem
      rw [mem]
      rfl
  unfold Connector.startInLoop at h
  split at h
  swap
  · cases h
  split at h
  swap
  · cases h
    cases mem
  unfold Connector.connect at h
  split at h
  · cases h
  rename_i other answer
  obtain ⟨_, _, more, hm, _, rfl⟩ := andThen_cases h
  cases hm
  cases first
  exact answer

theorem act_socket {s t : ConnectorLife} {k : Connector} {a : Connector.Attempt}
    (h : s.act (k.startInLoop a) = .ok t) {made : List ConnectorCall}
    (journal : t.calls = s.calls ++ made) {sockfd : Nat} (mem : .socket sockfd ∈ made) :
    a.socket = some sockfd := by
  obtain ⟨l, calls, hk, performed⟩ := act_cases h
  rw [performed.journal] at journal
  rw [← List.append_cancel_left journal] at mem
  exact startInLoop_socket hk mem

/-- Dropping an attempt creates no socket. -/
theorem dropped_noSocket (k : Connector) (ch : Channel) (sockfd : Nat) :
    .socket sockfd ∉ Connector.removal ch ++ .close ch.fd :: k.retryTimer := by
  intro mem
  simp only [Connector.removal, List.cons_append, List.nil_append, List.mem_cons,
    reduceCtorEq, false_or] at mem
  obtain ⟨_, _, same⟩ := onlyTimers_retryTimer _ _ mem
  cases same

/-- Nor does an event of the connecting socket. -/
theorem settles_noSocket {k l : Connector} {revents : BitVec 32} {a : Connector.EventAnswers}
    {calls : List ConnectorCall} (move : k.Settles revents a l calls) (sockfd : Nat) :
    .socket sockfd ∉ calls := by
  cases move with
  | stays ignored => exact List.not_mem_nil
  | drops ch connecting channel failed => exact dropped_noSocket k ch sockfd
  | hands ch connecting channel success wanted => simp [Connector.removal]
  | closes ch connecting channel success off => simp [Connector.removal]

theorem runFunctor_socket {s t : ConnectorLife} {a : Connector.Attempt} {close : Status}
    {f : ConnectorFunctor} (h : s.runFunctor a close f = .ok t) {made : List ConnectorCall}
    (journal : t.calls = s.calls ++ made) {sockfd : Nat} (mem : .socket sockfd ∈ made) :
    a.socket = some sockfd := by
  cases f with
  | startInLoop => exact act_socket h journal mem
  | stopInLoop =>
    cases runFunctor_cases h with
    | notConnecting idle =>
      rw [List.self_eq_append_right.mp journal] at mem
      cases mem
    | stopInLoop connecting channel performed =>
      rw [performed.journal] at journal
      rw [← List.append_cancel_left journal] at mem
      exact absurd mem (dropped_noSocket _ _ _)
  | resetChannel =>
    cases h
    rw [List.self_eq_append_right.mp journal] at mem
    cases mem

/-- A step creates no other socket than the one the kernel answers with. -/
theorem step_socket {s t : ConnectorLife} {op : Op} (h : s.step op = .ok t)
    {made : List ConnectorCall} (journal : t.calls = s.calls ++ made) {sockfd : Nat}
    (mem : .socket sockfd ∈ made) : ∃ a, op.attempt = some a ∧ a.socket = some sockfd := by
  have silent : made ≠ [] := List.ne_nil_of_mem mem
  have same : t.calls ≠ s.calls := by
    intro same
    rw [same] at journal
    exact silent (List.self_eq_append_right.mp journal)
  cases op with
  | timer i a close =>
    refine ⟨a, rfl, ?_⟩
    simp only [step] at h
    split at h
    swap
    · cases h
    split at h
    · cases h
    split at h
    · cases h
    · rename_i m hm
      cases h
      exact runFunctor_socket hm journal mem
  | functor a close =>
    refine ⟨a, rfl, ?_⟩
    simp only [step] at h
    split at h
    · rename_i f rest _
      exact runFunctor_socket (s := { s with phase := .functors rest }) h journal mem
    · cases h
  | start isInLoopThread a =>
    refine ⟨a, rfl, ?_⟩
    cases isInLoopThread with
    | true => exact act_socket h journal mem
    | false =>
      cases h
      rw [← List.append_cancel_left journal] at mem
      simp at mem
  | restart a => exact ⟨a, rfl, act_socket h journal mem⟩
  | event revents a =>
    cases step_cases h with
    | event phase move performed =>
      rw [show t.calls = s.calls ++ _ from performed.journal] at journal
      rw [← List.append_cancel_left journal] at mem
      exact absurd mem (settles_noSocket move _)
  | stop =>
    cases h
    rw [← List.append_cancel_left journal] at mem
    simp at mem
  | poll timeQueue channel =>
    cases step_cases h
    exact absurd rfl same
  | timersDone =>
    cases step_cases h
    exact absurd rfl same
  | doAppendFunctors =>
    cases step_cases h
    exact absurd rfl same

end ConnectorLife

end ZDQ
