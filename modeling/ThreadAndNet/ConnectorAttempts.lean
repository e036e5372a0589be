import ThreadAndNet.ConnectorLife

/-!
# One attempt at a time

A retry timer, a queued `startInLoop` and an attempt in progress each stand for
one chain of attempts. As long as there is no more than one of them, and the channel of
the attempt before is destroyed before the next one, no assertion fails.
-/

namespace ZDQ

open Machine

/-- What is not added cannot come behind anything that was there. -/
theorem behind_append {α : Type*} {q more : List α} {x y : α} (absent : y ∉ more)
    (behind : List.Sublist [x, y] (q ++ more)) : List.Sublist [x, y] q := by
  obtain ⟨l, r, split, left, right⟩ := List.sublist_append_iff.mp behind
  rcases List.eq_nil_or_concat r with rfl | ⟨init, last, rfl⟩
  · rw [List.append_nil] at split
    rw [split]
    exact left
  · have same : y = last := by
      have ends := congrArg List.getLast? split
      simpa using ends
    exact absurd (right.subset (by simp [same])) absent

namespace ConnectorLife

/-- How many chains of attempts there are. -/
def chains (s : ConnectorLife) : Nat :=
  s.timers.length + s.queued.count .startInLoop +
    if s.connector.state = .kConnecting then 1 else 0

structure OneAttempt (s : ConnectorLife) : Prop where
  situation : Situation s
  timersRetry : TimersRetry s
  single : s.chains ≤ 1
  connected : s.connector.state = .kConnected → s.chains = 0
  inOrder : ¬ List.Sublist [.startInLoop, .resetChannel] s.queued

/-- No timer makes an attempt that goes on while the channel of the attempt before is
still to be destroyed. -/
def Punctual (s : ConnectorLife) (a : Connector.Attempt) : Prop :=
  s.connector.connect_ = true → .resetChannel ∈ s.queued → ¬ a.InProgress

instance (s : ConnectorLife) (a : Connector.Attempt) : Decidable (s.Punctual a) :=
  inferInstanceAs (Decidable (_ → _ → ¬ (_ ∧ (_ ∨ _ ∨ _ ∨ _))))

/-- The steps that begin no second chain, and no attempt too soon. -/
def Calm (s : ConnectorLife) : Op → Prop
  | .start isInLoopThread _ => s.connector.state = .kDisconnected ∧ s.chains = 0 ∧
    (isInLoopThread = true → s.connector.channel = none)
  | .restart _ => s.chains = 0 ∧ s.connector.channel = none
  | .timer _ a _ => s.Punctual a
  | _ => True

theorem new_oneAttempt : OneAttempt new := by
  refine ⟨new_situation, by simp [TimersRetry, new], by decide, fun _ => by decide, ?_⟩
  simp [new, queued, ConnectorPhase.batch]

/-- What is not in the queue has nothing behind it. -/
theorem notBehind {q : List ConnectorFunctor} {f g : ConnectorFunctor} (absent : f ∉ q) :
    ¬ List.Sublist [f, g] q :=
  fun behind => absent (behind.subset List.mem_cons_self)

/-! ## Attempts -/

theorem attempts_timed {k l : Connector} {calls : List ConnectorCall}
    (idle : k.state = .kDisconnected) (move : k.Attempts l calls) :
    (calls.filterMap timed).length + (if l.state = .kConnecting then 1 else 0) ≤ 1 ∧
      calls.filterMap appended = [] ∧ l.state ≠ .kConnected := by
  cases move with
  | unwanted off => simp [idle]
  | connects sockfd wanted empty => simp [timed, appended]
  | retries sockfd wanted =>
    simp [List.filterMap_cons, timed, appended, Connector.retryTimer, Connector.retried, wanted]
  | givesUp sockfd wanted => simp [List.filterMap_cons, timed, appended, idle]

theorem runs_resets {s t : ConnectorLife} (settled : s.connector.state ≠ .kConnecting)
    {f : ConnectorFunctor} (ran : Runs s f t) : t.resets = s.resets := by
  cases ran with
  | startInLoop idle move performed =>
    rw [performed.resets, (attempts_timed idle move).2.1]
    rfl
  | notConnecting idle => rfl
  | stopInLoop connecting => exact absurd connecting settled
  | resetChannel => rfl

/-- A `resetChannel` is only ever put into the queue at the end of an attempt. -/
theorem Does.resets_le {s t : ConnectorLife} {op : Op} (did : Does s op t)
    (settled : s.connector.state ≠ .kConnecting) : t.resets ≤ s.resets := by
  cases did with
  | poll phase => simp [resets, queued, ConnectorPhase.batch, phase]
  | timer phase timer ran =>
    have same := runs_resets settled ran
    exact Nat.le_of_eq same
  | timersDone phase => simp [resets, queued, ConnectorPhase.batch, phase]
  | event phase move performed =>
    cases move with
    | stays ignored =>
      rw [performed.resets]
      simp [resets, queued, ConnectorPhase.batch, phase]
    | drops ch connecting => exact absurd connecting settled
    | hands ch connecting => exact absurd connecting settled
    | closes ch connecting => exact absurd connecting settled
  | doAppendFunctors phase => simp [resets, queued, ConnectorPhase.batch, phase]
  | functor phase ran =>
    rename_i f rest
    have taken : List.Sublist ({ s with phase := .functors rest } : ConnectorLife).queued
        s.queued := by
      rw [queued, queued, phase]
      exact List.sublist_cons_self _ _
    rw [runs_resets (s := { s with phase := .functors rest }) settled ran]
    exact taken.count_le _
  | startNow idle move performed =>
    rw [performed.resets, (attempts_timed (k := { s.connector with connect_ := true }) idle
      move).2.1]
    exact Nat.le_refl _
  | startLater performed => exact Nat.le_of_eq performed.resets
  | stop performed => exact Nat.le_of_eq performed.resets
  | restart move performed =>
    rw [performed.resets, (attempts_timed rfl move).2.1]
    exact Nat.le_refl _

/-- The state after an attempt. -/
structure Attempted (u t : ConnectorLife) : Prop where
  queued : t.queued = u.queued
  timers : ∃ more, t.timers = u.timers ++ more ∧
    more.length + (if t.connector.state = .kConnecting then 1 else 0) ≤ 1
  state : t.connector.state ≠ .kConnected

theorem attempts_attempted {u t : ConnectorLife} {k l : Connector} {calls : List ConnectorCall}
    (idle : k.state = .kDisconnected) (move : k.Attempts l calls)
    (performed : Performed u l calls t) : Attempted u t := by
  obtain ⟨few, none, state⟩ := attempts_timed idle move
  have queued : t.queued = u.queued := by rw [performed.queued, none, List.append_nil]
  refine ⟨queued, ⟨_, performed.timers, ?_⟩, ?_⟩
  · rw [performed.connector]
    exact few
  · rw [performed.connector]
    exact state

theorem Attempted.oneAttempt {u t : ConnectorLife} (h : Attempted u t) (situation : Situation t)
    (timersRetry : TimersRetry t) (alone : u.timers.length + u.queued.count .startInLoop = 0) :
    OneAttempt t := by
  obtain ⟨queued, ⟨more, timers, few⟩, state⟩ := h
  have absent : .startInLoop ∉ u.queued := by
    intro mem
    have := List.count_pos_iff.mpr mem
    omega
  refine ⟨situation, timersRetry, ?_, fun connected => absurd connected state, ?_⟩
  · rw [chains, timers, queued, List.length_append]
    omega
  · rw [queued]
    exact notBehind absent

/-- The timer that has run is deleted, and it was the only one. -/
theorem Attempted.oneAttempt_timer {u t : ConnectorLife} (h : Attempted u t)
    (situation : Situation t) (timersRetry : TimersRetry t) {i : Nat} {f : ConnectorFunctor}
    (timer : u.timers[i]? = some f) (one : u.timers.length = 1)
    (none : u.queued.count .startInLoop = 0) :
    OneAttempt { t with timers := t.timers.eraseIdx i } := by
  have first : i = 0 := by
    have := (List.getElem?_eq_some_iff.mp timer).1
    omega
  subst first
  obtain ⟨x, single⟩ := List.length_eq_one_iff.mp one
  refine Attempted.oneAttempt (u := { u with timers := [] }) ⟨h.queued, ?_, h.state⟩
    (situation.alike ⟨rfl, rfl, rfl, rfl, .inl, rfl⟩) ?_ ?_
  · obtain ⟨more, timers, few⟩ := h.timers
    exact ⟨more, by rw [timers, single]; rfl, few⟩
  · exact fun f mem => timersRetry f (List.mem_of_mem_eraseIdx mem)
  · rw [List.length_nil, Nat.zero_add]
    exact none

/-! ## The end of an attempt -/

/-- While an attempt is in progress there is no other chain. -/
theorem OneAttempt.connecting {s : ConnectorLife} (h : OneAttempt s)
    (connecting : s.connector.state = .kConnecting) :
    s.timers = [] ∧ .startInLoop ∉ s.queued := by
  have single := h.single
  rw [chains, if_pos connecting] at single
  exact ⟨List.eq_nil_of_length_eq_zero (by omega), List.count_eq_zero.mp (by omega)⟩

theorem ended {u t : ConnectorLife} {ch : Channel} {k : Connector} {rest : List ConnectorCall}
    (performed : Performed u k (Connector.removal ch ++ rest) t) (aside : Aside rest)
    (timers : u.timers = []) (queued : .startInLoop ∉ u.queued)
    (few : (rest.filterMap timed).length ≤ 1) (state : k.state ≠ .kConnecting)
    (none : k.state = .kConnected → rest.filterMap timed = []) (situation : Situation t)
    (timersRetry : TimersRetry t) : OneAttempt t := by
  have hqueued : t.queued = u.queued ++ [.resetChannel] := by
    rw [performed.queued, List.filterMap_append, aside.appended, List.append_nil]
    rfl
  have htimers : t.timers = rest.filterMap timed := by
    rw [performed.timers, timers, List.filterMap_append]
    rfl
  have absent : .startInLoop ∉ t.queued := by
    rw [hqueued]
    simpa using queued
  have chains : t.chains = (rest.filterMap timed).length := by
    rw [ConnectorLife.chains, htimers, List.count_eq_zero.mpr absent, performed.connector,
      if_neg state]
    rfl
  refine ⟨situation, timersRetry, by omega, ?_, notBehind absent⟩
  intro connected
  rw [performed.connector] at connected
  rw [chains, none connected]
  rfl

theorem retryTimer_few (k : Connector) : (k.retryTimer.filterMap timed).length ≤ 1 := by
  unfold Connector.retryTimer
  split <;> simp [timed]

/-! ## Changes of phase -/

/-- Nothing changed but where the loop is. -/
theorem OneAttempt.moved {s : ConnectorLife} (h : OneAttempt s) {phase : ConnectorPhase}
    {appendFunctors : List ConnectorFunctor}
    (queued : phase.batch ++ appendFunctors = s.queued)
    (situation : Situation { s with phase := phase, appendFunctors := appendFunctors }) :
    OneAttempt { s with phase := phase, appendFunctors := appendFunctors } := by
  have same : ({ s with phase := phase, appendFunctors := appendFunctors } :
      ConnectorLife).queued = s.queued := queued
  refine ⟨situation, h.timersRetry, ?_, ?_, ?_⟩
  · rw [chains, same]
    exact h.single
  · intro connected
    rw [chains, same]
    exact h.connected connected
  · rw [same]
    exact h.inOrder

/-- A functor was taken out of the queue, and the channel at most. -/
theorem OneAttempt.taken {s t : ConnectorLife} (h : OneAttempt s) {f : ConnectorFunctor}
    (queued : s.queued = f :: t.queued) (timers : t.timers = s.timers)
    (state : t.connector.state = s.connector.state) (situation : Situation t) :
    OneAttempt t := by
  have fewer : t.chains ≤ s.chains := by
    rw [chains, chains, queued, timers, state, List.count_cons]
    omega
  refine ⟨situation, ?_, Nat.le_trans fewer h.single, ?_, ?_⟩
  · rw [TimersRetry, timers]
    exact h.timersRetry
  · intro connected
    have := h.connected (state ▸ connected)
    omega
  · intro behind
    exact h.inOrder (by rw [queued]; exact behind.trans (List.sublist_cons_self _ _))

theorem performed_nil {s t : ConnectorLife} (h : Performed s s.connector [] t) : t = s := by
  obtain ⟨connector, phase, timers, appendFunctors, journal, registration⟩ := h
  have registration := Except.ok.inj registration
  simp only [List.filterMap_nil, List.append_nil] at timers appendFunctors journal
  cases s
  cases t
  simp_all

theorem OneAttempt.settles {s t : ConnectorLife} (h : OneAttempt s) {revents : BitVec 32}
    {a : Connector.EventAnswers} {k : Connector} {calls : List ConnectorCall}
    (move : s.connector.Settles revents a k calls) (performed : Performed s k calls t)
    (situation : Situation t) (timersRetry : TimersRetry t) : OneAttempt t := by
  cases move with
  | stays ignored =>
    cases performed_nil performed
    exact h
  | drops ch connecting channel failed =>
    obtain ⟨timers, none⟩ := h.connecting connecting
    exact ended performed ((aside_close _).append (aside_retryTimer _)) timers none
      (retryTimer_few _) (by simp [Connector.dropped, Connector.retried])
      (by simp [Connector.dropped, Connector.retried]) situation timersRetry
  | hands ch connecting channel success wanted =>
    obtain ⟨timers, none⟩ := h.connecting connecting
    exact ended performed (aside_newConnectionCallback _) timers none (Nat.zero_le 1) (by simp)
      (fun _ => rfl) situation timersRetry
  | closes ch connecting channel success off =>
    obtain ⟨timers, none⟩ := h.connecting connecting
    exact ended performed (aside_close _) timers none (Nat.zero_le 1) (by simp) (fun _ => rfl)
      situation timersRetry

/-- The functor at the head of the queue runs. -/
theorem OneAttempt.functor {s t : ConnectorLife} (h : OneAttempt s) {f : ConnectorFunctor}
    {rest : List ConnectorFunctor} (phase : s.phase = .functors (f :: rest))
    (ran : Runs { s with phase := .functors rest } f t) (situation : Situation t)
    (timersRetry : TimersRetry t) : OneAttempt t := by
  have queued : s.queued = f :: ({ s with phase := .functors rest } : ConnectorLife).queued := by
    simp [ConnectorLife.queued, ConnectorPhase.batch, phase]
  cases ran with
  | startInLoop idle move performed =>
    have single := h.single
    rw [chains, queued, List.count_cons_self] at single
    exact (attempts_attempted idle move performed).oneAttempt situation timersRetry
      (show s.timers.length + _ = 0 by omega)
  | notConnecting idle => exact h.taken queued rfl rfl situation
  | stopInLoop connecting channel performed =>
    obtain ⟨timers, none⟩ := h.connecting connecting
    rw [queued] at none
    exact ended performed ((aside_close _).append (aside_retryTimer _)) timers
      (fun mem => none (List.mem_cons_of_mem _ mem)) (retryTimer_few _)
      (by simp [Connector.dropped, Connector.retried])
      (by simp [Connector.dropped, Connector.retried]) situation timersRetry
  | resetChannel => exact h.taken queued rfl rfl situation

/-- `startInLoop` was put into the empty chain. -/
theorem OneAttempt.startLater {s t : ConnectorLife} (idle : s.connector.state = .kDisconnected)
    (none : s.chains = 0) (performed : Performed s { s.connector with connect_ := true }
      [.appendFuncInLoop .startInLoop] t) (situation : Situation t)
    (timersRetry : TimersRetry t) : OneAttempt t := by
  rw [chains, if_neg (by simp [idle])] at none
  have queued : t.queued = s.queued ++ [.startInLoop] := performed.queued
  have timers : t.timers = [] := by
    rw [performed.timers, List.eq_nil_of_length_eq_zero (l := s.timers) (by omega)]
    rfl
  have absent : .startInLoop ∉ s.queued := List.count_eq_zero.mp (by omega)
  refine ⟨situation, timersRetry, ?_, ?_, ?_⟩
  · rw [chains, timers, queued, performed.connector, List.count_append,
      List.count_eq_zero.mpr absent, if_neg (by simp [idle])]
    simp
  · intro connected
    rw [performed.connector] at connected
    rw [show s.connector.state = .kConnected from connected] at idle
    cases idle
  · rw [queued]
    exact fun behind => notBehind absent (behind_append (by simp) behind)

theorem OneAttempt.stop {s t : ConnectorLife} (h : OneAttempt s)
    (performed : Performed s { s.connector with connect_ := false }
      [.appendFuncInLoop .stopInLoop] t) (situation : Situation t)
    (timersRetry : TimersRetry t) : OneAttempt t := by
  have queued : t.queued = s.queued ++ [.stopInLoop] := performed.queued
  have timers : t.timers = s.timers := by
    rw [performed.timers]
    exact List.append_nil _
  have same : t.chains = s.chains := by
    rw [chains, chains, timers, queued, performed.connector, List.count_append]
    simp
  refine ⟨situation, timersRetry, ?_, ?_, ?_⟩
  · rw [same]
    exact h.single
  · intro connected
    rw [performed.connector] at connected
    rw [same]
    exact h.connected connected
  · rw [queued]
    exact fun behind => h.inOrder (behind_append (by simp) behind)

theorem Does.oneAttempt {s t : ConnectorLife} {op : Op} (did : Does s op t) (h : OneAttempt s)
    (calm : Calm s op) : OneAttempt t := by
  have situation : Situation t := by
    refine did.situation h.situation h.timersRetry ?_
    rintro a rfl connecting
    have none := calm.1
    rw [chains, if_pos connecting] at none
    omega
  have timersRetry := did.timersRetry h.timersRetry
  cases did with
  | poll phase watched =>
    exact h.moved (by simp [queued, ConnectorPhase.batch, phase]) situation
  | timer phase timer ran =>
    have retry := h.timersRetry _ (List.mem_of_getElem? timer)
    subst retry
    cases ran with
    | startInLoop idle move performed =>
      have some := (List.getElem?_eq_some_iff.mp timer).1
      have single := h.single
      rw [chains] at single
      have ran := h.situation.attempts (by simp [idle]) (by simp [idle]) rfl move performed
      exact (attempts_attempted idle move performed).oneAttempt_timer ran
        (performed.timersRetry h.timersRetry (attempts_retries move)) timer (by omega) (by omega)
  | timersDone phase =>
    exact h.moved (by simp [queued, ConnectorPhase.batch, phase]) situation
  | event phase move performed =>
    have taken : OneAttempt { s with phase := .events false false } := by
      refine h.moved (by simp [queued, ConnectorPhase.batch, phase]) ?_
      refine h.situation.alike ⟨rfl, rfl, rfl, ?_, ?_, rfl⟩
      · simp [resets, ConnectorLife.queued, ConnectorPhase.batch, phase]
      · simp [active, ConnectorPhase.channel]
    exact taken.settles move performed situation timersRetry
  | doAppendFunctors phase =>
    exact h.moved (by simp [queued, ConnectorPhase.batch, phase]) situation
  | functor phase ran => exact h.functor phase ran situation timersRetry
  | startNow idle move performed =>
    obtain ⟨_, none, _⟩ := calm
    rw [chains, if_neg (by simp [idle])] at none
    exact (attempts_attempted (k := { s.connector with connect_ := true }) idle move
      performed).oneAttempt situation timersRetry none
  | startLater performed =>
    exact .startLater calm.1 calm.2.1 performed situation timersRetry
  | stop performed => exact h.stop performed situation timersRetry
  | restart move performed =>
    have none := calm.1
    rw [chains] at none
    exact (attempts_attempted rfl move performed).oneAttempt situation timersRetry (by omega)

/-! ## No assertion fails -/

/-- Only the poller can refuse a call. -/
theorem run_perform_ok {calls : List ConnectorCall} {s : ConnectorLife} {r : Registration}
    (h : run recorded s.registration calls = .ok r) : ∃ t, run perform s calls = .ok t := by
  induction calls generalizing s with
  | nil => exact ⟨s, rfl⟩
  | cons call rest ih =>
    obtain ⟨m, hm, hrest⟩ := run_cons_inv h
    have accepted : ∃ u, s.perform call = .ok u ∧ u.registration = m := by
      cases call with
      | update channel =>
        have hm : s.registration.update channel = .ok m := hm
        refine ⟨{ s with calls := s.calls ++ [.update channel], registration := m }, ?_, rfl⟩
        simp only [perform, onPoller, hm]
      | remove channel =>
        have hm : s.registration.remove = .ok m := hm
        refine ⟨{ s with calls := s.calls ++ [.remove channel], registration := m }, ?_, rfl⟩
        simp only [perform, onPoller, hm]
      | _ =>
        cases hm
        exact ⟨_, rfl, rfl⟩
    obtain ⟨u, hu, rfl⟩ := accepted
    obtain ⟨t, ht⟩ := ih hrest
    exact ⟨t, by rw [run_cons_ok hu]; exact ht⟩

theorem act_not_assertion {s : ConnectorLife} {o : Connector.Outcome}
    (safe : o ≠ .error .assertion)
    (accepted : ∀ k calls, o = .ok (k, calls) → ∃ r, run recorded s.registration calls = .ok r) :
    s.act o ≠ .error .assertion := by
  intro h
  unfold act at h
  split at h
  · exact Connector.error_not_assertion rfl safe h
  · rename_i k calls
    obtain ⟨r, hr⟩ := accepted k calls rfl
    obtain ⟨t, ht⟩ := run_perform_ok (s := { s with connector := k }) hr
    rw [ht] at h
    cases h

theorem Situation.attempts_accepted {s : ConnectorLife} (h : Situation s)
    (unsettled : s.connector.state ≠ .kConnecting) {k l : Connector}
    {calls : List ConnectorCall} (channel : k.channel = s.connector.channel)
    (move : k.Attempts l calls) : ∃ r, run recorded s.registration calls = .ok r := by
  cases move with
  | unwanted off => exact ⟨_, rfl⟩
  | connects sockfd wanted empty =>
    cases h with
    | connecting _ _ _ connecting => exact absurd connecting unsettled
    | leaving ch _ _ hchannel =>
      rw [channel, hchannel] at empty
      cases empty
    | idle _ _ _ registration =>
      rw [registration]
      exact ⟨_, rfl⟩
  | retries sockfd wanted =>
    exact ⟨_, ((aside_socket sockfd).append (aside_retryTimer k)).recorded _⟩
  | givesUp sockfd wanted => exact ⟨_, rfl⟩

theorem Situation.removal_accepted {s : ConnectorLife} (h : Situation s) {ch : Channel}
    (connecting : s.connector.state = .kConnecting) {rest : List ConnectorCall}
    (aside : Aside rest) :
    ∃ r, run recorded s.registration (Connector.removal ch ++ rest) = .ok r := by
  cases h with
  | connecting ch' pfd sockets state channel registration =>
    rw [registration, run_append]
    exact ⟨_, aside.recorded _⟩
  | leaving _ _ state => exact absurd connecting state
  | idle _ state => exact absurd connecting state

theorem Situation.startInLoop_safe {s : ConnectorLife} (h : Situation s)
    (unsettled : s.connector.state ≠ .kConnecting) {k : Connector} (a : Connector.Attempt)
    (channel : k.channel = s.connector.channel) (idle : k.state = .kDisconnected)
    (clear : k.connect_ = true → a.InProgress → s.connector.channel = none) :
    s.act (k.startInLoop a) ≠ .error .assertion := by
  refine act_not_assertion ?_ ?_
  · intro failed
    rcases (k.startInLoop_assertion_iff a).mp failed with busy | ⟨wanted, goes, occupied⟩
    · exact busy idle
    · exact occupied (channel.trans (clear wanted goes))
  · intro l calls hk
    exact h.attempts_accepted unsettled channel (Connector.startInLoop_cases hk).2

/-- Unless an attempt is in progress, a channel that is there is going to be destroyed. -/
theorem Situation.vacant {s : ConnectorLife} (h : Situation s)
    (unsettled : s.connector.state ≠ .kConnecting) (clear : .resetChannel ∉ s.queued) :
    s.connector.channel = none := by
  cases h with
  | connecting _ _ _ connecting => exact absurd connecting unsettled
  | leaving ch sockets state channel registration resets =>
    have one : s.queued.count .resetChannel = 1 := resets
    rw [List.count_eq_zero.mpr clear] at one
    cases one
  | idle _ _ channel => exact channel

/-- A chain that is not an attempt in progress finds the connector disconnected. -/
theorem OneAttempt.waiting {s : ConnectorLife} (h : OneAttempt s)
    (some : 0 < s.timers.length + s.queued.count .startInLoop) :
    s.connector.state = .kDisconnected := by
  have single := h.single
  have none := h.connected
  unfold chains at single none
  cases state : s.connector.state with
  | kDisconnected => rfl
  | kConnecting =>
    rw [if_pos state] at single
    omega
  | kConnected =>
    have none := none state
    omega

theorem OneAttempt.functor_safe {s : ConnectorLife} (h : OneAttempt s) (a : Connector.Attempt)
    (close : Status) : s.step (.functor a close) ≠ .error .assertion := by
  simp only [step]
  split
  swap
  · simp
  rename_i f rest phase
  have queued : s.queued = f :: ({ s with phase := .functors rest } : ConnectorLife).queued := by
    simp [ConnectorLife.queued, ConnectorPhase.batch, phase]
  have taken : f ≠ .resetChannel → Situation { s with phase := .functors rest } := by
    intro spares
    refine h.situation.alike ⟨rfl, rfl, rfl, ?_, ?_, rfl⟩
    · rw [resets, resets, queued, List.count_cons_of_ne spares]
    · simp [active, ConnectorPhase.channel]
  cases f with
  | startInLoop =>
    have idle : s.connector.state = .kDisconnected := by
      refine h.waiting ?_
      rw [queued, List.count_cons_self]
      omega
    have unsettled : s.connector.state ≠ .kConnecting := by simp [idle]
    have inOrder := h.inOrder
    rw [queued, List.cons_sublist_cons, List.singleton_sublist] at inOrder
    have situation := taken (by simp)
    refine situation.startInLoop_safe unsettled a rfl idle (fun _ _ => ?_)
    exact situation.vacant unsettled inOrder
  | stopInLoop =>
    refine act_not_assertion (Connector.stopInLoop_not_assertion _ _) ?_
    intro k calls hk
    rcases Connector.stopInLoop_cases hk with ⟨_, _, rfl⟩ | ⟨connecting, ch, _, _, rfl⟩
    · exact ⟨_, rfl⟩
    · exact (taken (by simp)).removal_accepted connecting
        ((aside_close _).append (aside_retryTimer _))
  | resetChannel => simp [runFunctor, act, Connector.resetChannel]

theorem OneAttempt.event_safe {s : ConnectorLife} (h : OneAttempt s) (revents : BitVec 32)
    (a : Connector.EventAnswers) : s.step (.event revents a) ≠ .error .assertion := by
  simp only [step]
  split
  swap
  · simp
  rename_i phase
  have on : s.active = true := by rw [active, phase]; rfl
  have state : s.connector.state = .kConnecting := by
    cases h.situation with
    | connecting _ _ _ state => exact state
    | leaving _ _ _ _ _ _ inactive =>
      rw [inactive] at on
      cases on
    | idle _ _ _ _ _ inactive =>
      rw [inactive] at on
      cases on
  refine act_not_assertion (Connector.handleEvent_not_assertion (by simp [state]) revents a) ?_
  intro k calls hk
  cases Connector.handleEvent_cases hk with
  | stays ignored => exact ⟨_, rfl⟩
  | drops ch connecting channel failed =>
    exact h.situation.removal_accepted connecting ((aside_close _).append (aside_retryTimer _))
  | hands ch connecting channel success wanted =>
    exact h.situation.removal_accepted connecting (aside_newConnectionCallback _)
  | closes ch connecting channel success off =>
    exact h.situation.removal_accepted connecting (aside_close _)

theorem OneAttempt.timer_safe {s : ConnectorLife} (h : OneAttempt s) (i : Nat)
    {a : Connector.Attempt} (close : Status) (punctual : s.Punctual a) :
    s.step (.timer i a close) ≠ .error .assertion := by
  simp only [step]
  split
  swap
  · simp
  rename_i channel phase
  split
  · simp
  rename_i f timer
  have retry := h.timersRetry _ (List.mem_of_getElem? timer)
  subst retry
  have some := (List.getElem?_eq_some_iff.mp timer).1
  have idle : s.connector.state = .kDisconnected := h.waiting (by omega)
  have unsettled : s.connector.state ≠ .kConnecting := by simp [idle]
  have safe : s.act (s.connector.startInLoop a) ≠ .error .assertion := by
    refine h.situation.startInLoop_safe unsettled a rfl idle (fun wanted goes => ?_)
    exact h.situation.vacant unsettled (fun pending => punctual wanted pending goes)
  split
  · rename_i e failed
    exact Connector.error_not_assertion failed safe
  · simp

theorem OneAttempt.step_safe {s : ConnectorLife} (h : OneAttempt s) {op : Op}
    (calm : Calm s op) : s.step op ≠ .error .assertion := by
  cases op with
  | poll timeQueue channel =>
    simp only [step]
    split
    · split <;> simp
    · simp
  | timer i a close => exact h.timer_safe i close calm
  | timersDone =>
    simp only [step]
    split <;> simp
  | event revents a => exact h.event_safe revents a
  | doAppendFunctors =>
    simp only [step]
    split <;> simp
  | functor a close => exact h.functor_safe a close
  | start isInLoopThread a =>
    obtain ⟨idle, none, empty⟩ := calm
    cases isInLoopThread with
    | true =>
      exact h.situation.startInLoop_safe (by simp [idle]) a rfl idle (fun _ _ => empty rfl)
    | false => simp [step, Connector.start, act, run, perform]
  | stop => simp [step, Connector.stop, act, run, perform]
  | restart a =>
    obtain ⟨none, empty⟩ := calm
    refine h.situation.startInLoop_safe ?_ a rfl rfl (fun _ _ => empty)
    intro connecting
    rw [chains, if_pos connecting] at none
    omega

end ConnectorLife

end ZDQ
