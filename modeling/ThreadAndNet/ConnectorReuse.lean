import ThreadAndNet.ConnectorAttempts

/-!
# Using a connector again after it was stopped

`start` is safe once nothing is left of the time before: no retry timer, no
queued `startInLoop`, and, on the loop's own thread, where it acts at once, no
channel that is still to be destroyed. A `stopInLoop` that is left may cancel the
new attempt; then the retry timer must not come before the channel is destroyed.
-/

namespace ZDQ

open Machine

namespace ConnectorLife

/-- The call of a user a label stands for: whether it is `start` or `stop`. -/
def starting : Op → Option Bool
  | .start _ _ => some true
  | .stop => some false
  | _ => none

/-- Nobody calls `restart`, and `start` and `stop` are called in turn. -/
structure Alternates (labels : List Op) : Prop where
  noRestart : ∀ a, .restart a ∉ labels
  inTurn : (labels.filterMap starting).IsChain (· ≠ ·)

/-- A `start` that nothing earlier gets in the way of, and no timer too soon. -/
def SafeStart (s : ConnectorLife) : Op → Prop
  | .start isInLoopThread _ => s.connector.state = .kDisconnected ∧ s.timers = [] ∧
    .startInLoop ∉ s.queued ∧ (isInLoopThread = true → s.connector.channel = none)
  | .timer _ a _ => s.Punctual a
  | _ => True

instance (s : ConnectorLife) : DecidablePred (SafeStart s)
  | .start _ _ => inferInstanceAs (Decidable (_ ∧ _ ∧ _ ∧ (_ → _)))
  | .timer _ a _ => inferInstanceAs (Decidable (s.Punctual a))
  | .poll _ _ => .isTrue trivial
  | .timersDone => .isTrue trivial
  | .event _ _ => .isTrue trivial
  | .doAppendFunctors => .isTrue trivial
  | .functor _ _ => .isTrue trivial
  | .stop => .isTrue trivial
  | .restart _ => .isTrue trivial

/-- No channel was created after the last `resetChannel` was queued. -/
def Spared (calls : List ConnectorCall) : Prop :=
  ∃ before after, calls = before ++ .appendFuncInLoop .resetChannel :: after ∧
    ∀ ch, .update ch ∉ after

/-- A queued `resetChannel` is the only one, and destroys no later channel. -/
def SparesChannel (s : ConnectorLife) : Prop :=
  .resetChannel ∈ s.queued → s.queued.count .resetChannel = 1 ∧ Spared s.calls

structure Reused (s : ConnectorLife) : Prop where
  one : OneAttempt s
  spared : .resetChannel ∈ s.queued → Spared s.calls

theorem new_reused : Reused new :=
  ⟨new_oneAttempt, fun pending => nomatch pending⟩

theorem Reused.sparesChannel {s : ConnectorLife} (h : Reused s) : SparesChannel s := by
  intro pending
  refine ⟨?_, h.spared pending⟩
  have some := List.count_pos_iff.mpr pending
  cases h.one.situation with
  | connecting _ _ _ _ _ _ _ resets => exact absurd pending (List.count_eq_zero.mp resets)
  | leaving _ _ _ _ _ resets => exact resets
  | idle _ _ _ _ resets => exact absurd pending (List.count_eq_zero.mp resets)

theorem SafeStart.calm {s : ConnectorLife} {op : Op} (safe : SafeStart s op)
    (noRestart : ∀ a, op ≠ .restart a) : Calm s op := by
  cases op with
  | start isInLoopThread a =>
    obtain ⟨idle, timers, none, empty⟩ := safe
    refine ⟨idle, ?_, empty⟩
    rw [chains, timers, List.count_eq_zero.mpr none, if_neg (by simp [idle])]
    rfl
  | timer i a close => exact safe
  | restart a => exact absurd rfl (noRestart a)
  | _ => trivial

/-! ## Channels created after `resetChannel` was queued -/

theorem Spared.append {calls more : List ConnectorCall} (h : Spared calls)
    (none : ∀ ch, .update ch ∉ more) : Spared (calls ++ more) := by
  obtain ⟨before, after, rfl, clear⟩ := h
  refine ⟨before, after ++ more, by simp, fun ch mem => ?_⟩
  exact (List.mem_append.mp mem).elim (clear ch) (none ch)

theorem spared_removal (calls : List ConnectorCall) (ch : Channel) {rest : List ConnectorCall}
    (none : ∀ ch, .update ch ∉ rest) : Spared (calls ++ (Connector.removal ch ++ rest)) :=
  ⟨calls ++ [.update ch.disableAll, .remove ch.disableAll], rest,
    by simp [Connector.removal], none⟩

theorem retryTimer_noUpdate (k : Connector) (ch : Channel) : .update ch ∉ k.retryTimer := by
  unfold Connector.retryTimer
  split <;> simp

/-- An attempt creates a channel only if none is to be destroyed. -/
theorem attempts_spared {s t : ConnectorLife} {k l : Connector} {calls : List ConnectorCall}
    (idle : k.state = .kDisconnected) (move : k.Attempts l calls)
    (performed : Performed s l calls t) (situation : Situation t)
    (before : .resetChannel ∈ s.queued → Spared s.calls) (pending : .resetChannel ∈ t.queued) :
    Spared t.calls := by
  have none := (attempts_timed idle move).2.1
  have queued := performed.queued
  rw [none, List.append_nil] at queued
  rw [queued] at pending
  have spared := before pending
  rw [performed.journal]
  cases move with
  | unwanted off => exact spared.append (by simp)
  | connects sockfd wanted empty =>
    have state : t.connector.state = .kConnecting := by rw [performed.connector]
    cases situation with
    | connecting _ _ _ _ _ _ _ resets =>
      rw [← queued] at pending
      exact absurd pending (List.count_eq_zero.mp resets)
    | leaving _ _ settled => exact absurd state settled
    | idle _ settled => exact absurd state settled
  | retries sockfd wanted =>
    refine spared.append (fun ch => ?_)
    simp [retryTimer_noUpdate]
  | givesUp sockfd wanted => exact spared.append (by simp)

theorem dropped_spared {s t : ConnectorLife} {k l : Connector} {ch : Channel}
    (performed : Performed s l (Connector.removal ch ++ .close ch.fd :: k.retryTimer) t) :
    Spared t.calls := by
  rw [performed.journal]
  exact spared_removal s.calls ch (by simp [retryTimer_noUpdate])

/-- An event that settles an attempt destroys its channel before any other is created. -/
theorem settles_spared {s t : ConnectorLife} {k l : Connector} {revents : BitVec 32}
    {a : Connector.EventAnswers} {calls : List ConnectorCall}
    (move : k.Settles revents a l calls) (performed : Performed s l calls t) :
    calls = [] ∨ Spared t.calls := by
  cases move with
  | stays ignored => exact .inl rfl
  | drops ch connecting channel failed => exact .inr (dropped_spared performed)
  | hands ch connecting channel success wanted =>
    refine .inr ?_
    rw [performed.journal]
    exact spared_removal s.calls ch (by simp)
  | closes ch connecting channel success off =>
    refine .inr ?_
    rw [performed.journal]
    exact spared_removal s.calls ch (by simp)

theorem Reused.spared_step {s t : ConnectorLife} (h : Reused s) {op : Op} (did : Does s op t)
    (situation : Situation t) (pending : .resetChannel ∈ t.queued) : Spared t.calls := by
  have before := h.spared
  cases did with
  | poll phase watched =>
    refine before ?_
    rw [queued, phase]
    exact pending
  | timer phase timer ran =>
    have retry := h.one.timersRetry _ (List.mem_of_getElem? timer)
    subst retry
    cases ran with
    | startInLoop idle move performed =>
      have ran := h.one.situation.attempts (by simp [idle]) (by simp [idle]) rfl move performed
      have spared := attempts_spared idle move performed ran before
      exact spared pending
  | timersDone phase =>
    refine before ?_
    rw [queued, phase]
    exact pending
  | event phase move performed =>
    have queued : ({ s with phase := .events false false } : ConnectorLife).queued =
        s.queued := by
      simp [ConnectorLife.queued, ConnectorPhase.batch, phase]
    rcases settles_spared move performed with rfl | spared
    · rw [performed.queued, List.filterMap_nil, List.append_nil, queued] at pending
      rw [performed.journal, List.append_nil]
      exact before pending
    · exact spared
  | doAppendFunctors phase =>
    refine before ?_
    rw [queued, phase]
    simpa [queued, ConnectorPhase.batch] using pending
  | functor phase ran =>
    rename_i f rest
    have queued : s.queued =
        f :: ({ s with phase := .functors rest } : ConnectorLife).queued := by
      simp [ConnectorLife.queued, ConnectorPhase.batch, phase]
    have later : .resetChannel ∈ ({ s with phase := .functors rest } : ConnectorLife).queued →
        Spared s.calls := by
      intro mem
      exact before (by rw [queued]; exact List.mem_cons_of_mem f mem)
    cases ran with
    | startInLoop idle move performed =>
      exact attempts_spared idle move performed situation later pending
    | notConnecting idle => exact later pending
    | stopInLoop connecting channel performed => exact dropped_spared performed
    | resetChannel => exact later pending
  | startNow idle move performed =>
    exact attempts_spared (k := { s.connector with connect_ := true }) idle move performed
      situation before pending
  | startLater performed =>
    rw [performed.queued] at pending
    rw [performed.journal]
    exact (before (by simpa [appended] using pending)).append (by simp)
  | stop performed =>
    rw [performed.queued] at pending
    rw [performed.journal]
    exact (before (by simpa [appended] using pending)).append (by simp)
  | restart move performed => exact attempts_spared rfl move performed situation before pending

theorem Reused.step {s t : ConnectorLife} (h : Reused s) {op : Op} (safe : SafeStart s op)
    (noRestart : ∀ a, op ≠ .restart a) (hstep : s.step op = .ok t) : Reused t := by
  have did := step_cases hstep
  have one := did.oneAttempt h.one (safe.calm noRestart)
  exact ⟨one, h.spared_step did one.situation⟩

/-- A connector all of whose starts are safe can be used again and again. -/
theorem reusable {labels : List Op} (alternates : Alternates labels)
    (safe : Along step SafeStart new labels) :
    run step new labels ≠ .error .assertion ∧ Throughout step SparesChannel new labels := by
  have noRestart := alternates.noRestart
  clear alternates
  have start := new_reused
  generalize new = s at safe start
  induction labels generalizing s with
  | nil => exact ⟨by simp, start.sparesChannel⟩
  | cons op rest ih =>
    have here : ∀ a, op ≠ .restart a := by
      rintro a rfl
      exact noRestart a List.mem_cons_self
    cases hstep : s.step op with
    | error e =>
      have sound := start.one.step_safe (safe.1.calm here)
      rw [hstep] at sound
      simp only [run, Throughout, hstep, and_true]
      exact ⟨sound, start.sparesChannel⟩
    | ok t =>
      obtain ⟨first, tail⟩ := (along_cons_ok hstep).mp safe
      rw [run_cons_ok hstep, throughout_cons_ok hstep]
      obtain ⟨sound, spares⟩ := ih (fun a mem => noRestart a (List.mem_cons_of_mem op mem)) t
        tail (start.step first here hstep)
      exact ⟨sound, start.sparesChannel, spares⟩

/-- One iteration of the loop that finds one functor and no event. -/
def oneFunctor : List Op := [.poll false false, .doAppendFunctors, .functor (.refused 0) none]

/-- The first attempt is refused, and its retry timer is still set at the second start. -/
def oldTimer : List Op :=
  [.start true (.refused 5), .stop] ++ oneFunctor ++
    [.start true (.inProgress 6), .poll true false, .timer 0 (.inProgress 7) none]

theorem not_reusable_oldTimer :
    Alternates oldTimer ∧ run step new oldTimer = .error .assertion :=
  ⟨⟨by simp [oldTimer, oneFunctor], by decide⟩, rfl⟩

/-- Everything is done before the second start. -/
def allDone : List Op :=
  [.start true (.inProgress 5), .stop] ++ oneFunctor ++ oneFunctor ++
    [.start true (.inProgress 6)]

theorem reusable_allDone :
    run step new allDone ≠ .error .assertion ∧ Throughout step SparesChannel new allDone :=
  reusable ⟨by simp [allDone, oneFunctor], by decide⟩ (by decide +kernel)

end ConnectorLife

end ZDQ
