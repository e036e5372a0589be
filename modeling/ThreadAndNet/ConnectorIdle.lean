import ThreadAndNet.ConnectorAttempts

/-!
# A connector that tries nothing

A connector nobody wants to connect, or that is connected, makes no attempt whatever
its loop does. So it is before it is first started and after its client is destroyed.
-/

namespace ZDQ

open Machine

namespace ConnectorLife

/-- What is left of the steps of a connector that tries nothing any more. -/
inductive Idles (s : ConnectorLife) : ConnectorLife → Prop where
  | poll {timeQueue channel : Bool} (phase : s.phase = .functors []) :
      Idles s { s with phase := .events timeQueue channel }
  | timer {channel : Bool} (i : Nat) (phase : s.phase = .events true channel)
      (idle : s.connector.state = .kDisconnected) :
      Idles s { s with timers := s.timers.eraseIdx i }
  | timersDone {channel : Bool} (phase : s.phase = .events true channel) :
      Idles s { s with phase := .events false channel }
  | event (phase : s.phase = .events false true) :
      Idles s { s with phase := .events false false }
  | doAppendFunctors (phase : s.phase = .events false false) :
      Idles s { s with phase := .functors s.appendFunctors, appendFunctors := [] }
  | functor {f : ConnectorFunctor} {rest : List ConnectorFunctor}
      (phase : s.phase = .functors (f :: rest)) : Idles s { s with phase := .functors rest }
  | reset {rest : List ConnectorFunctor} (phase : s.phase = .functors (.resetChannel :: rest)) :
      Idles s { s with
        phase := .functors rest
        connector := { s.connector with channel := none }
        registration := .fresh }

/-- Nobody calls the connector. -/
def Op.unasked : Op → Bool
  | .start _ _ => false
  | .stop => false
  | .restart _ => false
  | _ => true

/-- A connector that is off makes no attempt, and one that is connected cannot. -/
theorem attempts_idles {s t : ConnectorLife} (off : s.connector.state = .kConnected ∨
      s.connector.connect_ = false) (idle : s.connector.state = .kDisconnected)
    {k : Connector} {calls : List ConnectorCall} (move : s.connector.Attempts k calls)
    (performed : Performed s k calls t) : t = s := by
  have unwanted : s.connector.connect_ ≠ true := by
    rcases off with connected | off
    · rw [connected] at idle
      cases idle
    · simp [off]
  cases move with
  | unwanted _ => exact performed_nil performed
  | connects sockfd wanted => exact absurd wanted unwanted
  | retries sockfd wanted => exact absurd wanted unwanted
  | givesUp sockfd wanted => exact absurd wanted unwanted

theorem Does.idles {s t : ConnectorLife} {op : Op} (did : Does s op t)
    (timersRetry : TimersRetry s) (settled : s.connector.state ≠ .kConnecting)
    (off : s.connector.state = .kConnected ∨ s.connector.connect_ = false)
    (unasked : op.unasked = true) : Idles s t := by
  cases did with
  | poll phase watched => exact .poll phase
  | timer phase timer ran =>
    have retry := timersRetry _ (List.mem_of_getElem? timer)
    subst retry
    cases ran with
    | startInLoop idle move performed =>
      cases attempts_idles off idle move performed
      exact .timer _ phase idle
  | timersDone phase => exact .timersDone phase
  | event phase move performed =>
    cases move with
    | stays ignored =>
      cases performed_nil performed
      exact .event phase
    | drops ch connecting => exact absurd connecting settled
    | hands ch connecting => exact absurd connecting settled
    | closes ch connecting => exact absurd connecting settled
  | doAppendFunctors phase => exact .doAppendFunctors phase
  | functor phase ran =>
    rename_i f rest
    cases ran with
    | startInLoop idle move performed =>
      cases attempts_idles (s := { s with phase := .functors rest }) off idle move performed
      exact .functor phase
    | notConnecting idle => exact .functor phase
    | stopInLoop connecting => exact absurd connecting settled
    | resetChannel => exact .reset phase
  | startNow => cases unasked
  | startLater => cases unasked
  | stop => cases unasked
  | restart => cases unasked

theorem Idles.connector {s t : ConnectorLife} (idles : Idles s t) :
    t.connector.state = s.connector.state ∧ t.connector.connect_ = s.connector.connect_ := by
  cases idles <;> exact ⟨rfl, rfl⟩

/-- Nothing is queued. -/
theorem Idles.sublist {s t : ConnectorLife} (idles : Idles s t) :
    List.Sublist t.queued s.queued := by
  cases idles with
  | timer => exact List.Sublist.refl _
  | poll phase => simp [queued, ConnectorPhase.batch, phase]
  | timersDone phase => simp [queued, ConnectorPhase.batch, phase]
  | event phase => simp [queued, ConnectorPhase.batch, phase]
  | doAppendFunctors phase => simp [queued, ConnectorPhase.batch, phase]
  | functor phase => simp [queued, ConnectorPhase.batch, phase]
  | reset phase => simp [queued, ConnectorPhase.batch, phase]

/-! ## Before the first start -/

/-- The connector was never started. -/
structure Unstarted (s : ConnectorLife) : Prop where
  off : s.connector.connect_ = false
  state : s.connector.state = .kDisconnected
  channel : s.connector.channel = none
  timers : s.timers = []
  queued : ∀ f ∈ s.queued, f = .stopInLoop

theorem new_unstarted : Unstarted new :=
  ⟨rfl, rfl, rfl, rfl, fun _ mem => nomatch mem⟩

theorem Unstarted.idles {s t : ConnectorLife} (h : Unstarted s) (idles : Idles s t) :
    Unstarted t := by
  obtain ⟨state, connect_⟩ := idles.connector
  refine ⟨connect_.trans h.off, state.trans h.state, ?_, ?_,
    fun f mem => h.queued f (idles.sublist.subset mem)⟩
  · cases idles with
    | reset => rfl
    | _ => exact h.channel
  · cases idles with
    | timer i => rw [h.timers, List.eraseIdx_nil]
    | _ => exact h.timers

theorem Unstarted.step {s t : ConnectorLife} (h : Unstarted s) {op : Op} (did : Does s op t)
    (noStart : ∀ isInLoopThread a, op ≠ .start isInLoopThread a)
    (noRestart : ∀ a, op ≠ .restart a) : Unstarted t := by
  have retry : TimersRetry s := by
    intro f mem
    rw [h.timers] at mem
    cases mem
  have step : op.unasked = true → Unstarted t := fun unasked =>
    h.idles (did.idles retry (by simp [h.state]) (.inr h.off) unasked)
  cases op with
  | start isInLoopThread a => exact absurd rfl (noStart isInLoopThread a)
  | restart a => exact absurd rfl (noRestart a)
  | stop =>
    cases did with
    | stop performed =>
      refine ⟨?_, ?_, ?_, ?_, ?_⟩
      · rw [performed.connector]
      · rw [performed.connector]
        exact h.state
      · rw [performed.connector]
        exact h.channel
      · rw [performed.timers]
        exact (List.append_nil _).trans h.timers
      · intro f mem
        rw [performed.queued, List.mem_append] at mem
        rcases mem with old | new
        · exact h.queued f old
        · simpa [appended] using new
  | _ => exact step rfl

/-- Starting it is the beginning of a chain of attempts. -/
theorem Unstarted.calm {s : ConnectorLife} (h : Unstarted s) (isInLoopThread : Bool)
    (a : Connector.Attempt) : s.Calm (.start isInLoopThread a) := by
  have absent : .startInLoop ∉ s.queued := by
    intro mem
    cases h.queued _ mem
  refine ⟨h.state, ?_, fun _ => h.channel⟩
  rw [chains, h.timers, List.count_eq_zero.mpr absent, if_neg (by simp [h.state])]
  rfl

end ConnectorLife

end ZDQ
