import ThreadAndNet.ConnectorLife
import ThreadAndNet.Timestamp
import Mathlib.Tactic.IntervalCases

/-!
# How long a connector waits between two attempts

Beside the connector runs the list of the delays it passed to `runAfter` since the
last `restart`. Neither `start` nor `stop` touches the schedule, and attempts that
end otherwise do not move it.
-/

namespace ZDQ

open Machine

namespace Connector

/-- The delay before attempt `i + 1` after the first, in milliseconds. -/
def backoff (i : Nat) : Nat := min (kInitRetryDelayMs * 2 ^ i) kMaxRetryDelayMs

theorem backoff_zero : backoff 0 = kInitRetryDelayMs := by decide

theorem backoff_succ (i : Nat) : backoff (i + 1) = min (backoff i * 2) kMaxRetryDelayMs := by
  rw [backoff, backoff, Nat.pow_succ, ← Nat.mul_assoc]
  omega

/-- From the seventh delay on it is the longest one. -/
theorem backoff_late {i : Nat} (late : 6 ≤ i) : backoff i = kMaxRetryDelayMs := by
  have doubled : 2 ^ 6 ≤ 2 ^ i := Nat.pow_le_pow_right (by decide) late
  rw [backoff, kInitRetryDelayMs, kMaxRetryDelayMs]
  omega

theorem backoff_cases (i : Nat) : backoff i ∈ [500, 1000, 2000, 4000, 8000, 16000, 30000] := by
  rcases Nat.lt_or_ge i 6 with early | late
  · interval_cases i <;> decide
  · rw [backoff_late late]
    decide

/-- The delays among a list of calls, in order. -/
def delays (calls : List ConnectorCall) : List Nat :=
  calls.filterMap (fun call =>
    match call with
    | .runAfter delayMs _ => some delayMs
    | _ => none)

@[simp] theorem delays_append (calls more : List ConnectorCall) :
    delays (calls ++ more) = delays calls ++ delays more := List.filterMap_append

/-- The connector set no timer, or one with its delay, which it doubled. -/
def Paces (k l : Connector) (calls : List ConnectorCall) : Prop :=
  delays calls = [] ∧ l.retryDelayMs = k.retryDelayMs ∨
    delays calls = [k.retryDelayMs] ∧ l.retryDelayMs = min (k.retryDelayMs * 2) kMaxRetryDelayMs

variable {k l : Connector} {calls before : List ConnectorCall}

theorem paces_retried (quiet : delays before = []) :
    Paces k k.retried (before ++ k.retryTimer) := by
  by_cases wanted : k.connect_ = true
  · refine Or.inr ⟨?_, ?_⟩
    · rw [delays_append, quiet, retryTimer, if_pos wanted]
      rfl
    · simp [retried, wanted]
  · refine Or.inl ⟨?_, ?_⟩
    · rw [delays_append, quiet, retryTimer, if_neg wanted]
      rfl
    · simp [retried, wanted]

theorem Attempts.paces (h : k.Attempts l calls) : Paces k l calls := by
  cases h with
  | unwanted _ => exact .inl ⟨rfl, rfl⟩
  | connects _ _ _ => exact .inl ⟨rfl, rfl⟩
  | retries _ _ => exact paces_retried rfl
  | givesUp _ _ => exact .inl ⟨rfl, rfl⟩

theorem paces_dropped (k : Connector) (ch : Channel) :
    Paces k (k.dropped ch) (removal ch ++ .close ch.fd :: k.retryTimer) := by
  have split : removal ch ++ .close ch.fd :: k.retryTimer =
      (removal ch ++ [.close ch.fd]) ++ k.retryTimer := by
    rw [List.append_assoc, List.singleton_append]
  rw [split]
  exact paces_retried rfl

theorem Settles.paces {revents : BitVec 32} {a : EventAnswers}
    (h : k.Settles revents a l calls) : Paces k l calls := by
  cases h with
  | stays _ => exact .inl ⟨rfl, rfl⟩
  | drops ch _ _ _ => exact paces_dropped k ch
  | hands _ _ _ _ _ => exact .inl ⟨rfl, rfl⟩
  | closes _ _ _ _ _ => exact .inl ⟨rfl, rfl⟩

end Connector

namespace ConnectorLife

open Connector

variable {s t : ConnectorLife}

/-- A step that is not `restart` went on with the schedule. -/
structure GoesOn (s t : ConnectorLife) : Prop where
  paces : ∃ calls, t.calls = s.calls ++ calls ∧ Paces s.connector t.connector calls

theorem Performed.goesOn {k : Connector} {calls : List ConnectorCall}
    (h : Performed s k calls t) (paces : Paces s.connector k calls) : GoesOn s t :=
  ⟨calls, h.journal, by rw [h.connector]; exact paces⟩

theorem Runs.goesOn {f : ConnectorFunctor} (h : Runs s f t) : GoesOn s t := by
  cases h with
  | startInLoop _ move performed => exact performed.goesOn move.paces
  | notConnecting _ => exact ⟨[], (List.append_nil _).symm, .inl ⟨rfl, rfl⟩⟩
  | stopInLoop _ _ performed => exact performed.goesOn (paces_dropped _ _)
  | resetChannel => exact ⟨[], (List.append_nil _).symm, .inl ⟨rfl, rfl⟩⟩

/-- `retryDelayMs_` is what the delays so far make it. -/
structure OnSchedule (s : ConnectorLife) (ds : List Nat) : Prop where
  past : ds = (List.range ds.length).map backoff
  next : s.connector.retryDelayMs = backoff ds.length

theorem OnSchedule.extend {ds : List Nat} {k l : Connector} {calls : List ConnectorCall}
    (past : ds = (List.range ds.length).map backoff) (next : k.retryDelayMs = backoff ds.length)
    (paces : Paces k l calls) (connector : t.connector = l) :
    OnSchedule t (ds ++ delays calls) := by
  subst connector
  rcases paces with ⟨none, same⟩ | ⟨one, doubled⟩
  · rw [none, List.append_nil]
    exact ⟨past, same.trans next⟩
  · rw [one, next]
    rw [next] at doubled
    refine ⟨?_, ?_⟩
    · rw [List.length_append, List.length_singleton, List.range_succ, List.map_append, ← past]
      rfl
    · rw [List.length_append, List.length_singleton, backoff_succ]
      exact doubled

/-- The life with the delays since the last `restart`. -/
def spanStep (x : ConnectorLife × List Nat) (op : Op) :
    Except Failure (ConnectorLife × List Nat) :=
  (x.1.step op).map (fun t =>
    let before := match op with
      | .restart _ => []
      | _ => x.2
    (t, before ++ delays (t.calls.drop x.1.calls.length)))

theorem Does.goesOn {op : Op} (h : Does s op t) (other : ∀ a, op ≠ .restart a) :
    GoesOn s t := by
  cases h with
  | poll _ _ => exact ⟨[], (List.append_nil _).symm, .inl ⟨rfl, rfl⟩⟩
  | timer _ _ ran =>
    obtain ⟨calls, journal, paces⟩ := ran.goesOn
    exact ⟨calls, journal, paces⟩
  | timersDone _ => exact ⟨[], (List.append_nil _).symm, .inl ⟨rfl, rfl⟩⟩
  | event _ move performed =>
    obtain ⟨calls, journal, paces⟩ := performed.goesOn move.paces
    exact ⟨calls, journal, paces⟩
  | doAppendFunctors _ => exact ⟨[], (List.append_nil _).symm, .inl ⟨rfl, rfl⟩⟩
  | functor _ ran =>
    obtain ⟨calls, journal, paces⟩ := ran.goesOn
    exact ⟨calls, journal, paces⟩
  | startNow _ move performed =>
    refine performed.goesOn ?_
    exact move.paces
  | startLater performed => exact performed.goesOn (.inl ⟨rfl, rfl⟩)
  | stop performed => exact performed.goesOn (.inl ⟨rfl, rfl⟩)
  | restart _ _ => exact absurd rfl (other _)

/-- A step extends the schedule, and `restart` begins a new one. -/
theorem OnSchedule.step {ds : List Nat} (h : OnSchedule s ds) {op : Op}
    {x : ConnectorLife × List Nat} (made : spanStep (s, ds) op = .ok x) :
    OnSchedule x.1 x.2 := by
  obtain ⟨t, stepped, rfl⟩ := map_cases made
  have does := step_cases stepped
  cases op with
  | restart a =>
    cases does with
    | restart move performed =>
      dsimp only
      rw [performed.journal, List.drop_left]
      have fresh : ([] : List Nat) = (List.range 0).map backoff := rfl
      exact .extend fresh backoff_zero.symm move.paces performed.connector
  | _ =>
    obtain ⟨calls, journal, paces⟩ := does.goesOn nofun
    dsimp only
    rw [journal, List.drop_left]
    exact .extend h.past h.next paces rfl

theorem reached_onSchedule {ds : List Nat} (reached : Reaches spanStep (new, []) (s, ds)) :
    OnSchedule s ds := by
  have keep : ∀ (x : ConnectorLife × List Nat) (op : Op) (y : ConnectorLife × List Nat),
      OnSchedule x.1 x.2 → spanStep x op = .ok y → OnSchedule y.1 y.2 :=
    fun _ _ _ h made => h.step made
  exact reached.keeps keep ⟨rfl, backoff_zero.symm⟩

/-- The double that `retry` passes to `runAfter`. -/
theorem scale_ratio_backoff (i : Nat) :
    ((Binary64.ratio (backoff i) 1000).scale Timestamp.kMicroSecondsPerSecond).toInt? =
      some ((backoff i : ℤ) * 1000) := by
  have known := backoff_cases i
  generalize backoff i = d at known
  simp only [List.mem_cons, List.not_mem_nil, or_false] at known
  rcases known with rfl | rfl | rfl | rfl | rfl | rfl | rfl <;> decide

/-- In every run, and since the last `restart`, the delays between two attempts are 500 ms,
twice that and so on up to 30 s, whatever `start`, `stop` and successful attempts did
meanwhile; and the time at which `runAfter` puts the next one is exactly that much later, in
spite of the doubles it computes with. -/
theorem retries_back_off {ds : List Nat} (reached : Reaches spanStep (new, []) (s, ds)) :
    ds = (List.range ds.length).map backoff ∧
    s.connector.retryDelayMs = backoff ds.length ∧
    ∀ d ∈ ds, ∀ now : ℤ, 0 ≤ now → now < 2 ^ 52 →
      Timestamp.nowAfter now (Binary64.ratio d 1000) = .ok (now + d * 1000) := by
  obtain ⟨past, next⟩ := reached_onSchedule reached
  refine ⟨past, next, fun d mem now nonneg small => ?_⟩
  rw [past] at mem
  obtain ⟨i, _, rfl⟩ := List.mem_map.mp mem
  have most : backoff i ≤ kMaxRetryDelayMs := Nat.min_le_right _ _
  rw [kMaxRetryDelayMs] at most
  refine (Timestamp.nowAfter_eq_iff (scale_ratio_backoff i)).mpr ⟨?_, ?_, ?_⟩
  · constructor <;> omega
  · constructor <;> omega
  · exact Binary64.representable_of_le (by omega)

/-- Three attempts are refused; the last one is made by `restart`. -/
def refusedThrice : List Op :=
  [.start true (.refused 7), .poll true false, .timer 0 (.refused 8) none, .timersDone,
    .restart (.refused 9)]

theorem retries_back_off_refusedThrice :
    ∃ s ds, Reaches spanStep (new, []) (s, ds) ∧ ds = [500] ∧
      delays s.calls = [500, 1000, 500] ∧ s.connector.retryDelayMs = backoff ds.length ∧
      ∀ d ∈ ds, ∀ now : ℤ, 0 ≤ now → now < 2 ^ 52 →
        Timestamp.nowAfter now (Binary64.ratio d 1000) = .ok (now + d * 1000) := by
  obtain ⟨s, hrun, all⟩ : ∃ s, run spanStep (new, []) refusedThrice = .ok (s, [500]) ∧
      delays s.calls = [500, 1000, 500] := ⟨_, rfl, rfl⟩
  obtain ⟨_, next, exactly⟩ := retries_back_off ⟨refusedThrice, hrun⟩
  exact ⟨s, _, ⟨refusedThrice, hrun⟩, rfl, all, next, exactly⟩

end ConnectorLife

end ZDQ
