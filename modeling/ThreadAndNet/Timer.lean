import ThreadAndNet.Machine
import ThreadAndNet.Syscall

/-!
# A timer of its own

`runTimer` polls one timerfd and reads it, and nothing guards the members of the object: any
thread may call `setTimer` and `cannelTimer` between its steps, the callback may on its own
thread. `cannelTimer` is taken line by line, `setTimer` as one step. The descriptor blocks. The
clock is the kernel's, in nanoseconds; the callback is set.
-/

namespace ZDQ

open Machine

/-- A timerfd as `timerfd_settime` left it when the clock read `setAt`; `value` 0 is disarmed. -/
structure IntervalTimer where
  setAt : Nat
  value : Nat
  interval : Nat
  /-- the expirations that a `::read` has reported -/
  seen : Nat

namespace IntervalTimer

/-- How often it has expired when the clock reads `clock`. -/
def fired (fd : IntervalTimer) (clock : Nat) : Nat :=
  if fd.value = 0 ∨ clock < fd.setAt + fd.value then 0
  else if fd.interval = 0 then 1
  else (clock - (fd.setAt + fd.value)) / fd.interval + 1

/-- The expirations that a `::read` would report. -/
def expirations (fd : IntervalTimer) (clock : Nat) : Nat := fd.fired clock - fd.seen

/-- `timerfd_settime` for values in seconds; `none` is EINVAL. -/
def settime (clock : Nat) (it_value it_interval : ℤ) : Option IntervalTimer :=
  if 0 ≤ it_value ∧ 0 ≤ it_interval then
    some ⟨clock, it_value.toNat * 10 ^ 9, it_interval.toNat * 10 ^ 9, 0⟩
  else none

def disarmed (clock : Nat) : IntervalTimer := ⟨clock, 0, 0, 0⟩

theorem settime_zero (clock : Nat) : settime clock 0 0 = some (disarmed clock) := rfl

/-- The expirations come at the instants they were set for. -/
theorem le_fired_iff (fd : IntervalTimer) (clock k : Nat) : k + 1 ≤ fd.fired clock ↔
    0 < fd.value ∧ fd.setAt + fd.value + k * fd.interval ≤ clock ∧
      (fd.interval = 0 → k = 0) := by
  unfold fired
  split
  · rename_i none
    have first := Nat.le_add_right (fd.setAt + fd.value) (k * fd.interval)
    omega
  rename_i started
  split
  · rename_i once
    simp only [once, Nat.mul_zero, forall_const]
    omega
  · rename_i periodic
    rw [Nat.succ_le_succ_iff, Nat.le_div_iff_mul_le (Nat.pos_of_ne_zero periodic)]
    exact ⟨fun due => ⟨by omega, by omega, fun once => absurd once periodic⟩,
      fun due => by omega⟩

theorem fired_mono (fd : IntervalTimer) {before now : Nat} (le : before ≤ now) :
    fd.fired before ≤ fd.fired now := by
  cases count : fd.fired before with
  | zero => exact Nat.zero_le _
  | succ k =>
    obtain ⟨set, due, once⟩ := (le_fired_iff fd before k).mp (Nat.le_of_eq count.symm)
    exact (le_fired_iff fd now k).mpr ⟨set, by omega, once⟩

end IntervalTimer

/-- Where the thread that called `runTimer` is. -/
inductive TimerPhase where
  | outside
  /-- the descriptor is set, and `is_started_` is not -/
  | marking
  /-- about to test `is_started_` -/
  | testing
  /-- in `::poll` since then -/
  | polling (since : Nat)
  /-- `::poll` has reported the descriptor -/
  | reading
  /-- in the callback -/
  | calling
deriving DecidableEq

structure Timer where
  timerfd_ : IntervalTimer
  /-- `it_value` and `it_interval` of `howlong_`, in seconds -/
  howlong_ : ℤ × ℤ
  is_started_ : Bool
  phase : TimerPhase
  /-- the calls of `cannelTimer` between `bzero` and `timerfd_settime` -/
  clearing : Nat
  /-- those behind `timerfd_settime` that have not reached `is_started_` yet -/
  cancelling : Nat
  clock : Nat
  /-- how often the callback was called -/
  calls : Nat

namespace Timer

def new (clock : Nat) : Timer := ⟨.disarmed clock, (0, 0), false, .outside, 0, 0, clock, 0⟩

/-- What `::poll` answers. -/
inductive PollResult where
  | readable
  | timeout
  | failed

/-- The steps of the thread in `runTimer`, then what any thread may do, then time. -/
inductive Op where
  | runTimer
  | mark
  | test
  | poll (r : PollResult)
  /-- `::read`; -1 if `failed` -/
  | read (failed : Bool)
  | called
  | setTimer (val interval : ℤ)
  /-- `cannelTimer`, the `bzero` of `howlong_` -/
  | clear
  /-- its `timerfd_settime` -/
  | disarm
  /-- the rest of it -/
  | unmark
  | elapse (d : Nat)

def setTimer (t : Timer) (val interval : ℤ) : Timer := { t with howlong_ := (val, interval) }

/-- The 10 s that `runTimer` gives `::poll`. -/
def pollTimeout : Nat := 10 * 10 ^ 9

def step (t : Timer) : Op → Except Failure Timer
  | .runTimer =>
    match t.phase with
    | .outside =>
      match IntervalTimer.settime t.clock t.howlong_.1 t.howlong_.2 with
      | none => .error (.exit "settime")
      | some timerfd => .ok { t with timerfd_ := timerfd, phase := .marking }
    | _ => .error .disabled
  | .mark =>
    guarded (t.phase = .marking) { t with is_started_ := true, phase := .testing }
  | .test =>
    guarded (t.phase = .testing)
      { t with phase := if t.is_started_ then .polling t.clock else .outside }
  | .poll r =>
    match t.phase, r with
    | .polling _, .failed => .error (.exit "poll")
    | .polling _, .readable =>
      guarded (0 < t.timerfd_.expirations t.clock) { t with phase := .reading }
    | .polling since, .timeout =>
      guarded (t.timerfd_.expirations t.clock = 0 ∧ since + pollTimeout ≤ t.clock)
        { t with phase := .testing }
    | _, _ => .error .disabled
  | .read failed =>
    match t.phase, failed with
    | .reading, true => .error (.exit "read")
    | .reading, false =>
      guarded (0 < t.timerfd_.expirations t.clock)
        { t with
          timerfd_ := { t.timerfd_ with seen := t.timerfd_.fired t.clock }
          phase := .calling
          calls := t.calls + 1 }
    | _, _ => .error .disabled
  | .called => guarded (t.phase = .calling) { t with phase := .testing }
  | .setTimer val interval => .ok (t.setTimer val interval)
  | .clear => .ok { t with howlong_ := (0, 0), clearing := t.clearing + 1 }
  | .disarm =>
    if t.clearing = 0 then .error .disabled
    else
      match IntervalTimer.settime t.clock t.howlong_.1 t.howlong_.2 with
      | none => .error (.exit "settime")
      | some timerfd =>
        .ok { t with
          timerfd_ := timerfd
          clearing := t.clearing - 1
          cancelling := t.cancelling + 1 }
  | .unmark =>
    guarded (0 < t.cancelling) { t with is_started_ := false, cancelling := t.cancelling - 1 }
  | .elapse d => .ok { t with clock := t.clock + d }

/-- What a step can do. -/
inductive Steps (t : Timer) : Op → Timer → Prop where
  | runTimer (timerfd : IntervalTimer) : t.phase = .outside →
      IntervalTimer.settime t.clock t.howlong_.1 t.howlong_.2 = some timerfd →
      Steps t .runTimer { t with timerfd_ := timerfd, phase := .marking }
  | mark : t.phase = .marking →
      Steps t .mark { t with is_started_ := true, phase := .testing }
  | goesOn : t.phase = .testing → t.is_started_ = true →
      Steps t .test { t with phase := .polling t.clock }
  | leaves : t.phase = .testing → t.is_started_ = false →
      Steps t .test { t with phase := .outside }
  | readable (since : Nat) : t.phase = .polling since → 0 < t.timerfd_.expirations t.clock →
      Steps t (.poll .readable) { t with phase := .reading }
  | timeout (since : Nat) : t.phase = .polling since → t.timerfd_.expirations t.clock = 0 →
      since + pollTimeout ≤ t.clock → Steps t (.poll .timeout) { t with phase := .testing }
  | read : t.phase = .reading → 0 < t.timerfd_.expirations t.clock →
      Steps t (.read false) { t with
        timerfd_ := { t.timerfd_ with seen := t.timerfd_.fired t.clock }
        phase := .calling
        calls := t.calls + 1 }
  | called : t.phase = .calling → Steps t .called { t with phase := .testing }
  | setTimer (val interval : ℤ) : Steps t (.setTimer val interval) (t.setTimer val interval)
  | clear : Steps t .clear { t with howlong_ := (0, 0), clearing := t.clearing + 1 }
  | disarm (timerfd : IntervalTimer) : t.clearing ≠ 0 →
      IntervalTimer.settime t.clock t.howlong_.1 t.howlong_.2 = some timerfd →
      Steps t .disarm { t with
        timerfd_ := timerfd
        clearing := t.clearing - 1
        cancelling := t.cancelling + 1 }
  | unmark : 0 < t.cancelling →
      Steps t .unmark { t with is_started_ := false, cancelling := t.cancelling - 1 }
  | elapse (d : Nat) : Steps t (.elapse d) { t with clock := t.clock + d }

theorem step_cases {t u : Timer} {op : Op} (h : t.step op = .ok u) : Steps t op u := by
  cases op with
  | runTimer =>
    simp only [step] at h
    split at h
    · split at h
      · cases h
      · cases h
        exact .runTimer _ ‹_› ‹_›
    · cases h
  | mark =>
    obtain ⟨marking, rfl⟩ := guarded_ok.mp h
    exact .mark marking
  | test =>
    obtain ⟨testing, rfl⟩ := guarded_ok.mp h
    split
    · exact .goesOn testing ‹_›
    · exact .leaves testing (Bool.eq_false_iff.mpr ‹_›)
  | poll r =>
    simp only [step] at h
    split at h
    · cases h
    · obtain ⟨ready, rfl⟩ := guarded_ok.mp h
      exact .readable _ ‹_› ready
    · obtain ⟨⟨none, past⟩, rfl⟩ := guarded_ok.mp h
      exact .timeout _ ‹_› none past
    · cases h
  | read failed =>
    simp only [step] at h
    split at h
    · cases h
    · obtain ⟨ready, rfl⟩ := guarded_ok.mp h
      exact .read ‹_› ready
    · cases h
  | called =>
    obtain ⟨calling, rfl⟩ := guarded_ok.mp h
    exact .called calling
  | setTimer val interval =>
    cases h
    exact .setTimer val interval
  | clear =>
    cases h
    exact .clear
  | disarm =>
    simp only [step] at h
    split at h
    · cases h
    · split at h
      · cases h
      · cases h
        exact .disarm _ ‹_› ‹_›
  | unmark =>
    obtain ⟨some, rfl⟩ := guarded_ok.mp h
    exact .unmark some
  | elapse d =>
    cases h
    exact .elapse d

/-! ## Nobody sets the timer while it is cancelled -/

/-- No `setTimer` comes between the `bzero` and the `timerfd_settime` of a `cannelTimer`. -/
def Uncrossed (t : Timer) : Op → Prop
  | .setTimer _ _ => t.clearing = 0
  | _ => True

instance (t : Timer) : ∀ op, Decidable (t.Uncrossed op)
  | .setTimer _ _ => inferInstanceAs (Decidable (t.clearing = 0))
  | .runTimer | .mark | .test | .poll _ | .read _ | .called | .clear | .disarm | .unmark
  | .elapse _ => .isTrue trivial

/-- What a `cannelTimer` is about to pass to `timerfd_settime` is what it has cleared. -/
def Cleared (t : Timer) : Prop := t.clearing ≠ 0 → t.howlong_ = (0, 0)

theorem new_cleared (clock : Nat) : Cleared (new clock) := fun some => absurd rfl some

theorem Cleared.step {t u : Timer} (cleared : t.Cleared) {op : Op} (apart : t.Uncrossed op)
    (hs : t.step op = .ok u) : u.Cleared := by
  cases step_cases hs with
  | setTimer val interval => exact fun some => absurd apart some
  | clear => exact fun _ => rfl
  | disarm timerfd some _ => exact fun _ => cleared some
  | _ => exact cleared

theorem reached_cleared {clock : Nat} {t : Timer}
    (reached : ReachesBy Timer.step Uncrossed (new clock) t) : t.Cleared :=
  reached.keeps (fun _ _ _ cleared => cleared.step) (new_cleared clock)

/-- Then it disarms the descriptor. -/
theorem Cleared.disarm {t u : Timer} (cleared : t.Cleared) (hs : t.step .disarm = .ok u) :
    u.timerfd_ = .disarmed t.clock ∧ u.calls = t.calls := by
  cases step_cases hs with
  | disarm timerfd some made =>
    rw [cleared some, IntervalTimer.settime_zero] at made
    exact ⟨(Option.some.inj made).symm, rfl⟩

/-! ## When the callback is called -/

/-- Since the descriptor was set to `fd` with `n` calls made before, there was an expiration
for each call; unless it was disarmed meanwhile, it is still that descriptor. -/
structure OnTime (fd : IntervalTimer) (n : Nat) (t : Timer) : Prop where
  due : t.calls ≤ n + fd.fired t.clock
  still : t.timerfd_.value = 0 ∨ t.calls ≤ n + t.timerfd_.seen ∧
    t.timerfd_ = { fd with seen := t.timerfd_.seen }
  cleared : t.Cleared

def Op.runs : Op → Bool
  | .runTimer => true
  | _ => false

theorem OnTime.step {fd : IntervalTimer} {n : Nat} {t u : Timer} (h : OnTime fd n t) {op : Op}
    (apart : t.Uncrossed op) (same : op.runs = false) (hs : t.step op = .ok u) :
    OnTime fd n u := by
  have cleared := h.cleared.step apart hs
  cases step_cases hs with
  | runTimer timerfd _ _ => cases same
  | read reading ready =>
    rcases h.still with off | ⟨enough, is_fd⟩
    · have none : t.timerfd_.fired t.clock = 0 := if_pos (.inl off)
      rw [IntervalTimer.expirations, none] at ready
      omega
    · have same : t.timerfd_.fired t.clock = fd.fired t.clock := by
        rw [is_fd]
        rfl
      rw [IntervalTimer.expirations, same] at ready
      refine ⟨?_, .inr ⟨?_, ?_⟩, cleared⟩
      · dsimp only
        omega
      · dsimp only
        omega
      · dsimp only
        rw [is_fd]
  | disarm timerfd some made =>
    refine ⟨h.due, .inl ?_, cleared⟩
    rw [(h.cleared.disarm hs).1]
    rfl
  | elapse d =>
    refine ⟨Nat.le_trans h.due ?_, h.still, cleared⟩
    exact Nat.add_le_add_left (fd.fired_mono (Nat.le_add_right t.clock d)) n
  | _ => exact ⟨h.due, h.still, cleared⟩

theorem OnTime.throughout {fd : IntervalTimer} {n : Nat} {t u : Timer} (start : OnTime fd n t)
    {labels : List Op} (apart : Along Timer.step Uncrossed t labels)
    (once : ∀ op ∈ labels, op.runs = false) (h : run Timer.step t labels = .ok u) :
    OnTime fd n u := by
  have keep : ∀ (m : Timer) (op : Op) (v : Timer), OnTime fd n m →
      m.Uncrossed op ∧ op.runs = false → m.step op = .ok v → OnTime fd n v :=
    fun _ _ _ kept both hop => kept.step both.1 both.2 hop
  exact run_keeps keep start (apart.and (along_of_mem (fun op mem _ => once op mem) t)) h

/-- With `setTimer(val, interval)` the callback is not called for the `k + 1`st time before
`val` and `k` times `interval` have passed, only once if `interval` is 0, and never if `val`
is 0; whatever any thread does meanwhile, as long as nobody sets the timer anew between two
lines of a `cannelTimer`. -/
theorem callbacks_on_time {clock : Nat} {s t u : Timer}
    (reached : ReachesBy step Uncrossed (new clock) s) {val interval : ℤ}
    (set : s.howlong_ = (val, interval)) (starts : s.step .runTimer = .ok t) {labels : List Op}
    (apart : Along step Uncrossed t labels) (h : run step t labels = .ok u)
    (once : ∀ op ∈ labels, op.runs = false) {k : Nat} (called : s.calls + (k + 1) ≤ u.calls) :
    0 < val ∧ s.clock + val.toNat * 10 ^ 9 + k * (interval.toNat * 10 ^ 9) ≤ u.clock ∧
      (interval = 0 → k = 0) := by
  have unset : s.Uncrossed .runTimer := trivial
  have cleared := (reached_cleared reached).step unset starts
  cases step_cases starts with
  | runTimer timerfd outside made =>
    rw [set, IntervalTimer.settime] at made
    split at made
    · rename_i valid
      cases made
      have start : OnTime ⟨s.clock, val.toNat * 10 ^ 9, interval.toNat * 10 ^ 9, 0⟩ s.calls
          { s with
            timerfd_ := ⟨s.clock, val.toNat * 10 ^ 9, interval.toNat * 10 ^ 9, 0⟩
            phase := .marking } :=
        ⟨Nat.le_add_right _ _, .inr ⟨Nat.le_refl _, rfl⟩, cleared⟩
      have ontime := start.throughout apart once h
      have enough : k + 1 ≤ IntervalTimer.fired _ u.clock :=
        Nat.le_of_add_le_add_left (Nat.le_trans called ontime.due)
      obtain ⟨positive, due, single⟩ := (IntervalTimer.le_fired_iff _ u.clock k).mp enough
      dsimp only at positive
      refine ⟨by omega, due, fun none => single ?_⟩
      rw [none]
      rfl
    · cases made

/-- The callback is called after two seconds and again after four. -/
def twice : List Op :=
  [.mark, .test, .elapse (2 * 10 ^ 9), .poll .readable, .read false, .called, .test,
    .elapse (4 * 10 ^ 9), .poll .readable, .read false]

theorem callbacks_on_time_twice : ∃ t u, ((new 0).setTimer 2 4).step .runTimer = .ok t ∧
    run step t twice = .ok u ∧ 0 + 2 * 10 ^ 9 + 1 * (4 * 10 ^ 9) ≤ u.clock := by
  obtain ⟨t, starts, later⟩ := ok_of_any (o := ((new 0).setTimer 2 4).step .runTimer)
    (p := fun t => (run step t twice).toOption.any (fun u => u.calls == 2)) (by decide +kernel)
  obtain ⟨u, ran, calls⟩ := ok_of_any later
  rw [beq_iff_eq] at calls
  have set : ReachesBy step Uncrossed (new 0) ((new 0).setTimer 2 4) :=
    ⟨[.setTimer 2 4], ⟨rfl, trivial⟩, rfl⟩
  have apart : Along step Uncrossed t twice :=
    along_of_mem (by simp [twice, Uncrossed]) t
  obtain ⟨_, due, _⟩ := callbacks_on_time (k := 1) set rfl starts apart ran (by decide)
    (Nat.le_of_eq calls.symm)
  exact ⟨t, u, starts, ran, due⟩

/-- A `setTimer` between the two lines of a `cannelTimer` makes that start the timer again. -/
def crossed : List Op :=
  [.setTimer 1 0, .runTimer, .mark, .test, .elapse (10 ^ 9), .poll .readable, .read false, .called,
    .clear, .setTimer 1 0, .disarm, .elapse (10 ^ 9), .test, .poll .readable, .read false]

example : (run step (new 0) crossed).toOption.map Timer.calls = some 2 := by decide +kernel

/-! ## What becomes of a cancelled timer -/

/-- The descriptor is disarmed. -/
def Off (t : Timer) : Prop := t.timerfd_.value = 0

theorem Off.expirations {t : Timer} (off : t.Off) (clock : Nat) :
    t.timerfd_.expirations clock = 0 := by
  rw [IntervalTimer.expirations, IntervalTimer.fired, if_pos (.inl off), Nat.zero_sub]

theorem Off.step {t u : Timer} (off : t.Off) (cleared : t.Cleared) {op : Op}
    (same : op.runs = false) (hs : t.step op = .ok u) : u.Off ∧ u.calls = t.calls := by
  have none := off.expirations t.clock
  cases step_cases hs with
  | runTimer timerfd _ _ => cases same
  | read reading ready => omega
  | readable since polling ready => omega
  | disarm timerfd _ _ =>
    obtain ⟨disarmed, calls⟩ := cleared.disarm hs
    refine ⟨?_, calls⟩
    rw [Off, disarmed]
    rfl
  | _ => exact ⟨off, rfl⟩

/-- The steps of the thread in `runTimer`. -/
def Op.own : Op → Bool
  | .mark | .test | .poll _ | .read _ | .called => true
  | _ => false

/-- They, and time. -/
def Op.continues : Op → Bool
  | .elapse _ => true
  | op => op.own

/-- It is on a way that does not lead out: at the read that blocks, or in the loop although
the timer will not expire. -/
def Stuck (t : Timer) : Prop :=
  t.phase = .reading ∨ t.phase = .marking ∨
    t.is_started_ = true ∧ (t.phase = .testing ∨ ∃ since, t.phase = .polling since)

theorem Stuck.started {t : Timer} (stuck : t.Stuck) (read : t.phase ≠ .reading)
    (marked : t.phase ≠ .marking) : t.is_started_ = true :=
  ((stuck.resolve_left read).resolve_left marked).1

theorem Stuck.step {t u : Timer} (stuck : t.Stuck) (off : t.Off) {op : Op}
    (own : op.continues) (hs : t.step op = .ok u) : u.Stuck := by
  have none := off.expirations t.clock
  cases step_cases hs with
  | runTimer _ _ _ => cases own
  | setTimer _ _ => cases own
  | clear => cases own
  | disarm _ _ _ => cases own
  | unmark _ => cases own
  | read _ ready => omega
  | readable _ _ ready => omega
  | mark at_ => exact .inr (.inr ⟨rfl, .inl rfl⟩)
  | goesOn _ started => exact .inr (.inr ⟨started, .inr ⟨_, rfl⟩⟩)
  | leaves at_ ended =>
    rw [stuck.started (by rw [at_]; nofun) (by rw [at_]; nofun)] at ended
    cases ended
  | timeout _ at_ _ _ | called at_ =>
    exact .inr (.inr ⟨stuck.started (by rw [at_]; nofun) (by rw [at_]; nofun), .inl rfl⟩)
  | elapse d => exact stuck

theorem Stuck.inside {t : Timer} (stuck : t.Stuck) : t.phase ≠ .outside := by
  rcases stuck with is | is | ⟨_, is | ⟨since, is⟩⟩ <;> rw [is] <;> exact nofun

/-- `is_started_` is reset in time. -/
structure Leaving (t : Timer) : Prop where
  off : t.Off
  cleared : t.Cleared
  ended : t.is_started_ = false
  ahead : t.phase ≠ .reading ∧ t.phase ≠ .marking

/-- The steps up to the return. -/
def left (t : Timer) : Nat :=
  match t.phase with
  | .polling _ | .calling => 2
  | .testing => 1
  | _ => 0

theorem Leaving.step {t u : Timer} (h : Leaving t) {op : Op} (apart : t.Uncrossed op)
    (same : op.runs = false) (hs : t.step op = .ok u) :
    Leaving u ∧ u.left + (op.own).toNat ≤ t.left := by
  obtain ⟨off, cleared, ended, open_, marked⟩ := h
  have none := off.expirations t.clock
  have later := (off.step cleared same hs).1
  have cleared' := cleared.step apart hs
  cases step_cases hs with
  | runTimer _ _ _ => cases same
  | read _ ready => omega
  | readable _ _ ready => omega
  | mark at_ => exact absurd at_ marked
  | goesOn _ started =>
    rw [ended] at started
    cases started
  | leaves at_ _ | timeout _ at_ _ _ | called at_ =>
    refine ⟨⟨later, cleared', ended, nofun, nofun⟩, ?_⟩
    rw [left, left, at_]
    exact Nat.le_refl _
  | unmark _ => exact ⟨⟨later, cleared', rfl, open_, marked⟩, Nat.le_refl _⟩
  | _ => exact ⟨⟨later, cleared', ended, open_, marked⟩, Nat.le_refl _⟩

theorem run_after {t u : Timer} {op : Op} {d : Nat}
    (h : Timer.step { t with clock := t.clock + d } op = .ok u) :
    run Timer.step t [.elapse d, op] = .ok u := by
  rw [run_cons_ok (t := { t with clock := t.clock + d }) rfl, run_cons_ok h]
  rfl

/-- At most the 10 s of `::poll` keep it from going on. -/
theorem Leaving.enabled {t : Timer} (h : Leaving t) (inside : t.phase ≠ .outside) :
    ∃ d op, Op.own op ∧ ∃ u, run Timer.step t [.elapse d, op] = .ok u := by
  cases at_ : t.phase with
  | outside => exact absurd at_ inside
  | marking => exact absurd at_ h.ahead.2
  | reading => exact absurd at_ h.ahead.1
  | testing => exact ⟨0, .test, rfl, _, run_after (guarded_ok.mpr ⟨at_, rfl⟩)⟩
  | calling => exact ⟨0, .called, rfl, _, run_after (guarded_ok.mpr ⟨at_, rfl⟩)⟩
  | polling since =>
    refine ⟨since + pollTimeout, .poll .timeout, rfl,
      { t with clock := t.clock + (since + pollTimeout), phase := .testing }, run_after ?_⟩
    simp only [Timer.step, at_]
    exact guarded_ok.mpr ⟨⟨h.off.expirations _, Nat.le_add_left _ _⟩, rfl⟩

/-- `::poll` has reported the descriptor when `cannelTimer` comes. -/
def reported : List Op :=
  [.setTimer 1 0, .runTimer, .mark, .test, .elapse (10 ^ 9), .poll .readable, .clear]

end Timer

end ZDQ
