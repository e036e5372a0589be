import ThreadAndNet.TimeQueue

/-!
# The descriptor behind the queue of timers

`timerfd_` belongs to the kernel: it expires once, at the instant it was last set to,
and is readable from then on until it is read or set again. `TimeQueue::handleRead`
does not read it. There is one clock, in microseconds; the kernel counts nanoseconds.
-/

namespace ZDQ

open Machine

inductive Timerfd where
  | disarmed
  /-- set when the clock read `setAt`, to expire at the nanosecond `expiry` -/
  | armed (setAt expiry : ℤ)

namespace Timerfd

/-- `timerfd_settime` with a relative value; a zero value disarms. -/
def settime (clock tv_sec tv_nsec : ℤ) : Timerfd :=
  if tv_sec = 0 ∧ tv_nsec = 0 then .disarmed
  else .armed clock (clock * 1000 + tv_sec * 10 ^ 9 + tv_nsec)

def Readable (fd : Timerfd) (clock : ℤ) : Prop :=
  match fd with
  | .disarmed => False
  | .armed _ expiry => expiry ≤ clock * 1000

instance (fd : Timerfd) (clock : ℤ) : Decidable (fd.Readable clock) :=
  match fd with
  | .disarmed => .isFalse id
  | .armed _ expiry => inferInstanceAs (Decidable (expiry ≤ clock * 1000))

/-- Set to expire at `when`, but not within 100 microseconds. -/
def ArmedFor (fd : Timerfd) (when : ℤ) : Prop :=
  ∃ setAt, fd = .armed setAt (max when (setAt + 100) * 1000)

/-- `howMuchTimeFromNow`: `tv_sec` and `tv_nsec`. -/
def howMuchTimeFromNow (when now : ℤ) : Except Failure (ℤ × ℤ) :=
  match Timestamp.int64 (some (when - now)) with
  | .error e => .error e
  | .ok microseconds =>
    let microseconds := if microseconds < 100 then 100 else microseconds
    .ok (microseconds / Timestamp.kMicroSecondsPerSecond,
      microseconds % Timestamp.kMicroSecondsPerSecond * 1000)

/-- `resetTimerfd(timerfd, expiration)` when the clock reads `now`. -/
def resetTimerfd (expiration now : ℤ) : Except Failure Timerfd :=
  match howMuchTimeFromNow expiration now with
  | .error e => .error e
  | .ok value => .ok (settime now value.1 value.2)

/-- The value is never zero, so nothing is disarmed. -/
theorem howMuchTimeFromNow_cases {when now : ℤ} {value : ℤ × ℤ}
    (h : howMuchTimeFromNow when now = .ok value) :
    ¬ (value.1 = 0 ∧ value.2 = 0) ∧
      value.1 * 10 ^ 9 + value.2 = max (when - now) 100 * 1000 := by
  unfold howMuchTimeFromNow at h
  split at h
  · cases h
  · rename_i microseconds hfits
    obtain ⟨_, rfl⟩ := Timestamp.int64_cases hfits
    cases h
    have unit : (Timestamp.kMicroSecondsPerSecond : ℤ) = 1000000 := rfl
    rw [unit]
    dsimp only
    split <;> omega

theorem resetTimerfd_cases {expiration now : ℤ} {fd : Timerfd}
    (h : resetTimerfd expiration now = .ok fd) :
    fd = .armed now (max expiration (now + 100) * 1000) := by
  unfold resetTimerfd at h
  split at h
  · cases h
  · rename_i value hvalue
    cases h
    obtain ⟨positive, total⟩ := howMuchTimeFromNow_cases hvalue
    rw [settime, if_neg positive]
    congr 1
    omega

end Timerfd

/-- The queue of timers with its descriptor. -/
structure TimedQueue where
  queue : TimeQueue
  timerfd : Timerfd
  /-- the last reading of the clock -/
  clock : ℤ

namespace TimedQueue

def new (clock : ℤ) : TimedQueue := ⟨.new, .disarmed, clock⟩

/-- A call of `resetTimerfd` with the reading of the clock in it. -/
def resetTimerfd (s : TimedQueue) (call : ℤ × ℤ) : Except Failure TimedQueue :=
  if s.clock ≤ call.2 then
    match Timerfd.resetTimerfd call.1 call.2 with
    | .error e => .error e
    | .ok timerfd => .ok { s with timerfd := timerfd, clock := call.2 }
  else .error .disabled

/-- A step of the queue, the readings of the clock in its calls of `resetTimerfd`, in
order, and the reading when it is over. -/
structure Op where
  op : TimeQueue.Op
  readings : List ℤ
  returned : ℤ

/-- The first reading of a step. -/
def Op.started (clock : ℤ) (o : Op) : ℤ :=
  match o.op with
  | .addTimer _ => clock
  | .handleRead now _ => now

def step (s : TimedQueue) (o : Op) : Except Failure TimedQueue :=
  match s.queue.step o.op with
  | .error e => .error e
  | .ok queue =>
    let settings := queue.settings.drop s.queue.settings.length
    if s.clock ≤ o.started s.clock ∧ settings.length = o.readings.length then
      match run resetTimerfd { s with queue := queue, clock := o.started s.clock }
        (settings.zip o.readings) with
      | .error e => .error e
      | .ok t => if t.clock ≤ o.returned then .ok { t with clock := o.returned }
        else .error .disabled
    else .error .disabled

end TimedQueue

end ZDQ
