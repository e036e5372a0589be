import ThreadAndNet.OrderedSet
import ThreadAndNet.Timestamp
import Mathlib.Data.Prod.Lex

/-!
# The queue of timers

`timers_` orders timers by expiration and then by address; the heap holds the
`TimerInfo` objects, and an address may be used again once it was freed. A timer is
known by its `sequence_`. What a timer's callback does to the queue, adding timers,
comes with the step in which it runs.
-/

namespace ZDQ

open Machine

structure TimerInfo where
  expiration : ℤ
  interval : Binary64
  sequence : ℕ

namespace TimerInfo

/-- `repeat_` is `interval > 0.0`. -/
def IsRepeat (t : TimerInfo) : Bool := t.interval.positive

def restart (t : TimerInfo) (now : ℤ) : Except Failure TimerInfo :=
  if t.IsRepeat then
    match Timestamp.nowAfter now t.interval with
    | .error e => .error e
    | .ok expiration => .ok { t with expiration := expiration }
  else .ok { t with expiration := 0 }

end TimerInfo

/-- A timestamp and the address of a `TimerInfo`, compared as `std::pair` does. -/
abbrev Entry := ℤ ×ₗ ℕ

namespace Entry

def time (e : Entry) : ℤ := (ofLex e).1
def timer (e : Entry) : ℕ := (ofLex e).2

end Entry

/-- What happened to a timer. -/
inductive TimerEvent where
  | added (timer : ℕ) (expiration : ℤ) (interval : Binary64)
  | ran (timer : ℕ) (expiration now : ℤ)
  | putBack (timer : ℕ) (now expiration : ℤ)
  | freed (timer : ℕ)
deriving DecidableEq

def TimerEvent.timer : TimerEvent → ℕ
  | .added timer _ _ => timer
  | .ran timer _ _ => timer
  | .putBack timer _ _ => timer
  | .freed timer => timer

structure TimeQueue where
  timers : OrderedSet Entry
  heap : ℕ → Option TimerInfo
  /-- `s_numCreated_` -/
  numCreated : ℕ
  /-- the expirations `timerfd_` was set to, the oldest first -/
  settings : List ℤ
  history : List TimerEvent

namespace TimeQueue

def UINTPTR_MAX : ℕ := 2 ^ 64 - 1

def new : TimeQueue := ⟨.empty, fun _ => none, 0, [], []⟩

def see (q : TimeQueue) (x : TimerEvent) : TimeQueue := { q with history := q.history ++ [x] }

def putInfo (q : TimeQueue) (address : ℕ) (info : Option TimerInfo) : TimeQueue :=
  { q with heap := Function.update q.heap address info }

def resetTimerfd (q : TimeQueue) (expiration : ℤ) : TimeQueue :=
  { q with settings := q.settings ++ [expiration] }

/-- Insert into `timers_`, and set `timerfd_` if this is the earliest timer; the
comparison is with what was the first element before. -/
def insert (q : TimeQueue) (e : Entry) : TimeQueue :=
  let first := q.timers.toList.head?
  let q := { q with timers := q.timers.insert e }
  match first with
  | none => q.resetTimerfd e.time
  | some first => if e.time < first.time then q.resetTimerfd e.time else q

def addTimerInloop (q : TimeQueue) (timer : ℕ) : Except Failure TimeQueue :=
  match q.heap timer with
  | none => .error .undefined
  | some info => .ok (q.insert (toLex (info.expiration, timer)))

/-- The arguments of `addTimer`, and the address `new` returns in it. -/
structure Addition where
  address : ℕ
  when : ℤ
  interval : Binary64

/-- `addTimer` on the loop's thread. -/
def addTimer (q : TimeQueue) (a : Addition) : Except Failure TimeQueue :=
  if a.address < UINTPTR_MAX ∧ (q.heap a.address).isNone then
    let sequence := q.numCreated + 1
    let q := { q with numCreated := sequence }
    ((q.putInfo a.address (some ⟨a.when, a.interval, sequence⟩)).see
      (.added sequence a.when a.interval)).addTimerInloop a.address
  else .error .disabled

/-- `now_entry`: no address is `UINTPTR_MAX`. -/
def nowEntry (now : ℤ) : Entry := toLex (now, UINTPTR_MAX)

def getAllExpiredTimers (q : TimeQueue) (now : ℤ) : Except Failure (List Entry × TimeQueue) :=
  let rest := q.timers.eraseBelow (nowEntry now)
  if (match rest.toList.head? with
      | none => true
      | some first => now < first.time) then
    .ok (q.timers.below (nowEntry now), { q with timers := rest })
  else .error .assertion

/-- `run` of one expired timer; its callback adds these timers. -/
def runTimer (now : ℤ) (callback : ℕ → List Addition) (q : TimeQueue) (e : Entry) :
    Except Failure TimeQueue :=
  match q.heap e.timer with
  | none => .error .undefined
  | some info =>
    run addTimer (q.see (.ran info.sequence info.expiration now)) (callback info.sequence)

/-- The loop body of `reset`. -/
def resetTimer (now : ℤ) (q : TimeQueue) (e : Entry) : Except Failure TimeQueue :=
  match q.heap e.timer with
  | none => .error .undefined
  | some info =>
    if info.IsRepeat then
      match info.restart now with
      | .error f => .error f
      | .ok info =>
        .ok (((q.putInfo e.timer (some info)).see
          (.putBack info.sequence now info.expiration)).insert
            (toLex (info.expiration, e.timer)))
    else .ok ((q.putInfo e.timer none).see (.freed info.sequence))

def reset (q : TimeQueue) (expired : List Entry) (now : ℤ) : Except Failure TimeQueue :=
  run (resetTimer now) q expired

/-- `handleRead` with this reading of the clock; `callback` says what the callback of
each timer adds. -/
def handleRead (q : TimeQueue) (now : ℤ) (callback : ℕ → List Addition) :
    Except Failure TimeQueue :=
  match q.getAllExpiredTimers now with
  | .error e => .error e
  | .ok (expired, q) =>
    match run (runTimer now callback) q expired with
    | .error e => .error e
    | .ok q => q.reset expired now

inductive Op where
  | addTimer (a : Addition)
  | handleRead (now : ℤ) (callback : ℕ → List Addition)

def step (q : TimeQueue) : Op → Except Failure TimeQueue
  | .addTimer a => q.addTimer a
  | .handleRead now callback => q.handleRead now callback

end TimeQueue

end ZDQ
