import ThreadAndNet.LoopRuns
import ThreadAndNet.LoopWakeup
import ThreadAndNet.TimerRuns
import Mathlib.Data.List.ReduceOption

/-!
# Timers from any thread

Any thread may call `runAt`, `runAfter` and `runEvery`. The `TimerInfo` is made on that thread
and travels as a bare pointer in a functor, so other threads make timers while the loop runs its
functors or is in the middle of `handleRead`. Another functor of the loop is `none`.
-/

namespace ZDQ

open Machine

/-- Where the loop's thread is in `TimeQueue::handleRead`. -/
inductive ReadPhase where
  | outside
  /-- in the loop that runs `expired`, of which `due` are left and `done` behind -/
  | running (now : ℤ) (due done : List Entry)
  /-- in `reset`, with the rest of `expired` -/
  | resetting (now : ℤ) (expired : List Entry)

namespace ReadPhase

def now : ReadPhase → ℤ
  | .outside => 0
  | .running now _ _ => now
  | .resetting now _ => now

def due : ReadPhase → List Entry
  | .running _ due _ => due
  | _ => []

def done : ReadPhase → List Entry
  | .outside => []
  | .running _ _ done => done
  | .resetting _ expired => expired

/-- No user code is called in `reset`. -/
def callsOut : ReadPhase → Bool
  | .resetting _ _ => false
  | _ => true

end ReadPhase

/-- The `new TimerInfo` in `addTimer`. -/
def TimeQueue.newTimer (q : TimeQueue) (a : TimeQueue.Addition) : Except Failure TimeQueue :=
  if a.address < TimeQueue.UINTPTR_MAX ∧ (q.heap a.address).isNone then
    let sequence := q.numCreated + 1
    let q := { q with numCreated := sequence }
    .ok ((q.putInfo a.address (some ⟨a.when, a.interval, sequence⟩)).see
      (.added sequence a.when a.interval))
  else .error .disabled

/-- A loop with its timers; `timeQueue_` has the one channel that matters here. -/
structure LoopTimers where
  queue : TimeQueue
  /-- `some timer` is `addTimerInloop`, bound to the address of a timer -/
  loop : EventLoop Unit (Option ℕ)
  /-- the timers that other threads have made and not passed to `runInLoop` yet -/
  creating : List ℕ
  reading : ReadPhase

namespace LoopTimers

def new : LoopTimers := ⟨.new, .new, [], .outside⟩

/-- The loop's thread runs code of the user. -/
def callsOut (s : LoopTimers) : Bool := s.loop.callsOut && s.reading.callsOut

inductive Op where
  | move (v : EventLoop.Move Unit)
  /-- the next functor is called -/
  | functor
  /-- `appendFuncInLoop` of a functor that adds no timer -/
  | append (isInLoopThread : Bool)
  /-- `addTimer` on the loop's thread -/
  | addTimer (a : TimeQueue.Addition)
  /-- `addTimer` on another thread, up to its `new` -/
  | newTimer (a : TimeQueue.Addition)
  /-- the rest of it -/
  | runInLoop (timer : ℕ)
  /-- the event of `timerfdChannel_`: `handleRead` up to the end of `getAllExpiredTimers` -/
  | handleRead (now : ℤ)
  /-- the callback of the next expired timer is called -/
  | run
  /-- `reset` is called -/
  | reset
  /-- a round of its loop -/
  | resetTimer
  | handleReadReturn

def step (s : LoopTimers) : Op → Except Failure LoopTimers
  | .move v =>
    match s.reading with
    | .outside => (s.loop.move v).map (fun loop => { s with loop := loop })
    | _ => .error .disabled
  | .functor =>
    match s.loop.nextFunctor with
    | .error e => .error e
    | .ok (some timer, loop) =>
      (s.queue.addTimerInloop timer).map (fun queue => { s with queue := queue, loop := loop })
    | .ok (none, loop) => .ok { s with loop := loop }
  | .append isInLoopThread =>
    guarded (isInLoopThread = true → s.callsOut = true)
      { s with loop := s.loop.appendFuncInLoop isInLoopThread none }
  | .addTimer a =>
    if s.callsOut then (s.queue.addTimer a).map (fun queue => { s with queue := queue })
    else .error .disabled
  | .newTimer a =>
    (s.queue.newTimer a).map (fun queue =>
      { s with queue := queue, creating := a.address :: s.creating })
  | .runInLoop timer =>
    guarded (timer ∈ s.creating)
      { s with
        loop := s.loop.runInLoop false (some timer)
        creating := s.creating.erase timer }
  | .handleRead now =>
    match s.reading, s.loop.nextChannel with
    | .outside, .ok ((), loop) =>
      (s.queue.getAllExpiredTimers now).map (fun r =>
        { s with queue := r.2, loop := loop, reading := .running now r.1 [] })
    | _, _ => .error .disabled
  | .run =>
    match s.reading with
    | .running now (e :: due) done =>
      -- what the callback adds, it adds in steps of its own
      (s.queue.runTimer now (fun _ => []) e).map (fun queue =>
        { s with queue := queue, reading := .running now due (done ++ [e]) })
    | _ => .error .disabled
  | .reset =>
    match s.reading with
    | .running now [] done => .ok { s with reading := .resetting now done }
    | _ => .error .disabled
  | .resetTimer =>
    match s.reading with
    | .resetting now (e :: expired) =>
      (s.queue.resetTimer now e).map (fun queue =>
        { s with queue := queue, reading := .resetting now expired })
    | _ => .error .disabled
  | .handleReadReturn =>
    match s.reading with
    | .resetting _ [] => .ok { s with reading := .outside }
    | _ => .error .disabled

/-- A repeating timer that is put back can be put back at the exact time. -/
def OnTime (s : LoopTimers) : Op → Prop
  | .resetTimer => TimeQueue.Punctual s.queue s.reading.now s.reading.done
  | _ => True

/-- The timers a functor is to add. -/
def queued (s : LoopTimers) : List ℕ := s.loop.queued.reduceOption

/-- Wherever a timer can be: with the thread that made it, in a functor, in `timers_`, or among
the expired ones that `handleRead` has taken out. -/
def places (s : LoopTimers) : List ℕ :=
  s.creating ++ s.queued ++
    (s.queue.timers.toList ++ s.reading.due ++ s.reading.done).map Entry.timer

/-- Each living timer is in one place and waits for its expiration, or has just run; each that
is not alive was freed at the end of its story. -/
structure Kept (s : LoopTimers) : Prop where
  once : s.places.Nodup
  living : ∀ p, p ∈ s.places ↔ (s.queue.heap p).isSome
  entries : ∀ e ∈ s.queue.timers.toList ++ s.reading.due, ∃ info,
    s.queue.heap e.timer = some info ∧ info.expiration = e.time
  waiting : ∀ p info, s.queue.heap p = some info → p ∉ s.reading.done.map Entry.timer →
    Story info.sequence info.interval (s.queue.events info.sequence) (.waiting info.expiration)
  running : ∀ p info, s.queue.heap p = some info → p ∈ s.reading.done.map Entry.timer →
    Story info.sequence info.interval (s.queue.events info.sequence) (.running s.reading.now)
  gone : ∀ n, 1 ≤ n → n ≤ s.queue.numCreated →
    (∀ p info, s.queue.heap p = some info → info.sequence ≠ n) →
    ∃ interval, Story n interval (s.queue.events n) .gone

end LoopTimers

/-! ## The queue as it would be without the way through the loop -/

namespace TimeQueue

/-- A queue `a` that has the same timers as `q`, and those of `pend` in `timers_` already. -/
structure Ahead (a q : TimeQueue) (pend : List Entry) : Prop where
  heap : a.heap = q.heap
  history : a.history = q.history
  numCreated : a.numCreated = q.numCreated
  timers : a.timers.toList.Perm (q.timers.toList ++ pend)

section
variable {a q r : TimeQueue} {pend : List Entry}

theorem Ahead.found (h : Ahead a q pend) {p : ℕ} {info : TimerInfo} (live : a.heap p = some info) :
    q.heap p = some info := by
  rw [← h.heap]
  exact live

theorem Ahead.insert_perm (h : Ahead a q pend) {e : Entry} (new : e ∉ a.timers.toList) :
    (a.timers.insert e).toList.Perm ((q.timers.insert e).toList ++ pend) := by
  have absent : e ∉ q.timers.toList := fun mem =>
    new (h.timers.mem_iff.mpr (List.mem_append_left pend mem))
  calc (a.timers.insert e).toList.Perm (e :: a.timers.toList) := OrderedSet.insert_perm new
    _ |>.Perm (e :: (q.timers.toList ++ pend)) := h.timers.cons e
    _ |>.Perm ((q.timers.insert e).toList ++ pend) :=
        (OrderedSet.insert_perm absent).symm.append_right pend

theorem Ahead.insert (h : Ahead a q pend) {e : Entry} (new : e ∉ a.timers.toList) :
    Ahead (a.insert e) (q.insert e) pend := by
  refine ⟨by simp [h.heap], by simp [h.history], by simp [h.numCreated], ?_⟩
  rw [timers_insert, timers_insert]
  exact h.insert_perm new

/-- It arrives. -/
theorem Ahead.arrive {e : Entry} (h : Ahead a q (e :: pend)) : Ahead a (q.insert e) pend := by
  have apart : (q.timers.toList ++ e :: pend).Nodup :=
    h.timers.nodup_iff.mp (a.timers.sorted.imp ne_of_lt)
  have absent : e ∉ q.timers.toList := fun mem =>
    (List.nodup_append.mp apart).2.2 e mem e List.mem_cons_self rfl
  refine ⟨by simp [h.heap], by simp [h.history], by simp [h.numCreated], ?_⟩
  rw [timers_insert]
  calc a.timers.toList.Perm (q.timers.toList ++ e :: pend) := h.timers
    _ |>.Perm (e :: (q.timers.toList ++ pend)) := List.perm_middle
    _ |>.Perm ((q.timers.insert e).toList ++ pend) :=
        (OrderedSet.insert_perm absent).symm.append_right pend

theorem Ahead.see (h : Ahead a q pend) (x : TimerEvent) : Ahead (a.see x) (q.see x) pend :=
  ⟨h.heap, congrArg (· ++ [x]) h.history, h.numCreated, h.timers⟩

theorem Ahead.putInfo (h : Ahead a q pend) (p : ℕ) (info : Option TimerInfo) :
    Ahead (a.putInfo p info) (q.putInfo p info) pend :=
  ⟨by simp only [TimeQueue.putInfo, h.heap], h.history, h.numCreated, h.timers⟩

theorem Ahead.of_perm (h : Ahead a q pend) {pend' : List Entry} (perm : pend.Perm pend') :
    Ahead a q pend' :=
  ⟨h.heap, h.history, h.numCreated, h.timers.trans (perm.append_left _)⟩

/-- `addTimer` is the `new` and the insertion. -/
theorem addTimer_eq (q : TimeQueue) (a : Addition) : q.addTimer a =
    (q.newTimer a).map (fun r => r.insert (toLex (a.when, a.address))) := by
  unfold addTimer newTimer
  split
  · simp only [addTimerInloop, heap_see, heap_putInfo_self]
    rfl
  · rfl

theorem newTimer_timers {a : Addition} (h : q.newTimer a = .ok r) : r.timers = q.timers := by
  unfold newTimer at h
  split at h
  · cases h
    rfl
  · cases h

theorem newTimer_disabled {a : Addition} {f : Failure} (h : q.newTimer a = .error f) :
    f = .disabled := by
  refine addTimer_disabled (q := q) (a := a) ?_
  rw [addTimer_eq, h]
  rfl

theorem Ahead.added {b : TimeQueue} (h : Ahead a q pend) {x : Addition} (added : Added q b x) :
    Added a { b with timers := a.timers.insert (toLex (x.when, x.address)) } x :=
  ⟨added.small, by rw [h.heap, added.free], rfl, by rw [h.numCreated]; exact added.self,
    fun p other => by rw [h.heap]; exact added.others p other,
    by rw [h.numCreated]; exact added.numCreated,
    by rw [h.history, h.numCreated]; exact added.history⟩

theorem Inv.added_new {now : ℤ} {due done : List Entry} (inv : Inv a now due done) {x : Addition}
    (added : Added a r x) : toLex (x.when, x.address) ∉ a.timers.toList := fun mem =>
  inv.added_fresh added _ (List.mem_append_left _ (List.mem_append_left _ mem)) rfl

end

end TimeQueue

namespace LoopTimers

/-- The queue is behind one that knows the timers of all threads from the start. -/
structure Follows (s : LoopTimers) (a : TimeQueue) (pend : List Entry) : Prop where
  ahead : TimeQueue.Ahead a s.queue pend
  pending : (pend.map Entry.timer).Perm (s.creating ++ s.queued)
  inv : TimeQueue.Inv a s.reading.now s.reading.due s.reading.done
  left : s.loop.Left

/-- No step fails, and what it leads to follows some such queue. -/
def Sound : Except Failure LoopTimers → Prop
  | .ok t => ∃ a pend, Follows t a pend
  | .error f => f = .disabled

variable {s t : LoopTimers} {a : TimeQueue} {pend : List Entry}

theorem new_follows : Follows new .new [] :=
  ⟨⟨rfl, rfl, rfl, .refl _⟩, .refl _, TimeQueue.new_inv 0, fun _ => rfl⟩

theorem Follows.reading_inv (h : Follows s a pend) {phase : ReadPhase}
    (reading : s.reading = phase) : TimeQueue.Inv a phase.now phase.due phase.done := by
  rw [← reading]
  exact h.inv

/-- A timer on its way has an entry that is pending, and is still there. -/
theorem Follows.pending_entry (h : Follows s a pend) {timer : ℕ} (mem : timer ∈ s.queued) :
    ∃ e ∈ pend, e.timer = timer ∧ ∃ info,
      s.queue.heap timer = some info ∧ info.expiration = e.time := by
  have travels : timer ∈ pend.map Entry.timer :=
    h.pending.mem_iff.mpr (List.mem_append_right _ mem)
  obtain ⟨e, there, rfl⟩ := List.mem_map.mp travels
  obtain ⟨info, time, here⟩ := h.inv.waiting e
    (List.mem_append_left _ (h.ahead.timers.mem_iff.mpr (List.mem_append_right _ there)))
  exact ⟨e, there, rfl, info, h.ahead.found here.live, time⟩

/-! ## The loop -/

/-- The loop has gone on, and nothing else. -/
theorem Follows.onLoop (h : Follows s a pend) {loop : EventLoop Unit (Option ℕ)}
    (queued : loop.queued.reduceOption = s.loop.queued.reduceOption) (left : loop.Left) :
    Follows { s with loop := loop } a pend :=
  ⟨h.ahead, h.pending.trans (.of_eq (by rw [LoopTimers.queued, LoopTimers.queued, queued])),
    h.inv, left⟩

theorem sound_move (h : Follows s a pend) (v : EventLoop.Move Unit) : Sound (s.step (.move v)) := by
  simp only [step]
  split
  · cases moved : s.loop.move v with
    | error f => exact EventLoop.move_error h.left moved
    | ok loop =>
      exact ⟨a, pend, h.onLoop (by rw [(EventLoop.move_cases moved).1]) (EventLoop.move_left moved)⟩
  · rfl

theorem sound_append (h : Follows s a pend) (isInLoopThread : Bool) :
    Sound (s.step (.append isInLoopThread)) := by
  simp only [step, guarded]
  split
  · refine ⟨a, pend, h.onLoop ?_ (h.left.append isInLoopThread none)⟩
    simp [List.reduceOption_append]
  · rfl

/-- A functor that adds a timer finds it, and the timer arrives. -/
theorem sound_functor (h : Follows s a pend) : Sound (s.step .functor) := by
  simp only [step]
  cases next : s.loop.nextFunctor with
  | error f => exact EventLoop.nextFunctor_error next
  | ok r =>
    obtain ⟨cb, loop⟩ := r
    have queued := (EventLoop.nextFunctor_cases next).1
    have left : loop.Left := EventLoop.nextFunctor_left next
    cases cb with
    | none =>
      refine ⟨a, pend, h.onLoop ?_ left⟩
      rw [queued, List.reduceOption_cons_of_none]
    | some timer =>
      have first : s.queued = timer :: loop.queued.reduceOption := by
        rw [LoopTimers.queued, queued, List.reduceOption_cons_of_some]
      obtain ⟨e, mem, rfl, info, found, time⟩ :=
        h.pending_entry (first.symm ▸ List.mem_cons_self)
      have perm := List.perm_cons_erase mem
      have inserted : s.queue.addTimerInloop e.timer = .ok (s.queue.insert e) := by
        simp only [TimeQueue.addTimerInloop, found, time]
        rfl
      dsimp only
      rw [inserted]
      refine ⟨a, pend.erase e, (h.ahead.of_perm perm).arrive, ?_, h.inv, left⟩
      have others := (perm.map Entry.timer).symm.trans h.pending
      rw [first] at others
      exact (others.trans List.perm_middle).cons_inv

/-! ## Adding timers -/

theorem sound_addTimer (h : Follows s a pend) (x : TimeQueue.Addition) :
    Sound (s.step (.addTimer x)) := by
  simp only [step]
  split
  · cases made : s.queue.addTimer x with
    | error f => exact TimeQueue.addTimer_disabled made
    | ok queue =>
      have added := TimeQueue.addTimer_added made
      have adds := h.ahead.added added
      refine ⟨{ queue with timers := a.timers.insert (toLex (x.when, x.address)) }, pend,
        ⟨rfl, rfl, rfl, ?_⟩, h.pending, h.inv.added adds, h.left⟩
      rw [added.timers]
      exact h.ahead.insert_perm (h.inv.added_new adds)
  · rfl

theorem sound_newTimer (h : Follows s a pend) (x : TimeQueue.Addition) :
    Sound (s.step (.newTimer x)) := by
  simp only [step]
  cases made : s.queue.newTimer x with
  | error f => exact TimeQueue.newTimer_disabled made
  | ok queue =>
    have whole := TimeQueue.addTimer_eq s.queue x
    rw [made] at whole
    have adds := h.ahead.added (TimeQueue.addTimer_added whole)
    have same := TimeQueue.newTimer_timers made
    refine ⟨_, toLex (x.when, x.address) :: pend, ⟨?_, ?_, ?_, ?_⟩, h.pending.cons x.address,
      h.inv.added adds, h.left⟩
    · exact TimeQueue.heap_insert ..
    · exact TimeQueue.history_insert ..
    · exact TimeQueue.numCreated_insert ..
    · rw [same]
      exact (OrderedSet.insert_perm (h.inv.added_new adds)).trans
        ((h.ahead.timers.cons _).trans List.perm_middle.symm)

theorem sound_runInLoop (h : Follows s a pend) (timer : ℕ) :
    Sound (s.step (.runInLoop timer)) := by
  simp only [step, guarded]
  split
  · rename_i mem
    refine ⟨a, pend, h.ahead, h.pending.trans ?_, h.inv, h.left.append false (some timer)⟩
    have moved : (s.creating ++ s.queued).Perm (timer :: (s.creating.erase timer ++ s.queued)) :=
      (List.perm_cons_erase mem).append_right s.queued
    refine moved.trans ?_
    simp only [LoopTimers.queued, EventLoop.runInLoop, Bool.false_eq_true, if_false,
      EventLoop.queued_appendFuncInLoop, List.reduceOption_append, List.reduceOption_singleton]
    rw [← List.append_assoc]
    exact (List.perm_append_singleton timer _).symm
  · rfl

/-! ## Reading -/

theorem sound_handleRead (h : Follows s a pend) (now : ℤ) : Sound (s.step (.handleRead now)) := by
  simp only [step]
  split
  · rename_i loop outside next
    have inv : TimeQueue.Inv a 0 [] [] := h.reading_inv outside
    have small : ∀ e ∈ s.queue.timers.toList, e.timer < TimeQueue.UINTPTR_MAX := by
      intro e mem
      have mem := h.ahead.timers.mem_iff.mpr (List.mem_append_left pend mem)
      obtain ⟨info, live⟩ := inv.live (List.mem_append_left _ (List.mem_append_left _ mem))
      exact inv.address _ _ live
    obtain ⟨taken, split⟩ := TimeQueue.getAllExpiredTimers_eq small now
    have whole : ((s.queue.timers.eraseBelow (TimeQueue.nowEntry now)).toList ++ pend ++
        s.queue.dueAt now).Perm a.timers.toList :=
      calc ((s.queue.timers.eraseBelow (TimeQueue.nowEntry now)).toList ++ pend ++
            s.queue.dueAt now).Perm (s.queue.dueAt now ++
              ((s.queue.timers.eraseBelow (TimeQueue.nowEntry now)).toList ++ pend)) :=
            List.perm_append_comm
        _ |>.Perm (s.queue.timers.toList ++ pend) := .of_eq (by rw [← List.append_assoc, split])
        _ |>.Perm a.timers.toList := h.ahead.timers.symm
    obtain ⟨timers, same⟩ := OrderedSet.exists_of_nodup (List.nodup_append.mp
      (whole.nodup_iff.mpr (a.timers.sorted.imp ne_of_lt))).1
    rw [taken]
    refine ⟨{ a with timers := timers }, pend, ⟨h.ahead.heap, h.ahead.history, h.ahead.numCreated,
      same⟩, h.pending.trans (.of_eq ?_), ?_, EventLoop.nextChannel_left next⟩
    · rw [LoopTimers.queued, LoopTimers.queued, (EventLoop.nextChannel_cases next).1]
    · refine (inv.anytime now).regroup rfl rfl rfl ?_ ?_
      · rw [List.append_nil]
        exact (same.append_right _).trans whole
      · exact fun e mem => of_decide_eq_true (List.mem_filter.mp mem).2
  · rfl

theorem sound_run (h : Follows s a pend) : Sound (s.step .run) := by
  simp only [step]
  split
  · rename_i now e due done reading
    have inv : TimeQueue.Inv a now (e :: due) done := h.reading_inv reading
    obtain ⟨info, live⟩ := inv.live (e := e) (by simp)
    have found := h.ahead.found live
    have ran : s.queue.runTimer now (fun _ => []) e =
        .ok (s.queue.see (.ran info.sequence info.expiration now)) := by
      simp only [TimeQueue.runTimer, found, run_nil]
    rw [ran]
    refine ⟨a.see (.ran info.sequence info.expiration now), pend, h.ahead.see _, h.pending, ?_,
      h.left⟩
    exact (inv.ran live).perm_done (List.perm_append_singleton e done).symm
  · rfl

theorem sound_reset (h : Follows s a pend) : Sound (s.step .reset) := by
  simp only [step]
  split
  · rename_i now done reading
    have inv : TimeQueue.Inv a now [] done := h.reading_inv reading
    exact ⟨a, pend, h.ahead, h.pending, inv, h.left⟩
  · rfl

/-- A round of `reset` frees the timer or puts it back; the pending ones stay aside. -/
theorem sound_resetTimer (h : Follows s a pend) (onTime : s.OnTime .resetTimer) :
    Sound (s.step .resetTimer) := by
  simp only [step]
  split
  · rename_i now e expired reading
    have inv : TimeQueue.Inv a now [] (e :: expired) := h.reading_inv reading
    have onTime : TimeQueue.Punctual s.queue now (e :: expired) := by
      rwa [OnTime, reading] at onTime
    obtain ⟨info, here⟩ := inv.running e List.mem_cons_self
    have live := here.live
    have found := h.ahead.found live
    cases again : info.IsRepeat with
    | true =>
      obtain ⟨delta, whole, exact⟩ := onTime e List.mem_cons_self info found again
      have new : toLex (now + delta, e.timer) ∉ a.timers.toList := fun mem =>
        inv.apart List.perm_middle (List.mem_append_left _ (List.mem_append_left _ mem)) rfl
      rw [TimeQueue.resetTimer_putBack found again whole exact]
      exact ⟨_, pend, ((h.ahead.putInfo e.timer _).see _).insert new, h.pending,
        inv.putBack live again whole rfl, h.left⟩
    | false =>
      rw [TimeQueue.resetTimer_freed found again]
      exact ⟨_, pend, (h.ahead.putInfo e.timer none).see _, h.pending, inv.freed live again, h.left⟩
  · rfl

theorem sound_handleReadReturn (h : Follows s a pend) : Sound (s.step .handleReadReturn) := by
  simp only [step]
  split
  · rename_i now reading
    have inv : TimeQueue.Inv a now [] [] := h.reading_inv reading
    exact ⟨a, pend, h.ahead, h.pending, inv.anytime 0, h.left⟩
  · rfl

theorem sound_step (h : Follows s a pend) {op : Op} (onTime : s.OnTime op) : Sound (s.step op) := by
  cases op with
  | move v => exact sound_move h v
  | functor => exact sound_functor h
  | append isInLoopThread => exact sound_append h isInLoopThread
  | addTimer x => exact sound_addTimer h x
  | newTimer x => exact sound_newTimer h x
  | runInLoop timer => exact sound_runInLoop h timer
  | handleRead now => exact sound_handleRead h now
  | run => exact sound_run h
  | reset => exact sound_reset h
  | resetTimer => exact sound_resetTimer h onTime
  | handleReadReturn => exact sound_handleReadReturn h

/-! ## `handleRead` without interruption -/

theorem reaches_addTimers {now : ℤ} {due done : List Entry}
    (reading : s.reading = .running now due done) (called : s.loop.callsOut = true)
    {additions : List TimeQueue.Addition} {q : TimeQueue}
    (h : Machine.run TimeQueue.addTimer s.queue additions = .ok q) :
    Reaches step s { s with queue := q } := by
  induction additions generalizing s with
  | nil =>
    cases h
    exact .refl s
  | cons x rest ih =>
    obtain ⟨m, added, later⟩ := run_cons_inv h
    refine (Reaches.one (.addTimer x) ?_).trans
      (ih (s := { s with queue := m }) reading called later)
    simp only [step, callsOut, called, reading, ReadPhase.callsOut, Bool.and_self, if_true, added]
    rfl

theorem reaches_runs {now : ℤ} {due done : List Entry} {callback : ℕ → List TimeQueue.Addition}
    {q : TimeQueue} (reading : s.reading = .running now due done)
    (called : s.loop.callsOut = true)
    (h : Machine.run (TimeQueue.runTimer now callback) s.queue due = .ok q) :
    Reaches step s { s with queue := q, reading := .running now [] (done ++ due) } := by
  induction due generalizing s done with
  | nil =>
    cases h
    rw [List.append_nil, ← reading]
    exact .refl s
  | cons e rest ih =>
    obtain ⟨m, ran, later⟩ := run_cons_inv h
    unfold TimeQueue.runTimer at ran
    split at ran
    · cases ran
    rename_i info live
    let begun : LoopTimers := { s with
      queue := s.queue.see (.ran info.sequence info.expiration now)
      reading := .running now rest (done ++ [e]) }
    have calls : s.step .run = .ok begun := by
      simp only [step, reading, TimeQueue.runTimer, live, run_nil]
      rfl
    have added : Reaches step begun { begun with queue := m } :=
      reaches_addTimers (s := begun) rfl called ran
    have last := ih (s := { begun with queue := m }) rfl called later
    rw [List.append_assoc, List.singleton_append] at last
    exact ((Reaches.one .run calls).trans added).trans last

theorem reaches_resets {now : ℤ} {expired : List Entry} {q : TimeQueue}
    (reading : s.reading = .resetting now expired) (h : s.queue.reset expired now = .ok q) :
    Reaches step s { s with queue := q, reading := .resetting now [] } := by
  induction expired generalizing s with
  | nil =>
    cases h
    rw [← reading]
    exact .refl s
  | cons e rest ih =>
    obtain ⟨m, first, later⟩ := run_cons_inv h
    refine (Reaches.one .resetTimer ?_).trans
      (ih (s := { s with queue := m, reading := .resetting now rest }) rfl later)
    simp only [step, reading, first]
    rfl

/-- Where no other thread interferes, these steps are those of the queue on its own. -/
theorem reaches_handleRead {loop : EventLoop Unit (Option ℕ)} (outside : s.reading = .outside)
    (next : s.loop.nextChannel = .ok ((), loop)) {now : ℤ}
    {callback : ℕ → List TimeQueue.Addition} {q : TimeQueue}
    (h : s.queue.handleRead now callback = .ok q) :
    Reaches step s { s with queue := q, loop := loop } := by
  unfold TimeQueue.handleRead at h
  split at h
  · cases h
  rename_i expired taken first
  split at h
  · cases h
  rename_i ran second
  have called : loop.callsOut = true := by
    obtain ⟨rest, _, rfl⟩ := EventLoop.nextChannel_phase next
    rfl
  let begun : LoopTimers := { s with
    queue := taken, loop := loop, reading := .running now expired [] }
  have starts : s.step (.handleRead now) = .ok begun := by
    simp only [step, outside, next, first]
    rfl
  have runs : Reaches step begun { begun with queue := ran, reading := .running now [] expired } :=
    reaches_runs (s := begun) rfl called second
  let reset : LoopTimers := { begun with queue := ran, reading := .resetting now expired }
  have resets : Reaches step reset { reset with queue := q, reading := .resetting now [] } :=
    reaches_resets (s := reset) rfl h
  have returns : Reaches step { reset with queue := q, reading := .resetting now [] }
      { reset with queue := q, reading := .outside } := .one .handleReadReturn rfl
  have there := (((Reaches.one _ starts).trans runs).trans (Reaches.one .reset rfl)).trans
    (resets.trans returns)
  rw [← outside] at there
  exact there

/-! ## Every run -/

theorem Follows.places_perm (h : Follows s a pend) :
    ((a.timers.toList ++ s.reading.due ++ s.reading.done).map Entry.timer).Perm s.places :=
  calc ((a.timers.toList ++ s.reading.due ++ s.reading.done).map Entry.timer).Perm
        ((s.queue.timers.toList ++ pend ++ s.reading.due ++ s.reading.done).map Entry.timer) :=
        ((h.ahead.timers.append_right _).append_right _).map _
    _ |>.Perm ((pend ++ s.queue.timers.toList ++ s.reading.due ++ s.reading.done).map
          Entry.timer) :=
        ((List.perm_append_comm.append_right _).append_right _).map _
    _ |>.Perm (pend.map Entry.timer ++ (s.queue.timers.toList ++ s.reading.due ++
          s.reading.done).map Entry.timer) :=
        .of_eq (by simp only [List.map_append, List.append_assoc])
    _ |>.Perm s.places := h.pending.append_right _

/-- A living timer has an entry in the queue that is ahead. -/
theorem Follows.entry (h : Follows s a pend) {p : ℕ} {info : TimerInfo}
    (live : s.queue.heap p = some info) : a.heap p = some info ∧ ∃ e, e.timer = p ∧
      (e ∈ a.timers.toList ++ s.reading.due ∨ e ∈ s.reading.done) := by
  rw [← h.ahead.heap] at live
  obtain ⟨e, mem, same⟩ := List.mem_map.mp (h.inv.listed p info live)
  exact ⟨live, e, same, List.mem_append.mp mem⟩

theorem Follows.kept (h : Follows s a pend) : Kept s := by
  have events : ∀ n, s.queue.events n = a.events n := fun n => by
    rw [TimeQueue.events, TimeQueue.events, h.ahead.history]
  refine ⟨h.places_perm.nodup_iff.mp h.inv.nodup, fun p => ⟨fun mem => ?_, fun live => ?_⟩, ?_,
    fun p info live out => ?_, fun p info live ran => ?_, fun n low high dead => ?_⟩
  · obtain ⟨e, there, rfl⟩ := List.mem_map.mp (h.places_perm.mem_iff.mpr mem)
    obtain ⟨info, live⟩ := h.inv.live there
    rw [← h.ahead.heap, live]
    rfl
  · obtain ⟨info, live⟩ := Option.isSome_iff_exists.mp live
    rw [← h.ahead.heap] at live
    exact h.places_perm.mem_iff.mp (h.inv.listed p info live)
  · intro e mem
    obtain ⟨info, time, here⟩ := h.inv.waiting e ((List.mem_append.mp mem).elim
      (fun mem => List.mem_append_left _ (h.ahead.timers.mem_iff.mpr (List.mem_append_left _ mem)))
      (List.mem_append_right _))
    exact ⟨info, h.ahead.found here.live, time⟩
  · obtain ⟨live, e, rfl, mem | mem⟩ := h.entry live
    · obtain ⟨info', time, here⟩ := h.inv.waiting e mem
      cases here.live.symm.trans live
      rw [events, time]
      exact here.story
    · exact absurd (List.mem_map_of_mem mem) out
  · obtain ⟨e, mem, rfl⟩ := List.mem_map.mp ran
    obtain ⟨info', here⟩ := h.inv.running e mem
    rw [← h.ahead.heap] at live
    cases here.live.symm.trans live
    rw [events]
    exact here.story
  · rw [events]
    refine h.inv.gone n low (by rw [h.ahead.numCreated]; exact high) fun p info live => ?_
    rw [h.ahead.heap] at live
    exact dead p info live

theorem Follows.reaches (reached : ReachesBy step OnTime new s) :
    ∃ a pend, Follows s a pend := by
  have keep : ∀ (s : LoopTimers) op t, (∃ a pend, Follows s a pend) → s.OnTime op →
      s.step op = .ok t → ∃ a pend, Follows t a pend := by
    rintro s op t ⟨a, pend, follows⟩ onTime h
    have sound := sound_step follows onTime
    rw [h] at sound
    exact sound
  exact reached.keeps keep ⟨_, _, new_follows⟩

def Op.isFunctor : Op → Bool
  | .functor => true
  | _ => false

/-- What the step of a functor does. -/
theorem functor_cases (h : s.step .functor = .ok t) : ∃ cb, s.loop.queued = cb :: t.loop.queued ∧
    ∀ p, cb = some p → ∃ info, s.queue.heap p = some info ∧
      t.queue = s.queue.insert (toLex (info.expiration, p)) := by
  simp only [step] at h
  split at h
  · cases h
  · rename_i timer loop next
    obtain ⟨queue, added, rfl⟩ := map_cases h
    refine ⟨some timer, (EventLoop.nextFunctor_cases next).1, ?_⟩
    rintro p ⟨⟩
    unfold TimeQueue.addTimerInloop at added
    split at added
    · cases added
    · rename_i info live
      cases added
      exact ⟨info, live, rfl⟩
  · rename_i loop next
    cases h
    exact ⟨none, (EventLoop.nextFunctor_cases next).1, fun p e => by cases e⟩

/-- Only a functor that is called leaves the queue of the loop. -/
theorem step_queued {op : Op} (h : s.step op = .ok t) :
    (if op.isFunctor then s.loop.queued.tail else s.loop.queued) <+: t.loop.queued := by
  have same : ∀ {loop : EventLoop Unit (Option ℕ)}, loop.queued = s.loop.queued →
      s.loop.queued <+: loop.queued := fun e => ⟨[], by rw [List.append_nil, e]⟩
  cases op with
  | functor =>
    obtain ⟨cb, queued, _⟩ := functor_cases h
    change s.loop.queued.tail <+: t.loop.queued
    rw [queued]
    exact ⟨[], List.append_nil _⟩
  | move v =>
    simp only [step] at h
    split at h
    · obtain ⟨loop, moved, rfl⟩ := map_cases h
      exact same (EventLoop.move_cases moved).1
    · cases h
  | append isInLoopThread =>
    obtain ⟨_, rfl⟩ := guarded_ok.mp h
    exact ⟨[none], (EventLoop.queued_appendFuncInLoop _ _ _).symm⟩
  | addTimer x =>
    simp only [step] at h
    split at h
    · obtain ⟨queue, _, rfl⟩ := map_cases h
      exact same rfl
    · cases h
  | newTimer x =>
    obtain ⟨queue, _, rfl⟩ := map_cases h
    exact same rfl
  | runInLoop timer =>
    obtain ⟨_, rfl⟩ := guarded_ok.mp h
    change s.loop.queued <+: (s.loop.appendFuncInLoop false (some timer)).queued
    rw [EventLoop.queued_appendFuncInLoop]
    exact List.prefix_append _ _
  | handleRead now =>
    simp only [step] at h
    split at h
    · rename_i loop _ next
      obtain ⟨r, _, rfl⟩ := map_cases h
      exact same (EventLoop.nextChannel_cases next).1
    · cases h
  | run =>
    simp only [step] at h
    split at h
    · obtain ⟨queue, _, rfl⟩ := map_cases h
      exact same rfl
    · cases h
  | reset =>
    simp only [step] at h
    split at h <;> cases h
    exact same rfl
  | resetTimer =>
    simp only [step] at h
    split at h
    · obtain ⟨queue, _, rfl⟩ := map_cases h
      exact same rfl
    · cases h
  | handleReadReturn =>
    simp only [step] at h
    split at h <;> cases h
    exact same rfl

/-- The functor in front puts its timer into `timers_`. -/
theorem functor_arrives {p : ℕ} (front : s.loop.queued.head? = some (some p))
    (h : s.step .functor = .ok t) : ∃ e ∈ t.queue.timers.toList, e.timer = p := by
  obtain ⟨cb, queued, arrives⟩ := functor_cases h
  rw [queued, List.head?_cons] at front
  obtain ⟨info, _, queue⟩ := arrives p (Option.some.inj front)
  refine ⟨toLex (info.expiration, p), ?_, rfl⟩
  rw [queue, TimeQueue.timers_insert, OrderedSet.mem_insert]
  exact .inl rfl

/-- In every run in which repeating timers can be put back exactly, whatever threads add timers
and when: no timer is lost, in two places or used after it was freed, each runs when it should,
and no step fails. One that was passed to `runInLoop` comes into `timers_` as soon as the loop
has called the functors before it. -/
theorem timers_kept (reached : ReachesBy step OnTime new s) :
    Kept s ∧ (∀ op, s.OnTime op → ∀ f, s.step op = .error f → f = .disabled) ∧
      ∀ ahead p behind labels t, s.loop.queued = ahead ++ some p :: behind →
        ahead.length < labels.countP Op.isFunctor → Machine.run step s labels = .ok t →
        ∃ m n, Reaches step s m ∧ m.step .functor = .ok n ∧
          (∃ e ∈ n.queue.timers.toList, e.timer = p) ∧ Reaches step n t := by
  obtain ⟨a, pend, follows⟩ := Follows.reaches reached
  refine ⟨follows.kept, fun op onTime f h => ?_, fun ahead p behind labels t queued enough h => ?_⟩
  · have sound := sound_step follows onTime
    rw [h] at sound
    exact sound
  · obtain ⟨m, op, n, before, is_functor, front, called, later⟩ := run_serves
      (fun s : LoopTimers => s.loop.queued) Op.isFunctor (fun _ _ _ => step_queued)
      ⟨behind, by rw [List.append_assoc, List.singleton_append, ← queued]⟩ enough h
    cases op with
    | functor => exact ⟨m, n, before, called, functor_arrives front called, later⟩
    | _ => cases is_functor

/-! ## A run -/

instance (now delta : ℤ) : Decidable (Timestamp.Exact now delta) :=
  decidable_of_iff (Timestamp.Int64 delta ∧ Timestamp.Int64 (now + delta) ∧
    (Binary64.ofInt (now + delta)).toInt? = some (now + delta))
    (by rw [Timestamp.Exact, Binary64.toInt?_ofInt_eq_iff])

instance (q : TimeQueue) (now : ℤ) (entries : List Entry) :
    Decidable (TimeQueue.Punctual q now entries) :=
  inferInstanceAs (Decidable (∀ e ∈ entries, ∀ info ∈ q.heap e.timer, info.IsRepeat = true →
    ∃ delta ∈ microSeconds info.interval, Timestamp.Exact now delta))

instance (s : LoopTimers) : ∀ op, Decidable (s.OnTime op)
  | .resetTimer => inferInstanceAs (Decidable (TimeQueue.Punctual _ _ _))
  | .move _ | .functor | .append _ | .addTimer _ | .newTimer _ | .runInLoop _ | .handleRead _
  | .run | .reset | .handleReadReturn => .isTrue trivial

/-- Two other threads add a timer each, one of them in the middle of `handleRead`. -/
def threeThreads : List Op :=
  [.newTimer ⟨8, 5, .ofInt 0⟩, .addTimer ⟨16, 3, .ofInt 2⟩, .runInLoop 8, .move .loop,
    .move .test, .move (.polled [()]), .handleRead 7, .run, .newTimer ⟨24, 4, .ofInt 0⟩, .reset,
    .resetTimer, .handleReadReturn, .runInLoop 24, .move .doAppendFunctors, .functor]

theorem timers_kept_threeThreads : ∃ s, Machine.run step new threeThreads = .ok s ∧
    s.loop.queued = [some 24] ∧
    s.queue.timers.toList = [toLex (5, 8), toLex (2000007, 16)] ∧ Kept s := by
  obtain ⟨s, hs, there⟩ := ok_of_any (o := Machine.run step new threeThreads)
    (p := fun s => s.loop.queued == [some 24] &&
      s.queue.timers.toList == [toLex (5, 8), toLex (2000007, 16)]) (by decide +kernel)
  simp only [Bool.and_eq_true, beq_iff_eq] at there
  have onTime : Along step OnTime new threeThreads := by decide +kernel
  exact ⟨s, hs, there.1, there.2, (timers_kept ⟨threeThreads, onTime, hs⟩).1⟩

end LoopTimers

end ZDQ
