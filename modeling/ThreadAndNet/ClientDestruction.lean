import ThreadAndNet.ClientRuns
import ThreadAndNet.ConnectorIdle

/-!
# What a destroyed client leaves behind

The functors of the connector are bound to the bare pointer, and only retry timers
keep the connector alive after its client. So the destructor leaves nothing behind
that can go wrong only if nothing of the connector is queued, or if what is queued
is run before the last of those timers.
-/

namespace ZDQ

open Machine

namespace ConnectorLife

/-- What is queued is run before the next timer. -/
def Flushes (s : ConnectorLife) : Prop :=
  (∃ channel, s.phase = .events false channel) ∨
    (∃ batch, s.phase = .functors batch ∧ s.appendFunctors = []) ∨ s.queued = []

/-- Where the connector of a destroyed client can be. -/
inductive Left (s : ConnectorLife) : Prop where
  /-- it is destroyed, and no functor is bound to it -/
  | nothing (timers : s.timers = []) (queued : s.queued = [])
      (channel : s.connector.channel = none)
  /-- its timers keep it; none of them can be run without failing -/
  | stuck (timers : s.timers ≠ []) (connected : s.connector.state = .kConnected)
  /-- its timers keep it until its functors have run -/
  | retires (timers : s.timers ≠ []) (flushes : Flushes s)

/-- Timers come when nothing is queued any more. -/
theorem Flushes.drained {s : ConnectorLife} (h : Flushes s) {channel : Bool}
    (phase : s.phase = .events true channel) : s.queued = [] := by
  rcases h with ⟨_, other⟩ | ⟨_, other, _⟩ | queued
  · rw [phase] at other
    cases other
  · rw [phase] at other
    cases other
  · exact queued

/-- While a batch is run nothing waits for the next one. -/
theorem Flushes.batch {s : ConnectorLife} (h : Flushes s) {f : ConnectorFunctor}
    {rest : List ConnectorFunctor} (phase : s.phase = .functors (f :: rest)) :
    s.appendFunctors = [] := by
  rcases h with ⟨_, other⟩ | ⟨_, _, none⟩ | queued
  · rw [phase] at other
    cases other
  · exact none
  · simp [ConnectorLife.queued, ConnectorPhase.batch, phase] at queued

theorem Flushes.step {s t : ConnectorLife} (h : Flushes s) (idles : Idles s t) : Flushes t := by
  cases idles with
  | poll phase =>
    right; right
    rcases h with ⟨_, other⟩ | ⟨_, _, none⟩ | queued
    · rw [phase] at other
      cases other
    · simpa [queued, ConnectorPhase.batch] using none
    · simpa [ConnectorLife.queued, ConnectorPhase.batch, phase] using queued
  | timer i phase idle => exact .inr (.inr (h.drained phase))
  | timersDone phase => exact .inl ⟨_, rfl⟩
  | event phase => exact .inl ⟨_, rfl⟩
  | doAppendFunctors phase => exact .inr (.inl ⟨_, rfl, rfl⟩)
  | functor phase => exact .inr (.inl ⟨_, rfl, h.batch phase⟩)
  | reset phase => exact .inr (.inl ⟨_, rfl, h.batch phase⟩)

theorem Left.idles {s t : ConnectorLife} (left : Left s) (situation : Situation s)
    (settled : s.connector.state ≠ .kConnecting) (idles : Idles s t) : Left t := by
  cases left with
  | nothing timers queued channel =>
    refine .nothing ?_ ?_ ?_
    · cases idles with
      | timer i => rw [timers, List.eraseIdx_nil]
      | _ => exact timers
    · have fewer := idles.sublist
      rw [queued] at fewer
      exact List.sublist_nil.mp fewer
    · cases idles with
      | reset => rfl
      | _ => exact channel
  | stuck timers connected =>
    cases idles with
    | timer i phase idle =>
      rw [connected] at idle
      cases idle
    | _ => exact .stuck timers connected
  | retires timers flushes =>
    have flushes' := flushes.step idles
    cases idles with
    | timer i phase idle =>
      have drained := flushes.drained phase
      by_cases last : s.timers.eraseIdx i = []
      · refine .nothing last drained (situation.vacant settled ?_)
        rw [drained]
        exact List.not_mem_nil
      · exact .retires last flushes'
    | _ => exact .retires timers flushes'

/-- The connector of a destroyed client: it tries nothing, and it is nowhere it can go
wrong. -/
structure Retired (s : ConnectorLife) : Prop where
  settled : s.connector.state ≠ .kConnecting
  off : s.connector.state = .kConnected ∨ s.connector.connect_ = false
  left : Left s

theorem Retired.step {s t : ConnectorLife} (h : Retired s) (situation : Situation s)
    (timersRetry : TimersRetry s) {op : Op} (did : Does s op t) (unasked : op.unasked = true) :
    Retired t := by
  have idles := did.idles timersRetry h.settled h.off unasked
  obtain ⟨state, connect_⟩ := idles.connector
  refine ⟨?_, ?_, h.left.idles situation h.settled idles⟩
  · rw [state]
    exact h.settled
  · rw [state, connect_]
    exact h.off

/-- A timer that has run leaves no channel behind. -/
theorem Retired.timer {s t : ConnectorLife} (h : Retired s) (situation : Situation s)
    (timersRetry : TimersRetry s) {i : Nat} {f : ConnectorFunctor} (timer : s.timers[i]? = some f)
    {channel : Bool} (phase : s.phase = .events true channel) (ran : Runs s f t) :
    t.connector.channel = none := by
  have retry := timersRetry _ (List.mem_of_getElem? timer)
  subst retry
  cases ran with
  | startInLoop idle move performed =>
    cases attempts_idles h.off idle move performed
    cases h.left with
    | nothing timers =>
      rw [timers] at timer
      cases timer
    | stuck _ connected =>
      rw [connected] at idle
      cases idle
    | retires _ flushes =>
      refine situation.vacant h.settled ?_
      rw [flushes.drained phase]
      exact List.not_mem_nil

end ConnectorLife

namespace ClientLoop

open ClientFunctor

/-! ## Destroying the client -/

/-- The event of the timers has been handled, and the functors come before the next one. -/
def pastTimers (s : ClientLoop) : Bool :=
  match s.loop.phase with
  | .dispatching activeChannels => !activeChannels.contains .timeQueue
  | _ => false

/-- The client is destroyed at a moment when its connector can be done without. -/
def Dispensable (s : ClientLoop) : Op → Prop
  | .destruct _ _ =>
    match s.client.connection with
    | some _ => s.timers ≠ [] ∨
      ofConnector s.loop.queued = [] ∧ s.client.connector.channel = none
    | none => s.timers ≠ [] ∧ (s.client.connector.state = .kConnected ∨
      s.client.connector.state = .kDisconnected ∧ s.pastTimers = true)
  | _ => True

instance (s : ClientLoop) : DecidablePred (Dispensable s)
  | .destruct _ _ =>
    match mine : s.client.connection with
    | some _ => decidable_of_iff (s.timers ≠ [] ∨
        ofConnector s.loop.queued = [] ∧ s.client.connector.channel = none) (by
          simp only [Dispensable, mine])
    | none => decidable_of_iff (s.timers ≠ [] ∧ (s.client.connector.state = .kConnected ∨
        s.client.connector.state = .kDisconnected ∧ s.pastTimers = true)) (by
          simp only [Dispensable, mine])
  | .move _ => .isTrue trivial
  | .functor _ => .isTrue trivial
  | .event _ _ _ => .isTrue trivial
  | .connectorEvent _ _ _ => .isTrue trivial
  | .timer _ _ => .isTrue trivial
  | .timersDone => .isTrue trivial
  | .user _ _ _ => .isTrue trivial
  | .hold _ => .isTrue trivial
  | .release _ => .isTrue trivial
  | .enableRetry => .isTrue trivial
  | .connect _ _ => .isTrue trivial
  | .disconnect _ _ => .isTrue trivial
  | .stop _ => .isTrue trivial

/-- In this step the connector is destroyed while it has a channel, or a functor or a timer
is run when the connector it is bound to is gone. -/
inductive Dangles (s : ClientLoop) : Op → Prop where
  | destruct {thread : Option Nat} {unique : Bool} {m : ClientLoop} (live : s.destroyed = false)
      (called : s.onClient thread none (s.client.destruct unique) = .ok m)
      (failed : ({ m with
        destroyed := true
        client := { m.client with connection := none } } : ClientLoop).dropConnector =
          .error .assertion) : Dangles s (.destruct thread unique)
  | lastTimer {i : Nat} {a : Answers} {rest : List ClientChannel} {f : ConnectorFunctor}
      {m : ClientLoop} (active : s.loop.activeChannels = .timeQueue :: rest)
      (timer : s.timers[i]? = some f) (ran : s.runConnector f a = .ok m)
      (failed : ({ m with timers := m.timers.eraseIdx i } : ClientLoop).dropConnector =
        .error .assertion) : Dangles s (.timer i a)
  | timer {i : Nat} {a : Answers} {f : ConnectorFunctor} (timer : s.timers[i]? = some f)
      (gone : s.connectorLive = false) : Dangles s (.timer i a)
  | functor {a : Answers} {f : ConnectorFunctor}
      {loop : EventLoop ClientChannel ClientFunctor}
      (next : s.loop.nextFunctor = .ok (.connector f, loop))
      (gone : s.connectorLive = false) : Dangles s (.functor a)

theorem pastTimers_phase {s : ClientLoop} (h : s.pastTimers = true) :
    ∃ channel, s.connectorLife.phase = .events false channel := by
  unfold pastTimers at h
  split at h
  · rename_i activeChannels phase
    refine ⟨activeChannels.contains .connector, ?_⟩
    have past : activeChannels.contains .timeQueue = false := by simpa using h
    simp only [connectorLife, LoopPhase.ofConnector, phase, past]
  · cases h

/-- The connector is the client's, or it is left behind in good order. -/
structure Tidy (s : ClientLoop) : Prop where
  bound : Bound s
  retired : s.destroyed = true → s.connectorLife.Retired

theorem new_tidy (wc : Bool) : Tidy (new wc) :=
  ⟨new_bound wc, fun gone => nomatch gone⟩

theorem Stands.unasked {s t : ClientLoop} {op : Op} {o : ConnectorLife.Op}
    (stands : Stands s t op o) (takes : Takes s op t) (gone : s.destroyed = true) :
    o.unasked = true := by
  have dead : s.destroyed ≠ false := by simp [gone]
  cases stands with
  | start =>
    cases takes with
    | user onConn => cases onConn
    | connect live => exact absurd live dead
  | stop =>
    cases takes with
    | user onConn => cases onConn
    | stop live => exact absurd live dead
  | destruct =>
    cases takes with
    | user onConn => cases onConn
    | destruct live => exact absurd live dead
    | destructIdle live => exact absurd live dead
  | restart attempt live => exact absurd live dead
  | _ => rfl

/-- The destructor leaves the connector in good order. -/
theorem Bound.destruct {s t : ClientLoop} (bound : Bound s) {thread : Option Nat}
    {unique : Bool} (takes : Takes s (.destruct thread unique) t)
    (dispensable : Dispensable s (.destruct thread unique)) : t.connectorLife.Retired := by
  cases takes with
  | user onConn => cases onConn
  | destruct live mine spares =>
    rename_i c m
    have connected : s.connectorLife.connector.state = .kConnected := bound.connected c mine
    have retired : s.connectorLife.Retired := by
      refine ⟨by simp [connected], .inl connected, ?_⟩
      simp only [Dispensable, mine] at dispensable
      by_cases timers : s.timers = []
      · obtain ⟨queued, channel⟩ := dispensable.resolve_left (fun some => some timers)
        exact .nothing timers (by rw [connectorLife_queued, queued]) channel
      · exact .stuck timers connected
    rw [← spares.life] at retired
    exact retired
  | destructIdle live idle ran beside =>
    rename_i m
    simp only [Dispensable, idle] at dispensable
    obtain ⟨timers, free⟩ := dispensable
    have retired : m.connectorLife.Retired := by
      have did := ConnectorLife.step_cases ran
      generalize m.connectorLife = u at did ⊢
      cases did with
      | stop performed =>
        have kept : u.timers ≠ [] := by
          rw [performed.timers]
          exact fun none => timers (List.append_eq_nil_iff.mp none).1
        refine ⟨?_, .inr ?_, ?_⟩
        · rw [performed.connector]
          rcases free with connected | ⟨idle, _⟩
          · simp [connectorLife, connected]
          · simp [connectorLife, idle]
        · rw [performed.connector]
        · rcases free with connected | ⟨_, past⟩
          · refine .stuck kept ?_
            rw [performed.connector]
            exact connected
          · obtain ⟨channel, phase⟩ := pastTimers_phase past
            exact .retires kept (.inl ⟨channel, performed.phase.trans phase⟩)
    exact retired

theorem Tidy.step {s t : ClientLoop} (tidy : Tidy s) {op : Op} (dispensable : Dispensable s op)
    (h : s.step op = .ok t) : Tidy t := by
  have takes := step_takes h
  refine ⟨tidy.bound.step h, fun gone => ?_⟩
  rcases takes.destroyed with same | ⟨thread, unique, rfl⟩
  · rw [same] at gone
    have retired := tidy.retired gone
    rcases tidy.bound.life h with kept | ⟨o, stands, did⟩
    · rw [kept]
      exact retired
    · exact retired.step tidy.bound.situation tidy.bound.timersRetry did
        (stands.unasked takes gone)
  · exact tidy.bound.destruct takes dispensable

/-! ## Nothing goes wrong afterwards -/

theorem connectorLive_false {s : ClientLoop} (h : s.connectorLive = false) :
    s.destroyed = true ∧ s.timers = [] := by
  simpa [connectorLive] using h

theorem dropConnector_failed {s : ClientLoop} (h : s.dropConnector = .error .assertion) :
    s.connectorLive = false ∧ s.client.connector.channel ≠ none := by
  unfold dropConnector at h
  split at h
  · cases h
  · rename_i held
    simp only [Bool.or_eq_true, not_or, Bool.not_eq_true, Option.isNone_iff_eq_none] at held
    exact held

/-- A connector that is destroyed in good order has no channel. -/
theorem dropConnector_of_left {s : ClientLoop} (left : s.connectorLife.Left) :
    s.dropConnector ≠ .error .assertion := by
  intro failed
  obtain ⟨dead, occupied⟩ := dropConnector_failed failed
  obtain ⟨_, none⟩ := connectorLive_false dead
  cases left with
  | nothing timers queued channel => exact occupied channel
  | stuck timers => exact timers none
  | retires timers => exact timers none

theorem Tidy.not_dangles {s : ClientLoop} (tidy : Tidy s) {op : Op}
    (dispensable : Dispensable s op) : ¬ Dangles s op := by
  intro dangles
  cases dangles with
  | destruct live called failed =>
    rename_i thread unique m
    have takes : Takes s (.destruct thread unique) { m with
        destroyed := true
        client := { m.client with connection := none } } := by
      rcases onClient_destruct called with ⟨c, mine, spares⟩ | ⟨idle, ran, beside⟩
      · exact .destruct live mine spares
      · exact .destructIdle live idle ran beside
    exact dropConnector_of_left (tidy.bound.destruct takes dispensable).left failed
  | lastTimer active timer ran failed =>
    rename_i i a rest f m
    obtain ⟨life, beside⟩ := runConnector_life ran
    obtain ⟨dead, occupied⟩ := dropConnector_failed failed
    have gone : s.destroyed = true := beside.destroyed.symm.trans (connectorLive_false dead).1
    have timer' : s.connectorLife.timers[i]? = some f := timer
    exact occupied ((tidy.retired gone).timer tidy.bound.situation tidy.bound.timersRetry timer'
      (timers_phase active) (ConnectorLife.runFunctor_cases life))
  | timer timer gone =>
    rw [(connectorLive_false gone).2] at timer
    cases timer
  | functor next gone =>
    obtain ⟨destroyed, none⟩ := connectorLive_false gone
    cases (tidy.retired destroyed).left with
    | nothing timers queued =>
      rw [connectorLife_queued, (EventLoop.nextFunctor_cases next).1] at queued
      cases queued
    | stuck timers => exact timers none
    | retires timers => exact timers none

/-- A client that is destroyed when it can do without its connector leaves nothing behind
that refers to a destroyed object, and its connector is destroyed without a channel. -/
theorem destroyed_safely {wc : Bool} {labels : List Op}
    (dispensable : Along step Dispensable (new wc) labels) :
    Along step (fun s op => ¬ Dangles s op) (new wc) labels :=
  dispensable.of_keeps (fun _ _ _ tidy first h => tidy.step first h)
    (fun _ _ tidy first => tidy.not_dangles first) (new_tidy wc)

/-- The loop takes over after a client that never tried to connect was destroyed. -/
def destroyedIdle : List Op := [.destruct (some 0) false, .move .loop, .move .test,
  .move (.polled []), .move .doAppendFunctors]

def attempted : List Op := [.connect (some 0) (.inProgress 5)]

theorem destroyedIdle_dangles : ∃ s, run step (new false) destroyedIdle = .ok s ∧
    Dangles s (.functor .quiet) :=
  ⟨_, rfl, Dangles.functor rfl rfl⟩

theorem attempted_dangles : ∃ s, run step (new false) attempted = .ok s ∧
    Dangles s (.destruct (some 0) false) :=
  ⟨_, rfl, Dangles.destruct rfl rfl rfl⟩

def runsStop : List Op := destroyedIdle ++ [.functor .quiet]

def destroysAttempt : List Op := attempted ++ [.destruct (some 0) false]

/-- The functor of the destructor's own `stop` outlives the connector, and an attempt in
progress does not outlive its client. -/
theorem not_destroyed_safely :
    ¬ Along step (fun s op => ¬ Dangles s op) (new false) runsStop ∧
      ¬ Along step (fun s op => ¬ Dangles s op) (new false) destroysAttempt := by
  constructor
  · obtain ⟨s, hs, dangles⟩ := destroyedIdle_dangles
    exact fun safe => safe.last hs dangles
  · obtain ⟨s, hs, dangles⟩ := attempted_dangles
    exact fun safe => safe.last hs dangles

/-- The client is destroyed while it has a connection. -/
def destroysConnected : List Op := [.connect (some 0) (.inProgress 5), .move .loop,
  .move .test, .move (.polled [.connector]),
  .connectorEvent POLLOUT ⟨none, twoEnds, none⟩ twoEnds, .move .doAppendFunctors,
  .functor .quiet, .move .functorsDone, .destruct (some 0) true, .move .test,
  .move (.polled []), .move .doAppendFunctors, .functor .quiet, .move .functorsDone,
  .move .test, .move (.polled []), .move .doAppendFunctors, .functor .quiet]

/-- It is destroyed while it waits to connect again, before the functors are run. -/
def destroysWaiting : List Op := [.connect (some 0) (.refused 5), .move .loop, .move .test,
  .move (.polled []), .destruct (some 0) false, .move .doAppendFunctors, .functor .quiet,
  .move .functorsDone, .move .test, .move (.polled [.timeQueue]), .timer 0 .quiet, .timersDone]

theorem destroyed_safely_runs :
    (∃ s, run step (new false) destroysConnected = .ok s ∧ s.connectorLive = false) ∧
      ∃ s, run step (new false) destroysWaiting = .ok s ∧ s.connectorLive = false := by
  have connected : (run step (new false) destroysConnected).toOption.any
      (fun s => !s.connectorLive) := by decide +kernel
  have waiting : (run step (new false) destroysWaiting).toOption.any
      (fun s => !s.connectorLive) := by decide +kernel
  obtain ⟨s, hs, dead⟩ := ok_of_any connected
  obtain ⟨t, ht, dead'⟩ := ok_of_any waiting
  exact ⟨⟨s, hs, by simpa using dead⟩, t, ht, by simpa using dead'⟩

theorem destroyed_safely_both :
    (∃ s t, run step (new false) destroysConnected = .ok s ∧ s.connectorLive = false ∧
      run step (new false) destroysWaiting = .ok t ∧ t.connectorLive = false) ∧
      Along step (fun s op => ¬ Dangles s op) (new false) destroysConnected ∧
      Along step (fun s op => ¬ Dangles s op) (new false) destroysWaiting := by
  obtain ⟨⟨s, hs, dead⟩, t, ht, dead'⟩ := destroyed_safely_runs
  exact ⟨⟨s, t, hs, dead, ht, dead'⟩, destroyed_safely (by decide +kernel),
    destroyed_safely (by decide +kernel)⟩

end ClientLoop

end ZDQ
