import ThreadAndNet.ClientConnections
import ThreadAndNet.ConnectorIdle

/-!
# Connecting again and again

After one `connect` the client has a retry timer, an attempt in progress or a
connection, and never two of them: whatever ends one of them may begin the next.
The channel of the attempt before is destroyed by a functor that was queued before
anything of the new connection, so nothing but a retry timer can come before it.
-/

namespace ZDQ

open Machine

namespace ClientLoop

open ClientFunctor

/-- No more than one of a retry timer, an attempt in progress and a connection. -/
def AtMostOne (s : ClientLoop) : Prop :=
  s.timers.length + (if s.client.connector.state = .kConnecting then 1 else 0) +
    (if s.client.connection.isSome then 1 else 0) ≤ 1

/-- An assertion of `startInLoop`, `connecting`, `handleWrite` or `removeConnection` fails
in this step. -/
inductive Trips (s : ClientLoop) : Op → Prop where
  | functor {a : Answers} {loop : EventLoop ClientChannel ClientFunctor}
      (next : s.loop.nextFunctor = .ok (.connector .startInLoop, loop))
      (failed : s.client.connector.startInLoop a.attempt = .error .assertion) :
      Trips s (.functor a)
  | timer {i : Nat} {a : Answers} {rest : List ClientChannel}
      (active : s.loop.activeChannels = .timeQueue :: rest)
      (timer : s.timers[i]? = some .startInLoop)
      (failed : s.client.connector.startInLoop a.attempt = .error .assertion) :
      Trips s (.timer i a)
  | event {revents : BitVec 32} {k : Connector.EventAnswers} {names : SockNames}
      {loop : EventLoop ClientChannel ClientFunctor}
      (next : s.loop.nextChannel = .ok (.connector, loop))
      (failed : s.client.connector.handleEvent revents k = .error .assertion) :
      Trips s (.connectorEvent revents k names)
  | connect {thread : Option Nat} {a : Connector.Attempt}
      (failed : s.client.connector.start (thread == some 0) a = .error .assertion) :
      Trips s (.connect thread a)
  /-- the functor closes its connection -/
  | closingFunctor {a : Answers} {c : Nat} {f : ConnFunctor} {e : ClientConn}
      {loop : EventLoop ClientChannel ClientFunctor} {conn : TcpConnection} {calls : List Call}
      (next : s.loop.nextFunctor = .ok (.conn c f, loop)) (he : s.conns c = some e)
      (ran : e.track.conn.runFunctor a.write a.shutdown f = .ok (conn, calls))
      (closes : .closeCallback ∈ calls)
      (failed : s.client.removeConnection c a.attempt = .error .assertion) :
      Trips s (.functor a)
  | closingEvent {revents : BitVec 32} {input : TcpConnection.EventInput} {a : Answers} {c : Nat}
      {e : ClientConn} {loop : EventLoop ClientChannel ClientFunctor} {conn : TcpConnection}
      {calls : List Call} (next : s.loop.nextChannel = .ok (.conn c, loop))
      (he : s.conns c = some e)
      (ran : e.track.conn.handleEvent revents input = .ok (conn, calls))
      (closes : .closeCallback ∈ calls)
      (failed : s.client.removeConnection c a.attempt = .error .assertion) :
      Trips s (.event revents input a)

/-- No timer that is due makes an attempt that goes on while the channel of the attempt
before is still to be destroyed. -/
def Timely (s : ClientLoop) : Op → Prop
  | .timer i a => s.loop.activeChannels.head? = some .timeQueue → i < s.timers.length →
    s.connectorLife.Punctual a.attempt
  | _ => True

instance (s : ClientLoop) : DecidablePred (Timely s)
  | .timer _ _ => inferInstanceAs (Decidable (_ → _ → _))
  | .move _ => .isTrue trivial
  | .functor _ => .isTrue trivial
  | .event _ _ _ => .isTrue trivial
  | .connectorEvent _ _ _ => .isTrue trivial
  | .timersDone => .isTrue trivial
  | .user _ _ _ => .isTrue trivial
  | .hold _ => .isTrue trivial
  | .release _ => .isTrue trivial
  | .enableRetry => .isTrue trivial
  | .connect _ _ => .isTrue trivial
  | .disconnect _ _ => .isTrue trivial
  | .stop _ => .isTrue trivial
  | .destruct _ _ => .isTrue trivial

/-! ## Nothing of a new connection comes before `resetChannel` -/

theorem resets_eq (s : ClientLoop) :
    s.connectorLife.resets = s.loop.queued.count (.connector .resetChannel) := by
  have counted : ∀ q : List ClientFunctor,
      (ofConnector q).count .resetChannel = q.count (.connector .resetChannel) := by
    intro q
    induction q with
    | nil => rfl
    | cons cb rest ih =>
      cases cb with
      | connector f =>
        rw [ofConnector_self, List.count_cons, List.count_cons, ih]
        simp
      | conn c f => rw [ofConnector_conn, List.count_cons_of_ne (by simp), ih]
      | setCloseCallback c => rw [ofConnector_setCloseCallback, List.count_cons_of_ne (by simp), ih]
  rw [ConnectorLife.resets, connectorLife_queued, counted]

/-- A `resetChannel` that is queued runs before anything of connection `c`. -/
structure ResetFirst (s : ClientLoop) (c : Nat) : Prop where
  inactive : .conn c ∉ s.loop.activeChannels
  thisRound : (∃ activeChannels, s.loop.phase = .dispatching activeChannels) ∨
    .connector .resetChannel ∈ s.loop.functors
  inOrder : ∀ f, ¬ List.Sublist [.conn c f, .connector .resetChannel] s.loop.queued

theorem ResetFirst.grows {s t : ClientLoop} {c : Nat} (h : s.ResetFirst c) (grows : Grows s t)
    (none : t.connectorLife.resets ≤ s.connectorLife.resets) : t.ResetFirst c := by
  obtain ⟨more, queued⟩ := grows.queued
  have absent : .connector .resetChannel ∉ more := by
    rw [resets_eq, resets_eq, queued, List.count_append] at none
    exact List.count_eq_zero.mp (by omega)
  refine ⟨?_, ?_, ?_⟩
  · rw [grows.active]
    exact h.inactive
  · rw [EventLoop.functors, grows.1]
    exact h.thisRound
  · intro f behind
    rw [queued] at behind
    exact h.inOrder f (behind_append absent behind)

theorem ResetFirst.nextChannel {s : ClientLoop} {c : Nat} (h : s.ResetFirst c)
    {ch : ClientChannel} {loop : EventLoop ClientChannel ClientFunctor}
    (next : s.loop.nextChannel = .ok (ch, loop)) :
    ({ s with loop := loop } : ClientLoop).ResetFirst c := by
  obtain ⟨queued, active⟩ := EventLoop.nextChannel_cases next
  obtain ⟨rest, _, dispatching⟩ := EventLoop.nextChannel_phase next
  refine ⟨?_, .inl ⟨rest, by rw [dispatching]⟩, ?_⟩
  · have inactive := h.inactive
    rw [active] at inactive
    exact fun mem => inactive (List.mem_cons_of_mem _ mem)
  · rw [show ({ s with loop := loop } : ClientLoop).loop.queued = s.loop.queued from queued]
    exact h.inOrder

theorem ResetFirst.nextFunctor {s : ClientLoop} {c : Nat} (h : s.ResetFirst c)
    {cb : ClientFunctor} {loop : EventLoop ClientChannel ClientFunctor}
    (next : s.loop.nextFunctor = .ok (cb, loop)) (other : cb ≠ .connector .resetChannel) :
    ({ s with loop := loop } : ClientLoop).ResetFirst c := by
  obtain ⟨queued, _, inactive⟩ := EventLoop.nextFunctor_cases next
  obtain ⟨rest, phase, rfl⟩ := EventLoop.nextFunctor_phase next
  refine ⟨?_, .inr ?_, ?_⟩
  · rw [inactive]
    exact List.not_mem_nil
  · rcases h.thisRound with ⟨_, dispatching⟩ | mem
    · rw [phase] at dispatching
      cases dispatching
    · simp only [EventLoop.functors, phase, List.mem_cons] at mem
      exact mem.resolve_left other.symm
  · intro f behind
    exact h.inOrder f (by rw [queued]; exact behind.trans (List.sublist_cons_self _ _))

theorem ResetFirst.move {s t : ClientLoop} {c : Nat} (h : s.ResetFirst c)
    {v : EventLoop.Move ClientChannel} (moved : s.loop.move v = .ok t.loop)
    (pending : .connector .resetChannel ∈ t.loop.queued) : t.ResetFirst c := by
  rcases h.thisRound with ⟨activeChannels, phase⟩ | mem
  · have swapped := EventLoop.move_dispatching phase moved
    refine ⟨?_, .inr ?_, ?_⟩
    · rw [swapped]
      exact List.not_mem_nil
    · rw [swapped] at pending ⊢
      simpa [EventLoop.queued, EventLoop.functors] using pending
    · rw [(EventLoop.move_cases moved).1]
      exact h.inOrder
  · rw [EventLoop.move_functors moved] at mem
    cases mem

/-- A step of the client can only take a `resetChannel` out of the queue while no attempt is
in progress. -/
theorem Bound.resets_le {s t : ClientLoop} (bound : Bound s) {op : Op} (h : s.step op = .ok t)
    (settled : s.client.connector.state ≠ .kConnecting) :
    t.connectorLife.resets ≤ s.connectorLife.resets := by
  rcases bound.life h with kept | ⟨o, stands, did⟩
  · exact Nat.le_of_eq (congrArg ConnectorLife.resets kept)
  · exact did.resets_le settled

theorem Takes.reset {s t : ClientLoop} {a : Answers} (takes : Takes s (.functor a) t)
    {loop : EventLoop ClientChannel ClientFunctor}
    (next : s.loop.nextFunctor = .ok (.connector .resetChannel, loop)) :
    t.client.connector.channel = none := by
  cases takes with
  | user onConn => cases onConn
  | functor next' live ran beside =>
    rw [next] at next'
    cases next'
    have done := ConnectorLife.runFunctor_cases ran
    show t.connectorLife.connector.channel = none
    generalize t.connectorLife = u at done ⊢
    cases done with
    | resetChannel => rfl
  | otherFunctor next' other spares =>
    rw [next] at next'
    cases next'
    cases other
  | closingFunctor next' closes =>
    rw [next] at next'
    cases next'

def ResetsFirst (s : ClientLoop) : Prop :=
  ∀ c, s.client.connection = some c → .connector .resetChannel ∈ s.loop.queued →
    s.ResetFirst c

theorem ResetFirst.step {s t : ClientLoop} {c : Nat} (h : s.ResetFirst c) (bound : Bound s)
    {op : Op} (hstep : s.step op = .ok t) (settled : s.client.connector.state ≠ .kConnecting)
    (pending : .connector .resetChannel ∈ t.loop.queued) : t.ResetFirst c := by
  have takes := step_takes hstep
  have fewer := bound.resets_le hstep settled
  cases takes.turn with
  | stays other grows => exact h.grows grows fewer
  | move moved timersFirst => exact h.move moved pending
  | event other next grows =>
    refine (h.nextChannel next).grows grows ?_
    rw [resets_eq, resets_eq] at fewer ⊢
    rw [(EventLoop.nextChannel_cases next).1]
    exact fewer
  | functor next grows =>
    rename_i a cb loop
    by_cases reset : cb = .connector .resetChannel
    · subst reset
      have occupied := (bound.step hstep).situation.occupied (by
        rw [connectorLife_queued]
        exact mem_ofConnector.mpr pending)
      exact absurd (takes.reset next) occupied
    · refine (h.nextFunctor next reset).grows grows ?_
      rw [resets_eq, resets_eq] at fewer ⊢
      rw [(EventLoop.nextFunctor_cases next).1, List.count_cons_of_ne reset] at fewer
      exact fewer

/-- A connection that was just made has nothing on the loop. -/
theorem Takes.newcomer {s t : ClientLoop} (located : Located s) {revents : BitVec 32}
    {k : Connector.EventAnswers} {names : SockNames}
    (takes : Takes s (.connectorEvent revents k names) t)
    (some : t.client.nextConnId = s.client.nextConnId + 1) :
    t.ResetFirst s.client.nextConnId := by
  cases takes with
  | user onConn => cases onConn
  | settles next live ran beside =>
    have same := beside.sameConnection.2
    rw [same] at some
    exact absurd some (Nat.succ_ne_self _).symm
  | hands next live ran hands given =>
    obtain ⟨silent, inactive⟩ :=
      located.unborn _ (located.fresh s.client.nextConnId (Nat.le_refl _))
    obtain ⟨queued, active⟩ := EventLoop.nextChannel_cases next
    obtain ⟨rest, _, dispatching⟩ := EventLoop.nextChannel_phase next
    refine ⟨?_, .inl ⟨rest, ?_⟩, ?_⟩
    · rw [hands.grows.active]
      intro mem
      rw [active, List.contains_cons, Bool.or_eq_false_iff] at inactive
      rw [List.contains_iff_mem.mpr mem] at inactive
      cases inactive.2
    · rw [hands.grows.1, dispatching]
    · intro f behind
      have mine : f ∈ ofConn s.client.nextConnId t.loop.queued :=
        List.mem_filterMap.mpr ⟨_, behind.subset List.mem_cons_self, by simp⟩
      rw [hands.unheard, show ({ s with loop := _ } : ClientLoop).loop.queued = s.loop.queued
        from queued, silent] at mine
      cases mine

theorem ResetsFirst.step {s t : ClientLoop} (h : ResetsFirst s) (bound : Bound s) {op : Op}
    (hstep : s.step op = .ok t) : ResetsFirst t := by
  intro c mine pending
  have takes := step_takes hstep
  rcases takes.connection with ⟨same, _⟩ | ⟨_, none, _⟩ |
    ⟨revents, k, names, sockfd, rfl, _, born, number, _⟩
  · rw [same] at mine
    have settled : s.client.connector.state ≠ .kConnecting := by
      rw [bound.connected c mine]
      simp
    have fewer := bound.resets_le hstep settled
    have before : .connector .resetChannel ∈ s.loop.queued := by
      rw [resets_eq, resets_eq] at fewer
      exact List.count_pos_iff.mp (Nat.lt_of_lt_of_le (List.count_pos_iff.mpr pending) fewer)
    exact (h c mine before).step bound hstep settled pending
  · rw [none] at mine
    cases mine
  · rw [born] at mine
    cases mine
    exact takes.newcomer bound.alive.located number

/-- By the time a connection is closed the channel of its attempt is destroyed. -/
theorem ResetsFirst.closingFunctor {s : ClientLoop} (h : ResetsFirst s) {c : Nat}
    (mine : s.client.connection = some c) {f : ConnFunctor}
    {loop : EventLoop ClientChannel ClientFunctor}
    (next : s.loop.nextFunctor = .ok (.conn c f, loop)) :
    .connector .resetChannel ∉ s.loop.queued := by
  intro pending
  refine (h c mine pending).inOrder f ?_
  rw [(EventLoop.nextFunctor_cases next).1] at pending ⊢
  have later := (List.mem_cons.mp pending).resolve_left (by simp)
  exact (List.singleton_sublist.mpr later).cons_cons _

theorem ResetsFirst.closingEvent {s : ClientLoop} (h : ResetsFirst s) {c : Nat}
    (mine : s.client.connection = some c) {loop : EventLoop ClientChannel ClientFunctor}
    (next : s.loop.nextChannel = .ok (.conn c, loop)) :
    .connector .resetChannel ∉ s.loop.queued := by
  intro pending
  refine (h c mine pending).inactive ?_
  rw [(EventLoop.nextChannel_cases next).2]
  exact List.mem_cons_self

/-! ## Before `connect` is called -/

/-- The client has not tried to connect. -/
structure Untouched (s : ClientLoop) : Prop where
  connector : s.connectorLife.Unstarted
  connection : s.client.connection = none

theorem Untouched.step {s t : ClientLoop} (h : Untouched s) (bound : Bound s) {op : Op}
    (hstep : s.step op = .ok t) (noConnect : ∀ thread a, op ≠ .connect thread a) :
    Untouched t := by
  constructor
  · rcases bound.life hstep with kept | ⟨o, stands, did⟩
    · rw [kept]
      exact h.connector
    · refine h.connector.step did ?_ ?_
      · rintro isInLoopThread a rfl
        cases stands with
        | start => exact noConnect _ _ rfl
      · rintro a rfl
        cases stands with
        | restart attempt live mine =>
          rw [h.connection] at mine
          cases mine
  · rcases (step_takes hstep).connection with ⟨same, _⟩ | ⟨_, none, _⟩ |
      ⟨_, _, _, sockfd, _, _, _, _, given, _⟩
    · exact same.trans h.connection
    · exact none
    · have idle : s.client.connector.state = .kDisconnected := h.connector.state
      rw [(bound.handing hstep given).1] at idle
      cases idle

/-! ## One thing at a time -/

structure Steady (s : ClientLoop) : Prop where
  intact : Intact s
  one : s.connectorLife.OneAttempt
  resetsFirst : ResetsFirst s

theorem new_steady (wc : Bool) : Steady (new wc) := by
  refine ⟨new_intact wc, ConnectorLife.new_oneAttempt, ?_⟩
  intro c mine
  cases mine

theorem Steady.atMostOne {s : ClientLoop} (h : Steady s) : AtMostOne s := by
  have single := h.one.single
  rw [ConnectorLife.chains] at single
  have few : s.timers.length + (if s.client.connector.state = .kConnecting then 1 else 0) ≤ 1 :=
    Nat.le_trans (Nat.add_le_add_right (Nat.le_add_right _ _) _) single
  unfold AtMostOne
  cases mine : s.client.connection with
  | none => simpa using few
  | some c =>
    have state := h.intact.bound.connected c mine
    have none : s.connectorLife.chains = 0 := h.one.connected state
    rw [ConnectorLife.chains] at none
    have noTimers : s.timers.length = 0 := Nat.eq_zero_of_add_eq_zero_right
      (Nat.eq_zero_of_add_eq_zero_right none)
    simp [noTimers, state]

/-- While there is a connection the connector has nothing to do. -/
theorem Steady.rests {s : ClientLoop} (h : Steady s) {c : Nat}
    (mine : s.client.connection = some c) (clear : .connector .resetChannel ∉ s.loop.queued) :
    s.connectorLife.chains = 0 ∧ s.client.connector.channel = none := by
  have state := h.intact.bound.connected c mine
  refine ⟨h.one.connected state, h.one.situation.vacant ?_ ?_⟩
  · rw [show s.connectorLife.connector.state = .kConnected from state]
    simp
  · rw [connectorLife_queued, mem_ofConnector]
    exact clear

/-- What the steps of this chapter are: the client stays, `connect` comes first, and no
timer comes too soon. -/
structure Admitted (s : ClientLoop) (op : Op) : Prop where
  kept : ∀ thread unique, op ≠ .destruct thread unique
  first : ∀ thread a, op = .connect thread a → Untouched s
  timely : Timely s op

theorem Steady.calm {s t : ClientLoop} (h : Steady s) {op : Op} (takes : Takes s op t)
    (admitted : Admitted s op) {o : ConnectorLife.Op} (stands : Stands s t op o) :
    s.connectorLife.Calm o := by
  cases stands with
  | timer =>
    cases takes with
    | user onConn => cases onConn
    | timer active timer ran beside =>
      refine admitted.timely ?_ (List.getElem?_eq_some_iff.mp timer).1
      rw [active]
      rfl
  | start => exact (admitted.first _ _ rfl).connector.calm _ _
  | restart attempt live mine connected gone =>
    cases takes.parting mine gone admitted.kept with
    | functor next => exact h.rests mine (h.resetsFirst.closingFunctor mine next)
    | event next => exact h.rests mine (h.resetsFirst.closingEvent mine next)
  | _ => trivial

theorem Steady.step {s t : ClientLoop} (h : Steady s) {op : Op} (hstep : s.step op = .ok t)
    (admitted : Admitted s op) : Steady t := by
  have bound := h.intact.bound
  refine ⟨h.intact.step hstep admitted.kept, ?_, h.resetsFirst.step bound hstep⟩
  rcases bound.life hstep with kept | ⟨o, stands, did⟩
  · rw [kept]
    exact h.one
  · exact did.oneAttempt h.one (h.calm (step_takes hstep) admitted stands)

/-! ## Which steps fail -/

/-- A call that fails here would fail for any connector in this situation. -/
theorem act_failed {s : ConnectorLife} {o : Connector.Outcome} (failed : o = .error .assertion) :
    s.act o = .error .assertion := by
  rw [failed]
  rfl

theorem Steady.closing_safe {s : ClientLoop} (h : Steady s) {c : Nat}
    (mine : s.client.connection = some c) (clear : .connector .resetChannel ∉ s.loop.queued)
    (a : Connector.Attempt) : s.client.removeConnection c a ≠ .error .assertion := by
  intro failed
  rw [TcpClient.removeConnection, if_pos mine, andThen_eq_error] at failed
  rcases failed with failed | ⟨client, first, made, failed⟩
  · cases failed
  cases made
  have calm : s.connectorLife.Calm (.restart a) := h.rests mine clear
  have safe := h.one.step_safe calm
  simp only [TcpClient.onConnector] at failed
  split at failed
  swap
  · cases failed
  split at failed
  · rename_i e restarted
    cases failed
    exact safe (act_failed restarted)
  · cases failed

theorem Steady.not_trips {s : ClientLoop} (h : Steady s) {op : Op} (admitted : Admitted s op) :
    ¬ Trips s op := by
  have bound := h.intact.bound
  intro trips
  cases trips with
  | functor next failed =>
    rename_i a loop
    obtain ⟨rest, phase, _⟩ := EventLoop.nextFunctor_phase next
    have here : s.connectorLife.phase = .functors (.startInLoop :: ofConnector rest) := by
      simp [connectorLife, LoopPhase.ofConnector, phase]
    have calm : s.connectorLife.Calm (.functor a.attempt a.close) := trivial
    refine h.one.step_safe calm ?_
    simp only [ConnectorLife.step, here]
    exact act_failed failed
  | timer active timer failed =>
    rename_i i a rest
    have due : i < s.timers.length := (List.getElem?_eq_some_iff.mp timer).1
    have calm : s.connectorLife.Calm (.timer i a.attempt a.close) :=
      admitted.timely (by rw [active]; rfl) due
    have found : s.connectorLife.timers[i]? = some .startInLoop := timer
    refine h.one.step_safe calm ?_
    have failed' : s.connectorLife.runFunctor a.attempt a.close .startInLoop =
        .error .assertion := act_failed failed
    simp only [ConnectorLife.step, timers_phase active, found, failed']
  | event next failed =>
    rename_i revents k names loop
    obtain ⟨phase, _⟩ := connector_next bound.timersFirst bound.alive.located.nodup next
    have calm : s.connectorLife.Calm (.event revents k) := trivial
    refine h.one.step_safe calm ?_
    simp only [ConnectorLife.step, phase]
    exact act_failed failed
  | connect failed =>
    rename_i thread a
    have calm := (admitted.first _ _ rfl).connector.calm (thread == some 0) a
    refine h.one.step_safe calm ?_
    exact act_failed failed
  | closingFunctor next he ran closes failed =>
    rename_i a c f e loop conn calls
    have opened := (TcpConnection.runFunctor_closes ran closes).1
    have mine := (h.intact.linked c e he).resolve_left opened
    exact h.closing_safe mine (h.resetsFirst.closingFunctor mine next) a.attempt failed
  | closingEvent next he ran closes failed =>
    rename_i revents input a c e loop conn calls
    have active : (s.life c e).active = true := by
      show s.loop.activeChannels.contains (.conn c) = true
      rw [(EventLoop.nextChannel_cases next).2]
      simp
    have mine : s.client.connection = some c := by
      refine (h.intact.linked c e he).resolve_left (fun down => ?_)
      rcases (bound.alive.inv he).stage.of_active active with live | live <;>
      · rw [show (s.life c e).track.conn.state = .kDisconnected from down] at live
        cases live
    exact h.closing_safe mine (h.resetsFirst.closingEvent mine next) a.attempt failed

/-- A timer that comes too soon finds the channel of the attempt before. -/
theorem Bound.trips {s : ClientLoop} (bound : Bound s) {op : Op} (late : ¬ Timely s op) :
    Trips s op := by
  cases op with
  | timer i a =>
    simp only [Timely, ConnectorLife.Punctual, Classical.not_imp, Classical.not_not] at late
    obtain ⟨active, due, wanted, pending, goes⟩ := late
    obtain ⟨rest, active⟩ : ∃ rest, s.loop.activeChannels = .timeQueue :: rest := by
      cases first : s.loop.activeChannels with
      | nil =>
        rw [first] at active
        cases active
      | cons ch rest =>
        rw [first] at active
        cases active
        exact ⟨rest, rfl⟩
    have retry : s.timers[i] = .startInLoop := bound.timersRetry _ (List.getElem_mem due)
    refine .timer active (by rw [List.getElem?_eq_getElem due, retry]) ?_
    refine (Connector.startInLoop_assertion_iff _ _).mpr (.inr ⟨wanted, goes, ?_⟩)
    exact bound.situation.occupied pending
  | _ => exact absurd trivial late

def Op.isConnect : Op → Bool
  | .connect _ _ => true
  | _ => false

/-- The client may still be asked to connect, and if so it has not been asked before. -/
structure Awaits (s : ClientLoop) (labels : List Op) : Prop where
  steady : Steady s
  kept : ∀ thread unique, .destruct thread unique ∉ labels
  once : labels.countP Op.isConnect = 0 ∨ labels.countP Op.isConnect ≤ 1 ∧ Untouched s

theorem Awaits.admitted {s : ClientLoop} {op : Op} {rest : List Op} (h : Awaits s (op :: rest))
    (timely : Timely s op) : Admitted s op := by
  refine ⟨?_, ?_, timely⟩
  · rintro thread unique rfl
    exact h.kept thread unique List.mem_cons_self
  · rintro thread a rfl
    rcases h.once with none | ⟨_, untouched⟩
    · simp [Op.isConnect] at none
    · exact untouched

theorem Awaits.step {s t : ClientLoop} {op : Op} {rest : List Op} (h : Awaits s (op :: rest))
    (timely : Timely s op) (hstep : s.step op = .ok t) : Awaits t rest := by
  refine ⟨h.steady.step hstep (h.admitted timely),
    fun thread unique mem => h.kept thread unique (List.mem_cons_of_mem op mem), ?_⟩
  have once := h.once
  rw [List.countP_cons] at once
  cases asks : op.isConnect with
  | true =>
    rw [asks, if_pos rfl] at once
    left
    rcases once with none | ⟨once, _⟩
    · omega
    · omega
  | false =>
    rw [asks, if_neg Bool.false_ne_true] at once
    refine once.imp id (fun ⟨once, untouched⟩ => ⟨once, ?_⟩)
    refine untouched.step h.steady.intact.bound hstep ?_
    rintro thread a rfl
    cases asks

/-- A client that is asked to connect once never has two of a retry timer, an attempt and a
connection, and none of the assertions fails, exactly as long as no retry timer comes before
the channel of the attempt before it is destroyed. -/
theorem reconnects_iff {wc : Bool} {labels : List Op}
    (kept : ∀ thread unique, .destruct thread unique ∉ labels)
    (once : labels.countP Op.isConnect ≤ 1) :
    Throughout step AtMostOne (new wc) labels ∧
        Along step (fun s op => ¬ Trips s op) (new wc) labels ↔
      Along step Timely (new wc) labels := by
  have untouched : Untouched (new wc) := ⟨ConnectorLife.new_unstarted, rfl⟩
  have start : Awaits (new wc) labels := ⟨new_steady wc, kept, .inr ⟨once, untouched⟩⟩
  refine safe_iff_along (fun s op t rest (h : Awaits s (op :: rest)) timely => h.step timely)
    (fun s labels h => h.steady.atMostOne) ?_ start
  intro s op rest h
  constructor
  · intro trips timely
    exact h.steady.not_trips (h.admitted timely) trips
  · exact h.steady.intact.bound.trips

/-- `stop` comes before `connect`, so its functor cancels an attempt that is wanted; the
loop is then held up until the retry timer of that attempt is due. -/
def cancelled : List Op := [.stop (some 0), .connect (some 0) (.inProgress 5), .move .loop,
  .move .test, .move (.polled []), .move .doAppendFunctors, .functor .quiet,
  .move .functorsDone, .move .test, .move (.polled [.timeQueue])]

set_option maxRecDepth 20000 in
theorem cancelled_trips : ∃ s, run step (new false) cancelled = .ok s ∧
    Trips s (.timer 0 (.willing 6)) :=
  ⟨_, rfl, Trips.timer rfl rfl rfl⟩

def heldUp : List Op := cancelled ++ [.timer 0 (.willing 6)]

theorem not_reconnects_heldUp :
    (∀ thread unique, .destruct thread unique ∉ heldUp) ∧ heldUp.countP Op.isConnect = 1 ∧
      ¬ (Throughout step AtMostOne (new false) heldUp ∧
        Along step (fun s op => ¬ Trips s op) (new false) heldUp) := by
  obtain ⟨s, hs, trips⟩ := cancelled_trips
  exact ⟨by simp [heldUp, cancelled], by decide, fun both => both.2.last hs trips⟩

/-- The first attempt is refused, the second one succeeds, and when the server closes the
connection the third one begins. -/
def tries : List Op := [.enableRetry, .connect (some 0) (.refused 5), .move .loop, .move .test,
  .move (.polled [.timeQueue]), .timer 0 (.willing 6), .timersDone, .move .doAppendFunctors,
  .move .functorsDone, .move .test, .move (.polled [.connector]),
  .connectorEvent POLLOUT ⟨none, twoEnds, none⟩ twoEnds, .move .doAppendFunctors,
  .functor .quiet, .move .functorsDone, .move .test, .move (.polled [.conn 1]),
  .event POLLIN ⟨.read [], [], .accepted 0, none⟩ (.willing 7), .move .doAppendFunctors,
  .functor .quiet, .move .functorsDone]

theorem reconnects_iff_tries :
    (∃ s, run step (new false) tries = .ok s ∧ s.client.connector.state = .kConnecting) ∧
      Throughout step AtMostOne (new false) tries ∧
      Along step (fun s op => ¬ Trips s op) (new false) tries := by
  refine ⟨?_, (reconnects_iff (by simp [tries]) (by decide)).mpr (by decide +kernel)⟩
  have ran : (run step (new false) tries).toOption.any
      (fun s => decide (s.client.connector.state = .kConnecting)) := by decide +kernel
  obtain ⟨s, hs, connecting⟩ := ok_of_any ran
  exact ⟨s, hs, of_decide_eq_true connecting⟩

end ClientLoop

end ZDQ
