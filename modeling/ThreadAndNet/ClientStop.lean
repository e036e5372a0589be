import Mathlib.Data.List.Infix
import ThreadAndNet.ClientRuns

/-!
# Nothing is connected any more after `stop`

`stop` clears `connect_` of the connector and `connected_` of the client. The first
turns away what is under way, a retry timer or an attempt in progress, and the
second keeps the connector from being restarted, which would set the first again.
-/

namespace ZDQ

open Machine

namespace ConnectorLife

/-- No attempt begins with these calls, and none of them hands a socket over. -/
def Inert (calls : List ConnectorCall) : Prop :=
  ∀ sockfd, .socket sockfd ∉ calls ∧ .connect sockfd ∉ calls ∧
    .newConnectionCallback sockfd ∉ calls

theorem Inert.append {calls more : List ConnectorCall} (h : Inert calls) (h' : Inert more) :
    Inert (calls ++ more) := by
  intro sockfd
  obtain ⟨socket, connect, handed⟩ := h sockfd
  obtain ⟨socket', connect', handed'⟩ := h' sockfd
  refine ⟨?_, ?_, ?_⟩ <;> rw [List.mem_append, not_or]
  · exact ⟨socket, socket'⟩
  · exact ⟨connect, connect'⟩
  · exact ⟨handed, handed'⟩

theorem inert_nil : Inert [] := fun _ => by simp

/-- What one step does to a connector nobody wants to connect. -/
structure Stays (s t : ConnectorLife) : Prop where
  off : t.connector.connect_ = false
  connecting : t.connector.state = .kConnecting → s.connector.state = .kConnecting
  quiet : ∃ made, t.calls = s.calls ++ made ∧ Inert made

theorem Stays.of_performed {s t : ConnectorLife} {k : Connector} {calls : List ConnectorCall}
    (performed : Performed s k calls t) (off : k.connect_ = false)
    (connecting : k.state = .kConnecting → s.connector.state = .kConnecting)
    (quiet : Inert calls) : Stays s t := by
  refine ⟨?_, ?_, calls, performed.journal, quiet⟩
  · rw [performed.connector]
    exact off
  · rw [performed.connector]
    exact connecting

theorem Stays.of_same {s t : ConnectorLife} (off : s.connector.connect_ = false)
    (connect_ : t.connector.connect_ = s.connector.connect_)
    (state : t.connector.state = s.connector.state) (calls : t.calls = s.calls) : Stays s t :=
  ⟨connect_.trans off, fun connecting => by rw [← state]; exact connecting, [],
    by rw [calls, List.append_nil], inert_nil⟩

theorem stays_attempts {s t : ConnectorLife} {k : Connector} {calls : List ConnectorCall}
    (off : s.connector.connect_ = false) (move : s.connector.Attempts k calls)
    (performed : Performed s k calls t) : Stays s t := by
  cases move with
  | unwanted _ => exact .of_performed performed off id inert_nil
  | connects sockfd wanted =>
    rw [off] at wanted
    cases wanted
  | retries sockfd wanted =>
    rw [off] at wanted
    cases wanted
  | givesUp sockfd wanted =>
    rw [off] at wanted
    cases wanted

/-- An attempt that is called off leaves no timer behind. -/
theorem inert_dropped {k : Connector} (off : k.connect_ = false) (ch : Channel) :
    Inert (Connector.removal ch ++ .close ch.fd :: k.retryTimer) := by
  intro sockfd
  simp [Connector.removal, Connector.retryTimer, off]

theorem stays_runs {s t : ConnectorLife} {f : ConnectorFunctor}
    (off : s.connector.connect_ = false) (ran : Runs s f t) : Stays s t := by
  cases ran with
  | startInLoop idle move performed => exact stays_attempts off move performed
  | notConnecting idle => exact .of_same off rfl rfl rfl
  | stopInLoop connecting channel performed =>
    exact .of_performed performed off (fun _ => connecting) (inert_dropped off _)
  | resetChannel => exact .of_same off rfl rfl rfl

/-- No attempt outlives a `stopInLoop`. -/
theorem Runs.stopped {s t : ConnectorLife} (ran : Runs s .stopInLoop t) :
    t.connector.state ≠ .kConnecting := by
  cases ran with
  | notConnecting idle => exact idle
  | stopInLoop connecting channel performed =>
    rw [performed.connector]
    simp [Connector.dropped, Connector.retried]

theorem stays_settles {s t : ConnectorLife} {revents : BitVec 32} {a : Connector.EventAnswers}
    {k : Connector} {calls : List ConnectorCall} (off : s.connector.connect_ = false)
    (move : s.connector.Settles revents a k calls) (performed : Performed s k calls t) :
    Stays s t := by
  cases move with
  | stays ignored => exact .of_performed performed off id inert_nil
  | drops ch connecting channel failed =>
    exact .of_performed performed off (fun _ => connecting) (inert_dropped off ch)
  | hands ch connecting channel success wanted =>
    rw [off] at wanted
    cases wanted
  | closes ch connecting channel success _ =>
    exact .of_performed performed off (fun _ => connecting)
      (fun sockfd => by simp [Connector.removal])

theorem Does.stays {s t : ConnectorLife} {op : Op} (did : Does s op t)
    (off : s.connector.connect_ = false) (noStart : ∀ inLoop a, op ≠ .start inLoop a)
    (noRestart : ∀ a, op ≠ .restart a) : Stays s t := by
  cases did with
  | poll phase watched => exact .of_same off rfl rfl rfl
  | timer phase timer ran =>
    obtain ⟨off', connecting, quiet⟩ := stays_runs off ran
    exact ⟨off', connecting, quiet⟩
  | timersDone phase => exact .of_same off rfl rfl rfl
  | event phase move performed =>
    obtain ⟨off', connecting, quiet⟩ :=
      stays_settles (s := { s with phase := .events false false }) off move performed
    exact ⟨off', connecting, quiet⟩
  | doAppendFunctors phase => exact .of_same off rfl rfl rfl
  | functor phase ran =>
    rename_i f rest
    obtain ⟨off', connecting, quiet⟩ :=
      stays_runs (s := { s with phase := .functors rest }) off ran
    exact ⟨off', connecting, quiet⟩
  | startNow => exact absurd rfl (noStart _ _)
  | startLater => exact absurd rfl (noStart _ _)
  | stop performed => exact .of_performed performed rfl id (fun sockfd => by simp)
  | restart => exact absurd rfl (noRestart _)

/-- A socket the connector still has to do something about, or a slot of the poller. -/
def OwnsSocket (s : ConnectorLife) : Prop :=
  ¬ SocketBook.Settled s.book.sockets ∨ s.book.registered ≠ none

theorem Situation.ownsNothing {s : ConnectorLife} (h : Situation s)
    (settled : s.connector.state ≠ .kConnecting) : ¬ OwnsSocket s := by
  have owns : ∀ {sockets : List (Nat × SocketFate)}, s.book = ⟨sockets, none⟩ →
      SocketBook.Settled sockets → ¬ OwnsSocket s := by
    rintro sockets book known (held | slot)
    · rw [book] at held
      exact held known
    · rw [book] at slot
      exact slot rfl
  cases h with
  | connecting _ _ _ connecting => exact absurd connecting settled
  | leaving ch sockets _ _ _ _ _ book known => exact owns book known
  | idle sockets _ _ _ _ _ book known => exact owns book known

end ConnectorLife

namespace ClientLoop

open ConnectorLife (Inert)

/-- Nobody wants to connect, and the `stopInLoop` that will end the attempt in progress
is among the first `n` functors of the queue. -/
structure Stopped (n : Nat) (s : ClientLoop) : Prop where
  bound : Bound s
  off : s.client.connector.connect_ = false
  disconnected : s.client.connected = false
  pending : s.client.connector.state = .kConnecting →
    .connector .stopInLoop ∈ s.loop.queued.take n

theorem Takes.disconnected {s t : ClientLoop} {op : Op} (takes : Takes s op t)
    (off : s.client.connected = false) (noConnect : ∀ thread a, op ≠ .connect thread a) :
    t.client.connected = false := by
  have beside : ∀ {u v : ClientLoop}, Beside u v → u.client.connected = false →
      v.client.connected = false := by
    intro u v beside off
    rw [beside.client]
    exact off
  have spares : ∀ {u v : ClientLoop}, Spares u v → u.client.connected = false →
      v.client.connected = false := by
    intro u v spares off
    rw [spares.client]
    exact off
  cases takes with
  | user onConn unchanged => exact spares unchanged off
  | move => exact off
  | functor next live ran changed => exact beside changed off
  | otherFunctor next other unchanged => exact spares unchanged off
  | closingFunctor next closes =>
    rw [closes.client]
    exact off
  | event next unchanged => exact spares unchanged off
  | closingEvent next closes =>
    rw [closes.client]
    exact off
  | settles next live ran changed kept => exact beside changed off
  | hands next live ran hands given =>
    rw [hands.client]
    exact off
  | timer active timer ran changed =>
    have kept := beside changed off
    exact kept
  | timersDone => exact off
  | enableRetry => exact off
  | connect => exact absurd rfl (noConnect _ _)
  | disconnect live unchanged => exact spares unchanged rfl
  | stop live ran changed => exact beside changed rfl
  | destruct live mine unchanged =>
    have kept := spares unchanged off
    exact kept
  | destructIdle live idle ran changed =>
    have kept := beside changed off
    exact kept

/-- No connection is made of a connector nobody wants to connect. -/
structure Quietly (s t : ClientLoop) : Prop where
  quiet : ∃ made, t.calls = s.calls ++ made ∧ Inert made
  nextConnId : t.client.nextConnId = s.client.nextConnId
  noneMade : NoneMade s t

theorem Quietly.trans {s t u : ClientLoop} (h : Quietly s t) (h' : Quietly t u) :
    Quietly s u := by
  obtain ⟨made, journal, quiet⟩ := h.quiet
  obtain ⟨made', journal', quiet'⟩ := h'.quiet
  refine ⟨⟨made ++ made', ?_, quiet.append quiet'⟩, h'.nextConnId.trans h.nextConnId, ?_⟩
  · rw [journal', journal, List.append_assoc]
  · exact fun d none => h'.noneMade d (h.noneMade d none)

theorem handed_inert {calls : List ConnectorCall} (h : Inert calls) : handed calls = [] := by
  rw [ClientLoop.handed, List.filterMap_eq_nil_iff]
  intro call mem
  cases call with
  | newConnectionCallback sockfd => exact absurd mem (h sockfd).2.2
  | _ => rfl

theorem Stopped.stays {n : Nat} {s t : ClientLoop} (stopped : Stopped n s) {op : Op}
    (noConnect : ∀ thread a, op ≠ .connect thread a) (h : s.step op = .ok t) :
    s.connectorLife.Stays t.connectorLife := by
  rcases stopped.bound.life h with kept | ⟨o, stands, did⟩
  · rw [kept]
    exact .of_same stopped.off rfl rfl rfl
  refine did.stays stopped.off ?_ ?_
  · rintro inLoop a rfl
    cases stands with
    | start => exact noConnect _ _ rfl
  · rintro a rfl
    cases stands with
    | restart attempt live mine connected gone =>
      rw [stopped.disconnected] at connected
      cases connected

/-- The functor at the head of the queue was `stopInLoop`. -/
theorem Takes.stopInLoop {s t : ClientLoop} {op : Op} (takes : Takes s op t)
    (functor : op.isFunctor = true) {rest : List ClientFunctor}
    (head : s.loop.queued = .connector .stopInLoop :: rest) :
    t.client.connector.state ≠ .kConnecting := by
  have first : ∀ {cb : ClientFunctor} {loop : EventLoop ClientChannel ClientFunctor},
      s.loop.nextFunctor = .ok (cb, loop) → cb = .connector .stopInLoop := by
    intro cb loop next
    have queued := (EventLoop.nextFunctor_cases next).1
    rw [head] at queued
    exact (List.cons.inj queued).1.symm
  cases takes with
  | user onConn =>
    rw [Op.onConn_notFunctor onConn] at functor
    cases functor
  | functor next live ran beside =>
    cases first next
    exact (ConnectorLife.runFunctor_cases ran).stopped
  | otherFunctor next other spares =>
    cases first next
    cases other
  | closingFunctor next closes => cases first next
  | _ => cases functor

theorem Stopped.step {n : Nat} {s t : ClientLoop} (stopped : Stopped n s) {op : Op}
    (noConnect : ∀ thread a, op ≠ .connect thread a) (h : s.step op = .ok t) :
    Stopped (n - if op.isFunctor then 1 else 0) t ∧ Quietly s t := by
  have takes := step_takes h
  have stays := stopped.stays noConnect h
  constructor
  · refine ⟨stopped.bound.step h, stays.off, takes.disconnected stopped.disconnected noConnect,
      ?_⟩
    intro connecting
    have pending := stopped.pending (stays.connecting connecting)
    rcases takes.turn.queued with ⟨other, more, queued⟩ | ⟨functor, cb, rest, more, head, queued⟩
    · rw [other, queued]
      exact ((List.prefix_append _ more).take n).subset pending
    · rw [functor, queued, if_pos rfl]
      cases n with
      | zero => cases pending
      | succ n =>
        rw [head, List.take_succ_cons] at pending
        rcases List.mem_cons.mp pending with rfl | later
        · exact absurd connecting (takes.stopInLoop functor head)
        · exact ((List.prefix_append rest more).take n).subset later
  · obtain ⟨made, journal, quiet⟩ := stays.quiet
    have kept : t.client.nextConnId = s.client.nextConnId := by
      rcases takes.connection with ⟨_, same⟩ | ⟨_, _, same⟩ |
        ⟨_, _, _, sockfd, _, _, _, _, given, _⟩
      · exact same
      · exact same
      · rw [show t.calls = s.calls ++ made from journal, handed_append, handed_inert quiet] at given
        simp at given
    refine ⟨⟨made, journal, quiet⟩, kept, ?_⟩
    rcases takes.noneMade with noneMade | ⟨grown, _⟩
    · exact noneMade
    · omega

/-- How many functors the loop has taken out of its queue. -/
def functorsRun (labels : List Op) : Nat := labels.countP Op.isFunctor

theorem stopped_run {n : Nat} {s t : ClientLoop} (stopped : Stopped n s) {labels : List Op}
    (noConnect : ∀ thread a, .connect thread a ∉ labels) (h : run step s labels = .ok t) :
    Stopped (n - functorsRun labels) t ∧ Quietly s t := by
  induction labels generalizing n s with
  | nil =>
    cases h
    exact ⟨stopped, ⟨[], (List.append_nil _).symm, ConnectorLife.inert_nil⟩, rfl, fun _ => id⟩
  | cons op rest ih =>
    obtain ⟨m, hm, hrest⟩ := run_cons_inv h
    obtain ⟨stopped', quietly⟩ := stopped.step
      (fun thread a same => noConnect thread a (same ▸ List.mem_cons_self)) hm
    obtain ⟨stopped'', quietly'⟩ := ih stopped'
      (fun thread a mem => noConnect thread a (List.mem_cons_of_mem op mem)) hrest
    refine ⟨?_, quietly.trans quietly'⟩
    have count : functorsRun (op :: rest) = functorsRun rest + if op.isFunctor then 1 else 0 :=
      List.countP_cons
    rw [count, Nat.add_comm, ← Nat.sub_sub]
    exact stopped''

theorem stop_stopped {s t : ClientLoop} (bound : Bound s) {thread : Option Nat}
    (h : s.step (.stop thread) = .ok t) : Stopped t.loop.queued.length t := by
  have bound' := bound.step h
  obtain ⟨ran, beside⟩ : s.connectorLife.step .stop = .ok t.connectorLife ∧
      Beside { s with client := { s.client with connected := false } } t := by
    cases step_takes h with
    | user onConn => cases onConn
    | stop _ ran beside => exact ⟨ran, beside⟩
  have performed : ConnectorLife.Performed s.connectorLife
      { s.client.connector with connect_ := false } [.appendFuncInLoop .stopInLoop]
        t.connectorLife := by
    cases ConnectorLife.step_cases ran with
    | stop performed => exact performed
  have connector : t.client.connector = _ := performed.connector
  refine ⟨bound', ?_, ?_, ?_⟩
  · rw [connector]
  · rw [beside.client]
  · intro _
    rw [List.take_length, ← ClientFunctor.mem_ofConnector, ← connectorLife_queued, performed.queued]
    simp [ConnectorLife.appended]

/-- `stop` is final as long as nobody calls `connect`: no attempt begins and no connection
is made, and once the functor it queued has run, the connector owns no socket. -/
theorem stop_final {wc : Bool} {s t u : ClientLoop} {more : List Op}
    (reached : Reaches step (new wc) s) (stopped : s.step (.stop (some 0)) = .ok t)
    (noConnect : ∀ thread a, .connect thread a ∉ more) (h : run step t more = .ok u) :
    (∃ made, u.calls = t.calls ++ made ∧ Inert made) ∧
      (u.client.nextConnId = t.client.nextConnId ∧ ∀ c, t.conns c = none → u.conns c = none) ∧
      (t.loop.queued.length ≤ functorsRun more → ¬ u.connectorLife.OwnsSocket) := by
  obtain ⟨⟨bound, off, disconnected, pending⟩, quiet, nextConnId, noneMade⟩ :=
    stopped_run (stop_stopped (reached_bound reached) stopped) noConnect h
  refine ⟨quiet, ⟨nextConnId, noneMade⟩, ?_⟩
  intro ran
  refine bound.situation.ownsNothing ?_
  intro connecting
  have pending := pending connecting
  rw [Nat.sub_eq_zero_of_le ran] at pending
  cases pending

/-- An attempt is in progress. -/
def attempting : List Op := [.enableRetry, .move .loop, .move .test,
  .connect (some 0) (.inProgress 5)]

/-- It succeeds before `stopInLoop` runs. -/
def succeedsLate : List Op := [.move (.polled [.connector]),
  .connectorEvent POLLOUT ⟨none, twoEnds, none⟩ twoEnds, .move .doAppendFunctors,
  .functor (.willing 6), .functor (.willing 6)]

set_option maxRecDepth 20000 in
theorem succeedsLate_runs : ∃ s t u, run step (new true) attempting = .ok s ∧
    s.step (.stop (some 0)) = .ok t ∧ t.loop.queued.length = 1 ∧
    run step t succeedsLate = .ok u :=
  ⟨_, _, _, rfl, rfl, rfl, rfl⟩

theorem stop_final_succeedsLate : ∃ s t u, run step (new true) attempting = .ok s ∧
    s.step (.stop (some 0)) = .ok t ∧ run step t succeedsLate = .ok u ∧
    (∃ made, u.calls = t.calls ++ made ∧ Inert made) ∧
    (u.client.nextConnId = t.client.nextConnId ∧ ∀ c, t.conns c = none → u.conns c = none) ∧
    ¬ u.connectorLife.OwnsSocket := by
  obtain ⟨s, t, u, hs, stopped, one, hu⟩ := succeedsLate_runs
  have final := stop_final ⟨attempting, hs⟩ stopped (by simp [succeedsLate]) hu
  refine ⟨s, t, u, hs, stopped, hu, final.1, final.2.1, final.2.2 ?_⟩
  rw [one]
  decide

end ClientLoop

end ZDQ
