import ThreadAndNet.ConnectionDispatch
import ThreadAndNet.Registration

/-!
# The life of one connection

A connection with the part of its surroundings that belongs to it: its record in
the poller, the functors bound to it, and whether its owner has yet to remove it.
Its owner lives on the loop `base`, the connection on the loop `own`. Whatever
other connections do, servers and clients take a connection through such steps
only; what follows here holds for both.
-/

namespace ZDQ

open Machine

/-- What happened to a connection. A thread is named by the loop it runs. -/
inductive Happening where
  /-- `connectEstablished` ran, finding this state -/
  | connectEstablished (state : StateE)
  /-- `handleEvent` of its channel -/
  | event
  | connCallback (connected : Bool)
  | messageCallback
  | closeCallback
  /-- the owner let it go: `removeConnectionInLoop` of a server, the close
  callback of a client -/
  | removed (thread : Nat)
  | connectDestroyed (thread : Nat)
deriving DecidableEq

/-- A connection, its record in the poller, and what happened so far. -/
structure Track where
  conn : TcpConnection
  registration : Registration
  history : List Happening

namespace Track

def create (sockfd : Nat) (writeCompleteCallback : Bool) : Track :=
  ⟨TcpConnection.new sockfd writeCompleteCallback, .fresh, []⟩

def see (t : Track) (h : Happening) : Track := { t with history := t.history ++ [h] }

/-- A functor of the connection starts on this thread. -/
def starts (t : Track) (thread : Nat) : ConnFunctor → Track
  | .connectEstablished => t.see (.connectEstablished t.conn.state)
  | .connectDestroyed => t.see (.connectDestroyed thread)
  | _ => t

def onPoller (t : Track) (inLoop : Bool) (r : Except Failure Registration) :
    Except Failure Track :=
  if inLoop then
    match r with
    | .error e => .error e
    | .ok r => .ok { t with registration := r }
  else .error .assertion

/-- The effect of a call on the track; `inLoop` is whether the connection's own
thread makes it, which `updateChannel` and `removeChannel` assert. -/
def note (t : Track) (inLoop : Bool) : Call → Except Failure Track
  | .update ch => t.onPoller inLoop (t.registration.update ch)
  | .removeChannel => t.onPoller inLoop t.registration.remove
  | .connCallback connected => .ok (t.see (.connCallback connected))
  | .messageCallback => .ok (t.see .messageCallback)
  | .closeCallback => .ok (t.see .closeCallback)
  | .write _ _ => .ok t
  | .shutdownWrite => .ok t
  | .append _ => .ok t

end Track

structure Life where
  track : Track
  /-- its functors on its own loop, the oldest first -/
  queue : List ConnFunctor
  /-- removals by the owner that are queued on `base` -/
  removals : Nat
  /-- whether `poll` has reported its channel and the event is still to come -/
  active : Bool

namespace Life

def start (sockfd : Nat) (writeCompleteCallback : Bool) : Life :=
  ⟨.create sockfd writeCompleteCallback, [.connectEstablished], 0, false⟩

/-- The owner, on the thread of `base`, lets the connection go. -/
def remove (v : Life) (base : Nat) : Life :=
  { v with track := v.track.see (.removed base), queue := v.queue ++ [.connectDestroyed] }

/-- A call of the connection, made on some thread. -/
def perform (base own : Nat) (thread : Option Nat) (v : Life) (call : Call) :
    Except Failure Life :=
  match v.track.note (thread == some own) call with
  | .error e => .error e
  | .ok track =>
    let v := { v with track := track }
    match call with
    | .append f => .ok { v with queue := v.queue ++ [f] }
    | .closeCallback =>
      .ok (if thread = some base then v.remove base else { v with removals := v.removals + 1 })
    | _ => .ok v

/-- Take over what a member function returned and make its calls in order. -/
def act (base own : Nat) (thread : Option Nat) (v : Life) (o : TcpConnection.Outcome) :
    Except Failure Life :=
  match o with
  | .error e => .error e
  | .ok (conn, calls) =>
    run (perform base own thread) { v with track := { v.track with conn := conn } } calls

inductive Op where
  | functor (w : WriteResult) (shutdown : Status)
  | event (revents : BitVec 32) (input : TcpConnection.EventInput)
  | poll
  | user (thread : Option Nat) (u : TcpConnection.UserCall)
  | remove

def step (base own : Nat) (v : Life) : Op → Except Failure Life
  | .functor w shutdown =>
    match v.queue with
    | [] => .error .disabled
    | f :: rest =>
      -- the loop gets to its functors when all events are handled
      if v.active then .error .disabled
      else { v with queue := rest, track := v.track.starts own f }.act base own (some own)
        (v.track.conn.runFunctor w shutdown f)
  | .event revents input =>
    if v.active then
      { v with active := false, track := v.track.see .event }.act base own (some own)
        (v.track.conn.handleEvent revents input)
    else .error .disabled
  | .poll =>
    if v.track.registration.Watched then .ok { v with active := true } else .error .disabled
  | .user thread u => v.act base own thread (v.track.conn.userCall (thread == some own) u)
  | .remove =>
    match v.removals with
    | 0 => .error .disabled
    | n + 1 => .ok ({ v with removals := n }.remove base)

/-! ## The stages of a life -/

/-- Only events and messages. -/
def Traffic (h : List Happening) : Prop := ∀ x ∈ h, x = .event ∨ x = .messageCallback

theorem Traffic.append {g h : List Happening} (hg : Traffic g) (hh : Traffic h) :
    Traffic (g ++ h) := by
  intro x hx
  rcases List.mem_append.mp hx with hx | hx
  · exact hg x hx
  · exact hh x hx

/-- What every history begins with. -/
def opening : List Happening := [.connectEstablished .kConnecting, .connCallback true]

/-- Functors other than the first and the last of a connection. -/
def Working (fs : List ConnFunctor) : Prop :=
  .connectEstablished ∉ fs ∧ .connectDestroyed ∉ fs

theorem working_nil : Working [] := ⟨by simp, by simp⟩

theorem Working.append {fs gs : List ConnFunctor} (hf : Working fs) (hg : Working gs) :
    Working (fs ++ gs) := by
  constructor
  · rw [List.mem_append, not_or]
    exact ⟨hf.1, hg.1⟩
  · rw [List.mem_append, not_or]
    exact ⟨hf.2, hg.2⟩

theorem Working.tail {f : ConnFunctor} {fs : List ConnFunctor} (h : Working (f :: fs)) :
    Working fs :=
  ⟨fun mem => h.1 (List.mem_cons_of_mem f mem), fun mem => h.2 (List.mem_cons_of_mem f mem)⟩

/-- Closed, and out of reach of `poll`. -/
structure Down (v : Life) : Prop where
  state : v.track.conn.state = .kDisconnected
  indexed : v.track.registration.indexed
  unwatched : ¬ v.track.registration.Watched
  inactive : v.active = false

inductive Stage (base own : Nat) (v : Life) : Prop where
  | accepted : v.track.conn.state = .kConnecting → v.track.registration = .fresh →
      v.queue = [.connectEstablished] → v.removals = 0 → v.active = false →
      v.track.history = [] → Stage base own v
  | up (traffic : List Happening) : Traffic traffic →
      v.track.conn.state = .kConnected ∨ v.track.conn.state = .kDisconnecting →
      v.track.registration.indexed → Working v.queue → v.removals = 0 →
      v.track.history = opening ++ traffic → Stage base own v
  | closed (traffic : List Happening) : Traffic traffic → Down v → Working v.queue →
      v.removals = 1 → v.track.history = opening ++ traffic ++ [.closeCallback] →
      Stage base own v
  | removed (traffic : List Happening) (ahead behind : List ConnFunctor) : Traffic traffic →
      Down v → v.queue = ahead ++ .connectDestroyed :: behind → Working ahead →
      Working behind → v.removals = 0 →
      v.track.history = opening ++ traffic ++ [.closeCallback, .removed base] →
      Stage base own v
  | destroyed (traffic : List Happening) : Traffic traffic → Down v → Working v.queue →
      v.removals = 0 → v.track.history =
        opening ++ traffic ++ [.closeCallback, .removed base, .connectDestroyed own] →
      Stage base own v

theorem start_stage (base own sockfd : Nat) (wc : Bool) : Stage base own (start sockfd wc) :=
  .accepted rfl rfl rfl rfl rfl rfl

/-! ## Steps that leave the stage alone -/

/-- `state_` is as before or went from kConnected to kDisconnecting. -/
def Slips (c d : TcpConnection) : Prop :=
  d.state = c.state ∨ c.state = .kConnected ∧ d.state = .kDisconnecting

/-- What calls of `send`, `shutdown` and `forceClose`, and output, can change. -/
structure Continues (v w : Life) : Prop where
  state : Slips v.track.conn w.track.conn
  history : w.track.history = v.track.history
  removals : w.removals = v.removals
  active : w.active = v.active
  queue : ∃ fs, w.queue = v.queue ++ fs ∧ Working fs
  indexed : v.track.registration.indexed → w.track.registration.indexed
  unwatched : v.track.registration.indexed → ¬ v.track.registration.Watched →
    ¬ w.track.registration.Watched

theorem Slips.trans {c d e : TcpConnection} (hcd : Slips c d) (hde : Slips d e) :
    Slips c e := TcpConnection.state_trans hcd hde

theorem Continues.refl (v : Life) : Continues v v :=
  ⟨Or.inl rfl, rfl, rfl, rfl, ⟨[], by simp, working_nil⟩, id, fun _ => id⟩

theorem Continues.trans {v w x : Life} (hvw : Continues v w) (hwx : Continues w x) :
    Continues v x := by
  obtain ⟨fs, hfs, hf⟩ := hvw.queue
  obtain ⟨gs, hgs, hg⟩ := hwx.queue
  refine ⟨hvw.state.trans hwx.state, hwx.history.trans hvw.history,
    hwx.removals.trans hvw.removals, hwx.active.trans hvw.active,
    ⟨fs ++ gs, by rw [hgs, hfs, List.append_assoc], hf.append hg⟩,
    fun indexed => hwx.indexed (hvw.indexed indexed), ?_⟩
  intro indexed unwatched
  exact hwx.unwatched (hvw.indexed indexed) (hvw.unwatched indexed unwatched)

theorem onPoller_cases {t u : Track} {inLoop : Bool} {r : Except Failure Registration}
    (h : t.onPoller inLoop r = .ok u) :
    inLoop = true ∧ ∃ s, r = .ok s ∧ u = { t with registration := s } := by
  cases inLoop with
  | false => cases h
  | true =>
    cases r with
    | error e => cases h
    | ok s =>
      cases h
      exact ⟨rfl, s, rfl, rfl⟩

theorem perform_update {base own : Nat} {thread : Option Nat} {v w : Life} {ch : Channel}
    (h : perform base own thread v (.update ch) = .ok w) :
    ∃ r, v.track.registration.update ch = .ok r ∧
      w = { v with track := { v.track with registration := r } } := by
  simp only [perform, Track.note] at h
  split at h
  · cases h
  · rename_i u hu
    cases h
    obtain ⟨_, r, hr, rfl⟩ := onPoller_cases hu
    exact ⟨r, hr, rfl⟩

theorem perform_removeChannel {base own : Nat} {thread : Option Nat} {v w : Life}
    (h : perform base own thread v .removeChannel = .ok w) :
    ∃ r, v.track.registration.remove = .ok r ∧
      w = { v with track := { v.track with registration := r } } := by
  simp only [perform, Track.note] at h
  split at h
  · cases h
  · rename_i u hu
    cases h
    obtain ⟨_, r, hr, rfl⟩ := onPoller_cases hu
    exact ⟨r, hr, rfl⟩

theorem perform_user {base own : Nat} {thread : Option Nat} {v w : Life} {call : Call}
    (user : call.IsUser) (h : perform base own thread v call = .ok w) :
    Continues v w ∧ w.track.conn = v.track.conn := by
  cases call with
  | update ch =>
    obtain ⟨r, hr, rfl⟩ := perform_update h
    refine ⟨⟨Or.inl rfl, rfl, rfl, rfl, ⟨[], by simp, working_nil⟩, ?_, ?_⟩, rfl⟩
    · exact fun _ => Registration.update_indexed hr
    · exact fun indexed unwatched => (Registration.update_unwatched hr indexed unwatched).2
  | write offered n =>
    cases h
    exact ⟨Continues.refl _, rfl⟩
  | shutdownWrite =>
    cases h
    exact ⟨Continues.refl _, rfl⟩
  | append f =>
    cases h
    refine ⟨⟨Or.inl rfl, rfl, rfl, rfl, ⟨[f], rfl, ?_⟩, id, fun _ => id⟩, rfl⟩
    cases f with
    | connectEstablished => cases user
    | connectDestroyed => cases user
    | _ => exact ⟨by simp, by simp⟩
  | removeChannel => exact absurd user id
  | connCallback connected => exact absurd user id
  | messageCallback => exact absurd user id
  | closeCallback => exact absurd user id

theorem run_perform_user {base own : Nat} {thread : Option Nat} {calls : List Call}
    (user : ∀ call ∈ calls, call.IsUser) {v w : Life}
    (h : run (perform base own thread) v calls = .ok w) :
    Continues v w ∧ w.track.conn = v.track.conn := by
  refine run_relates (R := fun v w => Continues v w ∧ w.track.conn = v.track.conn)
    (fun v => ⟨Continues.refl v, rfl⟩) ?_ (fun v call w mem => perform_user (user call mem)) h
  rintro v w x ⟨first, same⟩ ⟨later, same'⟩
  exact ⟨first.trans later, same'.trans same⟩

theorem act_cases {base own : Nat} {thread : Option Nat} {v w : Life}
    {o : TcpConnection.Outcome} (h : act base own thread v o = .ok w) :
    ∃ conn calls, o = .ok (conn, calls) ∧
      run (perform base own thread) { v with track := { v.track with conn := conn } } calls =
        .ok w := by
  unfold act at h
  split at h
  · cases h
  · exact ⟨_, _, rfl, h⟩

theorem act_user {base own : Nat} {thread : Option Nat} {v w : Life} {d : TcpConnection}
    {calls : List Call} (user : TcpConnection.UserOnly v.track.conn d calls)
    (h : act base own thread v (.ok (d, calls)) = .ok w) :
    Continues v w ∧ w.track.conn = d := by
  obtain ⟨later, same⟩ := run_perform_user user.calls h
  refine ⟨Continues.trans ?_ later, same⟩
  exact ⟨user.state, rfl, rfl, rfl, ⟨[], by simp, working_nil⟩, id, fun _ => id⟩

theorem Down.continues {v w : Life} (down : Down v) (h : Continues v w) : Down w := by
  refine ⟨?_, h.indexed down.indexed, h.unwatched down.indexed down.unwatched,
    h.active.trans down.inactive⟩
  rcases h.state with same | ⟨connected, _⟩
  · exact same.trans down.state
  · rw [down.state] at connected
    cases connected

theorem Stage.continues {base own : Nat} {v w : Life} (stage : Stage base own v)
    (begun : v.track.conn.state ≠ .kConnecting) (h : Continues v w) : Stage base own w := by
  obtain ⟨fs, hfs, hf⟩ := h.queue
  cases stage with
  | accepted connecting => exact absurd connecting begun
  | up traffic ht live indexed working none trace =>
    refine .up traffic ht ?_ (h.indexed indexed) ?_ (h.removals.trans none)
      (h.history.trans trace)
    · rcases h.state with same | ⟨_, slipped⟩
      · rw [same]
        exact live
      · exact Or.inr slipped
    · rw [hfs]
      exact working.append hf
  | closed traffic ht down working one trace =>
    refine .closed traffic ht (down.continues h) ?_ (h.removals.trans one)
      (h.history.trans trace)
    rw [hfs]
    exact working.append hf
  | removed traffic ahead behind ht down queue hahead hbehind none trace =>
    refine .removed traffic ahead (behind ++ fs) ht (down.continues h) ?_ hahead
      (hbehind.append hf) (h.removals.trans none) (h.history.trans trace)
    rw [hfs, queue, List.append_assoc, List.cons_append]
  | destroyed traffic ht down working none trace =>
    refine .destroyed traffic ht (down.continues h) ?_ (h.removals.trans none)
      (h.history.trans trace)
    rw [hfs]
    exact working.append hf

/-- A functor other than the first and the last is taken from the queue. -/
theorem Stage.pop {base own : Nat} {v : Life} (stage : Stage base own v) {f : ConnFunctor}
    {rest : List ConnFunctor} (queue : v.queue = f :: rest)
    (notFirst : f ≠ .connectEstablished) (notLast : f ≠ .connectDestroyed) :
    v.track.conn.state ≠ .kConnecting ∧ Stage base own { v with queue := rest } := by
  cases stage with
  | accepted _ _ queue' =>
    rw [queue] at queue'
    cases queue'
    exact absurd rfl notFirst
  | up traffic ht live indexed working none trace =>
    rw [queue] at working
    refine ⟨?_, .up traffic ht live indexed working.tail none trace⟩
    rcases live with live | live <;> rw [live] <;> decide
  | closed traffic ht down working one trace =>
    rw [queue] at working
    refine ⟨by rw [down.state]; decide, ?_⟩
    exact .closed traffic ht ⟨down.1, down.2, down.3, down.4⟩ working.tail one trace
  | removed traffic ahead behind ht down queue' hahead hbehind none trace =>
    refine ⟨by rw [down.state]; decide, ?_⟩
    rw [queue] at queue'
    cases ahead with
    | nil =>
      cases queue'
      exact absurd rfl notLast
    | cons g ahead =>
      cases queue'
      exact .removed traffic ahead behind ht ⟨down.1, down.2, down.3, down.4⟩ rfl hahead.tail
        hbehind none trace
  | destroyed traffic ht down working none trace =>
    rw [queue] at working
    refine ⟨by rw [down.state]; decide, ?_⟩
    exact .destroyed traffic ht ⟨down.1, down.2, down.3, down.4⟩ working.tail none trace

/-! ## Steps that change the stage -/

/-- How far the four states of `state_` are along their order. -/
def rank : StateE → Nat
  | .kConnecting => 0
  | .kConnected => 1
  | .kDisconnecting => 2
  | .kDisconnected => 3

theorem Slips.rank {c d : TcpConnection} (h : Slips c d) :
    Life.rank c.state ≤ Life.rank d.state := by
  rcases h with same | ⟨connected, slipped⟩
  · exact Nat.le_of_eq (by rw [same])
  · rw [connected, slipped]
    decide

/-- What a step has to leave behind. -/
def Kept (base own : Nat) (v w : Life) : Prop :=
  Stage base own w ∧ rank v.track.conn.state ≤ rank w.track.conn.state

theorem establish {base own : Nat} {v w : Life} (stage : Stage base own v)
    {rest : List ConnFunctor} (queue : v.queue = .connectEstablished :: rest)
    (h : act base own (some own)
      { v with queue := rest, track := v.track.starts own .connectEstablished }
      v.track.conn.connectEstablished = .ok w) : Kept base own v w := by
  cases stage with
  | accepted connecting fresh queue' none inactive trace =>
    rw [queue] at queue'
    cases queue'
    obtain ⟨conn, calls, hc, hrun⟩ := act_cases h
    rw [TcpConnection.connectEstablished, if_pos connecting] at hc
    cases hc
    obtain ⟨m, hm, hrest⟩ := run_cons_inv hrun
    obtain ⟨m', hm', hnil⟩ := run_cons_inv hrest
    cases hnil
    obtain ⟨r, hr, rfl⟩ := perform_update hm
    cases hm'
    refine ⟨.up [] (fun x hx => absurd hx (by simp)) (Or.inl rfl)
      (Registration.update_indexed hr) working_nil none ?_, ?_⟩
    · simp [Track.starts, Track.see, trace, connecting, opening, TcpConnection.connected,
        TcpConnection.setState]
    · rw [connecting]
      exact Nat.zero_le _
  | up _ _ _ _ working => exact absurd (by simp [queue]) working.1
  | closed _ _ _ working => exact absurd (by simp [queue]) working.1
  | removed _ ahead behind _ _ queue' hahead hbehind =>
    have mem : .connectEstablished ∈ ahead ++ .connectDestroyed :: behind := by
      rw [← queue', queue]
      exact List.mem_cons_self
    simp [hahead.1, hbehind.1] at mem
  | destroyed _ _ _ working => exact absurd (by simp [queue]) working.1

/-- A live connection whose event or functor finds that it is to be closed. -/
theorem close {base own : Nat} {v w : Life} {traffic : List Happening}
    (ht : Traffic traffic) (indexed : v.track.registration.indexed) (working : Working v.queue)
    (none : v.removals = 0) (inactive : v.active = false)
    (trace : v.track.history = opening ++ traffic)
    (h : act base own (some own) v v.track.conn.handleClose = .ok w) :
    Stage base own w ∧ w.track.conn.state = .kDisconnected := by
  obtain ⟨conn, calls, hc, hrun⟩ := act_cases h
  cases hc
  obtain ⟨m, hm, hrest⟩ := run_cons_inv hrun
  obtain ⟨m', hm', hnil⟩ := run_cons_inv hrest
  cases hnil
  obtain ⟨r, hr, rfl⟩ := perform_update hm
  have unwatched := Registration.update_none_unwatched hr indexed
    (Channel.isNoneEvent_disableAll _)
  have indexed' := Registration.update_indexed hr
  simp only [perform, Track.note, Except.ok.injEq] at hm'
  split at hm'
  · subst hm'
    refine ⟨.removed traffic v.queue [] ht ⟨rfl, indexed', unwatched, inactive⟩ rfl working
      working_nil none ?_, rfl⟩
    simp [remove, Track.see, trace]
  · subst hm'
    refine ⟨.closed traffic ht ⟨rfl, indexed', unwatched, inactive⟩ working ?_ ?_, rfl⟩
    · simp [none]
    · simp [Track.see, trace]

/-- The poller has nothing left of the channel. -/
structure Gone (v : Life) : Prop where
  indexed : v.track.registration.indexed
  slot : v.track.registration.slot = none

theorem destroy {base own : Nat} {v w : Life} (stage : Stage base own v)
    {rest : List ConnFunctor} (queue : v.queue = .connectDestroyed :: rest)
    (h : act base own (some own)
      { v with queue := rest, track := v.track.starts own .connectDestroyed }
      v.track.conn.connectDestroyed = .ok w) : Kept base own v w ∧ Gone w := by
  cases stage with
  | accepted _ _ queue' =>
    rw [queue] at queue'
    cases queue'
  | up _ _ _ _ working => exact absurd (by simp [queue]) working.2
  | closed _ _ _ working => exact absurd (by simp [queue]) working.2
  | removed traffic ahead behind ht down queue' hahead hbehind none trace =>
    rw [queue] at queue'
    cases ahead with
    | cons g ahead =>
      cases queue'
      exact absurd List.mem_cons_self hahead.2
    | nil =>
      cases queue'
      obtain ⟨conn, calls, hc, hrun⟩ := act_cases h
      rw [TcpConnection.connectDestroyed, if_neg (by rw [down.state]; decide)] at hc
      cases hc
      obtain ⟨m, hm, hnil⟩ := run_cons_inv hrun
      cases hnil
      obtain ⟨r, hr, rfl⟩ := perform_removeChannel hm
      obtain ⟨same, gone⟩ := Registration.remove_cases hr
      refine ⟨⟨.destroyed traffic ht ⟨down.state, ?_, ?_, down.inactive⟩ hbehind none ?_,
        Nat.le_refl _⟩, same.trans down.indexed, gone⟩
      · rw [same]
        exact down.indexed
      · rintro ⟨pfd, hslot, _⟩
        rw [gone] at hslot
        cases hslot
      · simp [Track.starts, Track.see, trace]
  | destroyed _ _ _ working => exact absurd (by simp [queue]) working.2

theorem Stage.of_live {base own : Nat} {v : Life} (stage : Stage base own v)
    (live : v.track.conn.state = .kConnected ∨ v.track.conn.state = .kDisconnecting) :
    ∃ traffic, Traffic traffic ∧ v.track.registration.indexed ∧ Working v.queue ∧
      v.removals = 0 ∧ v.track.history = opening ++ traffic := by
  have notDown : ¬ Down v := by
    intro down
    rw [down.state] at live
    rcases live with live | live <;> cases live
  cases stage with
  | accepted connecting =>
    rw [connecting] at live
    rcases live with live | live <;> cases live
  | up traffic ht _ indexed working none trace =>
    exact ⟨traffic, ht, indexed, working, none, trace⟩
  | closed _ _ down => exact absurd down notDown
  | removed _ _ _ _ down => exact absurd down notDown
  | destroyed _ _ down => exact absurd down notDown

theorem Stage.of_active {base own : Nat} {v : Life} (stage : Stage base own v)
    (active : v.active = true) :
    v.track.conn.state = .kConnected ∨ v.track.conn.state = .kDisconnecting := by
  have notDown : ¬ Down v := by
    intro down
    rw [down.inactive] at active
    cases active
  cases stage with
  | accepted _ _ _ _ inactive =>
    rw [inactive] at active
    cases active
  | up _ _ live => exact live
  | closed _ _ down => exact absurd down notDown
  | removed _ _ _ _ down => exact absurd down notDown
  | destroyed _ _ down => exact absurd down notDown

theorem live_rank {c : TcpConnection} (live : c.state = .kConnected ∨ c.state = .kDisconnecting) :
    c.state ≠ .kConnecting ∧ rank c.state ≤ 3 := by
  rcases live with live | live <;> rw [live] <;> decide

theorem Kept.continues {base own : Nat} {v u w : Life} (stage : Stage base own u)
    (begun : u.track.conn.state ≠ .kConnecting) (same : u.track.conn = v.track.conn)
    (h : Continues u w) : Kept base own v w :=
  ⟨stage.continues begun h, by rw [← same]; exact h.state.rank⟩

theorem functor_kept {base own : Nat} {v w : Life} (stage : Stage base own v)
    {wr : WriteResult} {shutdown : Status} (h : step base own v (.functor wr shutdown) = .ok w) :
    Kept base own v w := by
  simp only [step] at h
  split at h
  · cases h
  rename_i f rest queue
  split at h
  · cases h
  rename_i inactive
  rw [Bool.not_eq_true] at inactive
  cases f with
  | connectEstablished => exact establish stage queue h
  | connectDestroyed => exact (destroy stage queue h).1
  | sendInLoop message =>
    obtain ⟨begun, popped⟩ := stage.pop queue (by simp) (by simp)
    obtain ⟨conn, calls, hc, _⟩ := act_cases h
    have user := (TcpConnection.sendInLoop_outputOnly hc).userOnly
    rw [hc] at h
    exact .continues popped begun rfl (act_user (v := { v with queue := rest }) user h).1
  | shutdownInLoop =>
    obtain ⟨begun, popped⟩ := stage.pop queue (by simp) (by simp)
    obtain ⟨conn, calls, hc, _⟩ := act_cases h
    have user := (TcpConnection.shutdownInLoop_outputOnly hc).userOnly
    rw [hc] at h
    exact .continues popped begun rfl (act_user (v := { v with queue := rest }) user h).1
  | forceCloseInLoop =>
    obtain ⟨begun, popped⟩ := stage.pop queue (by simp) (by simp)
    simp only [TcpConnection.runFunctor, TcpConnection.forceCloseInLoop] at h
    split at h
    · rename_i live
      obtain ⟨traffic, ht, indexed, working, none, trace⟩ := popped.of_live live
      obtain ⟨stage', down⟩ := close ht indexed working none inactive trace h
      exact ⟨stage', by rw [down]; exact (live_rank live).2⟩
    · cases h
      exact .continues popped begun rfl (Continues.refl _)
  | writeCompleteCallback =>
    obtain ⟨begun, popped⟩ := stage.pop queue (by simp) (by simp)
    cases h
    exact .continues popped begun rfl (Continues.refl _)

theorem event_kept {base own : Nat} {v w : Life} (stage : Stage base own v)
    (wired : v.track.conn.Wired) {revents : BitVec 32} {input : TcpConnection.EventInput}
    (h : step base own v (.event revents input) = .ok w) : Kept base own v w := by
  simp only [step] at h
  split at h
  · rename_i active
    have live := stage.of_active active
    obtain ⟨traffic, ht, indexed, working, none, trace⟩ := stage.of_live live
    have seen : Traffic (traffic ++ [.event]) := ht.append (by simp [Traffic])
    have trace' : (v.track.see .event).history = opening ++ (traffic ++ [.event]) := by
      rw [Track.see, trace, List.append_assoc]
    obtain ⟨conn, calls, hc, hrun⟩ := act_cases h
    rcases TcpConnection.handleEvent_cases wired hc with hread | ⟨rfl, rfl⟩
    · obtain ⟨inputBuf, ⟨more, hd, rfl⟩ | hclose | ⟨rfl, rfl⟩⟩ :=
        TcpConnection.handleRead_cases hread
      · -- a message, and what user code does with it
        obtain ⟨m, hm, hrest⟩ := run_cons_inv hrun
        cases hm
        have user := TcpConnection.userCalls_userOnly hd
        obtain ⟨later, _⟩ := run_perform_user user.calls hrest
        have got : Traffic (traffic ++ [.event] ++ [.messageCallback]) :=
          seen.append (by simp [Traffic])
        have up : Stage base own { v with
            active := false
            track := ((v.track.see .event).see .messageCallback) } :=
          .up _ got live indexed working none (by
            rw [Track.see, trace', List.append_assoc])
        refine .continues up (live_rank live).1 rfl (Continues.trans ?_ later)
        exact ⟨user.state, rfl, rfl, rfl, ⟨[], by simp, working_nil⟩, id, fun _ => id⟩
      · -- the peer has closed
        rw [hc, ← hclose] at h
        obtain ⟨stage', down⟩ := close (v := { v with
            active := false
            track := { (v.track.see .event) with
              conn := { v.track.conn with inputBuf := inputBuf } } })
          seen indexed working none rfl trace' h
        exact ⟨stage', by rw [down]; exact (live_rank live).2⟩
      · cases hrun
        exact ⟨.up _ seen live indexed working none trace', Nat.le_refl _⟩
    · cases hrun
      exact ⟨.up _ seen live indexed working none trace', Nat.le_refl _⟩
  · cases h

theorem userCall_connecting {c d : TcpConnection} (connecting : c.state = .kConnecting)
    {inLoop : Bool} {u : TcpConnection.UserCall} {calls : List Call}
    (h : c.userCall inLoop u = .ok (d, calls)) : calls = [] ∧ d.state = .kConnecting := by
  cases u with
  | send message w =>
    simp only [TcpConnection.userCall, TcpConnection.send, connecting, reduceCtorEq,
      if_false] at h
    cases h
    exact ⟨rfl, connecting⟩
  | shutdown result =>
    simp only [TcpConnection.userCall, TcpConnection.shutdown, connecting, reduceCtorEq,
      if_false] at h
    cases h
    exact ⟨rfl, connecting⟩
  | forceClose =>
    simp only [TcpConnection.userCall, TcpConnection.forceClose, connecting, reduceCtorEq,
      or_self, if_false] at h
    cases h
    exact ⟨rfl, connecting⟩
  | retrieve len =>
    rw [TcpConnection.userCall] at h
    split at h
    · cases h
    · cases h
      exact ⟨rfl, connecting⟩

theorem user_kept {base own : Nat} {v w : Life} (stage : Stage base own v)
    {thread : Option Nat} {u : TcpConnection.UserCall}
    (h : step base own v (.user thread u) = .ok w) : Kept base own v w := by
  obtain ⟨conn, calls, hc, hrun⟩ := act_cases h
  by_cases connecting : v.track.conn.state = .kConnecting
  · obtain ⟨rfl, same⟩ := userCall_connecting connecting hc
    cases hrun
    cases stage with
    | accepted _ fresh queue none inactive trace =>
      exact ⟨.accepted same fresh queue none inactive trace, by
        rw [connecting]
        exact Nat.zero_le _⟩
    | up _ _ live => exact absurd connecting (live_rank live).1
    | closed _ _ down => cases down.state.symm.trans connecting
    | removed _ _ _ _ down => cases down.state.symm.trans connecting
    | destroyed _ _ down => cases down.state.symm.trans connecting
  · have user := TcpConnection.userCall_userOnly hc
    simp only [step] at h
    rw [hc] at h
    exact .continues stage connecting rfl (act_user user h).1

theorem remove_kept {base own : Nat} {v w : Life} (stage : Stage base own v)
    (h : step base own v .remove = .ok w) : Kept base own v w := by
  simp only [step] at h
  split at h
  · cases h
  · rename_i n more
    cases h
    cases stage with
    | closed traffic ht down working one trace =>
      rw [more] at one
      have last : n = 0 := by omega
      refine ⟨.removed traffic v.queue [] ht ⟨down.1, down.2, down.3, down.4⟩ rfl working
        working_nil last ?_, Nat.le_refl _⟩
      simp [Life.remove, Track.see, trace]
    | accepted _ _ _ none => omega
    | up _ _ _ _ _ none => omega
    | removed _ _ _ _ _ _ _ _ none => omega
    | destroyed _ _ _ _ none => omega

theorem poll_kept {base own : Nat} {v w : Life} (stage : Stage base own v)
    (h : step base own v .poll = .ok w) : Kept base own v w := by
  simp only [step] at h
  split at h
  · rename_i watched
    cases h
    refine ⟨?_, Nat.le_refl _⟩
    cases stage with
    | accepted _ fresh =>
      rw [fresh] at watched
      obtain ⟨pfd, hslot, _⟩ := watched
      cases hslot
    | up traffic ht live indexed working none trace =>
      exact .up traffic ht live indexed working none trace
    | closed _ _ down => exact absurd watched down.unwatched
    | removed _ _ _ _ down => exact absurd watched down.unwatched
    | destroyed _ _ down => exact absurd watched down.unwatched
  · cases h

theorem note_conn {t u : Track} {inLoop : Bool} {call : Call}
    (h : t.note inLoop call = .ok u) : u.conn = t.conn := by
  cases call with
  | update ch =>
    obtain ⟨_, r, _, rfl⟩ := onPoller_cases h
    rfl
  | removeChannel =>
    obtain ⟨_, r, _, rfl⟩ := onPoller_cases h
    rfl
  | _ =>
    cases h
    rfl

theorem perform_conn {base own : Nat} {thread : Option Nat} {call : Call} {v w : Life}
    (h : perform base own thread v call = .ok w) : w.track.conn = v.track.conn := by
  unfold perform at h
  split at h
  · cases h
  · rename_i u hu
    dsimp only at h
    rw [← note_conn hu]
    split at h
    · cases h
      rfl
    · cases h
      split <;> rfl
    · cases h
      rfl

theorem act_conn {base own : Nat} {thread : Option Nat} {v w : Life}
    {o : TcpConnection.Outcome} (h : act base own thread v o = .ok w) :
    ∃ calls, o = .ok (w.track.conn, calls) := by
  obtain ⟨conn, calls, hc, hrun⟩ := act_cases h
  have same := run_frame (fun v => v.track.conn) (fun _ _ _ _ made => perform_conn made) hrun
  exact ⟨calls, by rw [same, hc]⟩

/-- The invariant of a life: the constructor's wiring, and one of the stages. -/
structure Inv (base own : Nat) (v : Life) : Prop where
  wired : v.track.conn.Wired
  stage : Stage base own v

theorem start_inv (base own sockfd : Nat) (wc : Bool) : Inv base own (start sockfd wc) :=
  ⟨rfl, start_stage base own sockfd wc⟩

/-- A step leaves the connection alone or runs a member function of it. -/
theorem step_conn {base own : Nat} {v w : Life} {op : Op} (h : step base own v op = .ok w) :
    w.track.conn = v.track.conn ∨ ∃ (op : TcpConnection.ConnOp) (calls : List Call),
      op.apply v.track.conn = .ok (w.track.conn, calls) := by
  cases op with
  | functor wr shutdown =>
    simp only [step] at h
    split at h
    · cases h
    · rename_i f rest _
      split at h
      · cases h
      · obtain ⟨calls, hc⟩ := act_conn h
        exact Or.inr ⟨.functor f wr shutdown, calls, hc⟩
  | event revents input =>
    simp only [step] at h
    split at h
    · obtain ⟨calls, hc⟩ := act_conn h
      exact Or.inr ⟨.event revents input, calls, hc⟩
    · cases h
  | poll =>
    simp only [step] at h
    split at h
    · cases h
      exact Or.inl rfl
    · cases h
  | user thread u =>
    obtain ⟨calls, hc⟩ := act_conn h
    exact Or.inr ⟨.user _ u, calls, hc⟩
  | remove =>
    simp only [step] at h
    split at h
    · cases h
    · cases h
      exact Or.inl rfl

theorem step_wired {base own : Nat} {v w : Life} (wired : v.track.conn.Wired) {op : Op}
    (h : step base own v op = .ok w) : w.track.conn.Wired := by
  rcases step_conn h with same | ⟨op, calls, hc⟩
  · rw [same]
    exact wired
  · exact op.apply_wired wired hc

/-- The descriptor of a connection is that of its socket for good. -/
theorem step_fd {base own : Nat} {v w : Life} (wired : v.track.conn.Wired) {op : Op}
    (h : step base own v op = .ok w) : w.track.conn.channel.fd = v.track.conn.channel.fd := by
  rcases step_conn h with same | ⟨op, calls, hc⟩
  · rw [same]
  · exact (op.apply_callbacks wired hc).2

/-- A step keeps the invariant, and `state_` moves forward. -/
theorem Inv.step {base own : Nat} {v w : Life} (inv : Inv base own v) {op : Op}
    (h : Life.step base own v op = .ok w) :
    Inv base own w ∧ rank v.track.conn.state ≤ rank w.track.conn.state := by
  have kept : Kept base own v w := by
    cases op with
    | functor wr shutdown => exact functor_kept inv.stage h
    | event revents input => exact event_kept inv.stage inv.wired h
    | poll => exact poll_kept inv.stage h
    | user thread u => exact user_kept inv.stage h
    | remove => exact remove_kept inv.stage h
  exact ⟨⟨step_wired inv.wired h, kept.1⟩, kept.2⟩

theorem reached_inv {base own sockfd : Nat} {wc : Bool} {v : Life}
    (reached : Reaches (Life.step base own) (start sockfd wc) v) : Inv base own v :=
  Reaches.keeps (fun _ _ _ inv h => (inv.step h).1) reached (start_inv base own sockfd wc)

theorem Inv.forward {base own : Nat} {v w : Life} (inv : Inv base own v)
    (reaches : Reaches (Life.step base own) v w) :
    rank v.track.conn.state ≤ rank w.track.conn.state := by
  have keep : ∀ x op y,
      Inv base own x ∧ rank v.track.conn.state ≤ rank x.track.conn.state →
      Life.step base own x op = .ok y →
      Inv base own y ∧ rank v.track.conn.state ≤ rank y.track.conn.state := by
    rintro x op y ⟨hx, le⟩ h
    obtain ⟨hy, le'⟩ := hx.step h
    exact ⟨hy, Nat.le_trans le le'⟩
  exact (Reaches.keeps keep reaches ⟨inv, Nat.le_refl _⟩).2

/-- A history is the beginning of this one: set up, events and messages, the close,
the removal on `base` and the destruction on `own`. -/
theorem Stage.history {base own : Nat} {v : Life} (stage : Stage base own v) :
    ∃ traffic, Traffic traffic ∧ v.track.history <+:
      opening ++ traffic ++ [.closeCallback, .removed base, .connectDestroyed own] := by
  cases stage with
  | accepted _ _ _ _ _ trace =>
    exact ⟨[], fun x hx => absurd hx (by simp), by rw [trace]; exact List.nil_prefix⟩
  | up traffic ht _ _ _ _ trace =>
    exact ⟨traffic, ht, by rw [trace]; exact List.prefix_append _ _⟩
  | closed traffic ht _ _ _ trace =>
    exact ⟨traffic, ht, by rw [trace]; exact ⟨_, List.append_assoc _ _ _⟩⟩
  | removed traffic _ _ ht _ _ _ _ _ trace =>
    exact ⟨traffic, ht, by rw [trace]; exact ⟨_, List.append_assoc _ _ _⟩⟩
  | destroyed traffic ht _ _ _ trace =>
    exact ⟨traffic, ht, [], by rw [trace, List.append_nil]⟩

/-! ## After the end -/

/-- A connection whose `connectDestroyed` has run is gone. -/
def Finished (own : Nat) (v : Life) : Prop :=
  .connectDestroyed own ∈ v.track.history → Gone v

/-- No call brings a channel back, and none makes `connectDestroyed` run. -/
structure Rests (own : Nat) (v w : Life) : Prop where
  gone : Gone v → Gone w
  history : .connectDestroyed own ∈ w.track.history → .connectDestroyed own ∈ v.track.history

theorem Rests.trans {own : Nat} {v w x : Life} (h : Rests own v w) (h' : Rests own w x) :
    Rests own v x :=
  ⟨fun gone => h'.gone (h.gone gone), fun mem => h.history (h'.history mem)⟩

theorem Rests.of_same {own : Nat} {v w : Life}
    (registration : w.track.registration = v.track.registration)
    (history : .connectDestroyed own ∈ w.track.history →
      .connectDestroyed own ∈ v.track.history) : Rests own v w := by
  refine ⟨?_, history⟩
  rintro ⟨indexed, slot⟩
  exact ⟨by rw [registration]; exact indexed, by rw [registration]; exact slot⟩

theorem Rests.finished {own : Nat} {v w : Life} (h : Rests own v w)
    (finished : Finished own v) : Finished own w :=
  fun mem => h.gone (finished (h.history mem))

theorem perform_rests {base own : Nat} {thread : Option Nat} {call : Call} {v w : Life}
    (h : perform base own thread v call = .ok w) : Rests own v w := by
  cases call with
  | update ch =>
    obtain ⟨r, hr, rfl⟩ := perform_update h
    refine ⟨?_, id⟩
    rintro ⟨indexed, slot⟩
    simp only [Registration.update, indexed, slot, if_true] at hr
    cases hr
  | removeChannel =>
    obtain ⟨r, hr, rfl⟩ := perform_removeChannel h
    refine ⟨?_, id⟩
    rintro ⟨indexed, slot⟩
    simp only [Registration.remove, slot] at hr
    cases hr
  | closeCallback =>
    simp only [perform, Track.note, Except.ok.injEq] at h
    split at h
    · subst h
      exact .of_same rfl (by simp [remove, Track.see])
    · subst h
      exact .of_same rfl (by simp [Track.see])
  | connCallback connected =>
    cases h
    exact .of_same rfl (by simp [Track.see])
  | messageCallback =>
    cases h
    exact .of_same rfl (by simp [Track.see])
  | _ =>
    cases h
    exact .of_same rfl id

theorem run_perform_rests {base own : Nat} {thread : Option Nat} {calls : List Call}
    {v w : Life} (h : run (perform base own thread) v calls = .ok w) : Rests own v w :=
  run_relates (R := Rests own) (fun _ => .of_same rfl id) Rests.trans
    (fun _ _ _ _ made => perform_rests made) h

theorem act_rests {base own : Nat} {thread : Option Nat} {v w : Life}
    {o : TcpConnection.Outcome} (h : act base own thread v o = .ok w) : Rests own v w := by
  obtain ⟨conn, calls, _, hrun⟩ := act_cases h
  have begun : Rests own v { v with track := { v.track with conn := conn } } :=
    .of_same rfl id
  exact begun.trans (run_perform_rests hrun)

/-- The channel of a connection that is gone does not come back. -/
theorem step_gone {base own : Nat} {v w : Life} (gone : Gone v) {op : Op}
    (h : step base own v op = .ok w) : Gone w := by
  obtain ⟨indexed, slot⟩ := gone
  cases op with
  | functor wr shutdown =>
    simp only [step] at h
    split at h
    · cases h
    rename_i f rest queue
    split at h
    · cases h
    have same : (v.track.starts own f).registration = v.track.registration := by
      cases f <;> rfl
    exact (act_rests h).gone ⟨by rw [same]; exact indexed, by rw [same]; exact slot⟩
  | event revents input =>
    simp only [step] at h
    split at h
    · exact (act_rests h).gone ⟨indexed, slot⟩
    · cases h
  | poll =>
    simp only [step] at h
    split at h
    · cases h
      exact ⟨indexed, slot⟩
    · cases h
  | user thread u => exact (act_rests h).gone ⟨indexed, slot⟩
  | remove =>
    simp only [step] at h
    split at h
    · cases h
    · cases h
      exact ⟨indexed, slot⟩

theorem Inv.finished {base own : Nat} {v w : Life} (inv : Inv base own v)
    (finished : Finished own v) {op : Op} (h : Life.step base own v op = .ok w) :
    Finished own w := by
  cases op with
  | functor wr shutdown =>
    simp only [Life.step] at h
    split at h
    · cases h
    rename_i f rest queue
    split at h
    · cases h
    by_cases last : f = .connectDestroyed
    · subst last
      exact fun _ => (destroy inv.stage queue h).2
    · refine Rests.finished (Rests.trans ?_ (act_rests h)) finished
      refine .of_same ?_ ?_
      · cases f <;> rfl
      · cases f with
        | connectDestroyed => exact absurd rfl last
        | connectEstablished => simp [Track.starts, Track.see]
        | _ => exact id
  | event revents input =>
    simp only [Life.step] at h
    split at h
    · have seen : Rests own v { v with active := false, track := v.track.see .event } :=
        .of_same rfl (by simp [Track.see])
      exact (seen.trans (act_rests h)).finished finished
    · cases h
  | poll =>
    simp only [Life.step] at h
    split at h
    · cases h
      have same : Rests own v { v with active := true } := .of_same rfl id
      exact same.finished finished
    · cases h
  | user thread u => exact (act_rests h).finished finished
  | remove =>
    simp only [Life.step] at h
    split at h
    · cases h
    · rename_i n more
      cases h
      have removed : Rests own v ({ v with removals := n }.remove base) :=
        .of_same rfl (by simp [Life.remove, Track.see])
      exact removed.finished finished

theorem reached_finished {base own sockfd : Nat} {wc : Bool} {v : Life}
    (reached : Reaches (Life.step base own) (start sockfd wc) v) : Finished own v := by
  have keep : ∀ x o y, Inv base own x ∧ Finished own x → Life.step base own x o = .ok y →
      Inv base own y ∧ Finished own y :=
    fun x o y both h => ⟨(both.1.step h).1, both.1.finished both.2 h⟩
  refine (Reaches.keeps keep reached ⟨start_inv base own sockfd wc, ?_⟩).2
  intro mem
  cases mem

/-! ## What has happened stays -/

section History
variable {base own : Nat} {thread : Option Nat} {v w : Life}

theorem perform_history {call : Call} (h : perform base own thread v call = .ok w) :
    v.track.history <+: w.track.history := by
  cases call with
  | update ch =>
    obtain ⟨r, _, rfl⟩ := perform_update h
    exact List.prefix_rfl
  | removeChannel =>
    obtain ⟨r, _, rfl⟩ := perform_removeChannel h
    exact List.prefix_rfl
  | closeCallback =>
    simp only [perform, Track.note, Except.ok.injEq] at h
    split at h
    · subst h
      exact ⟨[.closeCallback, .removed base], by simp [remove, Track.see]⟩
    · subst h
      exact List.prefix_append _ _
  | connCallback connected =>
    cases h
    exact List.prefix_append _ _
  | messageCallback =>
    cases h
    exact List.prefix_append _ _
  | _ =>
    cases h
    exact List.prefix_rfl

theorem act_history {o : TcpConnection.Outcome} (h : act base own thread v o = .ok w) :
    v.track.history <+: w.track.history := by
  obtain ⟨conn, calls, _, ran⟩ := act_cases h
  exact run_relates (R := fun m n => m.track.history <+: n.track.history)
    (fun _ => List.prefix_rfl) List.IsPrefix.trans (fun _ _ _ _ made => perform_history made) ran

theorem step_history {op : Op} (h : step base own v op = .ok w) :
    v.track.history <+: w.track.history := by
  cases op with
  | functor wr shutdown =>
    simp only [step] at h
    split at h
    · cases h
    rename_i f rest queue
    split at h
    · cases h
    have begun : v.track.history <+: (v.track.starts own f).history := by
      cases f <;> first | exact List.prefix_rfl | exact List.prefix_append _ _
    exact begun.trans (act_history h)
  | event revents input =>
    simp only [step] at h
    split at h
    · exact (List.prefix_append _ _).trans (act_history h)
    · cases h
  | poll =>
    simp only [step] at h
    split at h
    · cases h
      exact List.prefix_rfl
    · cases h
  | user thread u => exact act_history h
  | remove =>
    simp only [step] at h
    split at h
    · cases h
    · cases h
      exact List.prefix_append _ _

theorem reaches_history (h : Reaches (step base own) v w) :
    v.track.history <+: w.track.history := by
  have keep : ∀ (m : Life) (op : Op) (n : Life), v.track.history <+: m.track.history →
      step base own m op = .ok n → v.track.history <+: n.track.history :=
    fun _ _ _ before made => before.trans (step_history made)
  exact h.keeps keep List.prefix_rfl

end History

end Life

end ZDQ
