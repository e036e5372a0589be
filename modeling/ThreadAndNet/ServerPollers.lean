import ThreadAndNet.ServerLoad

/-!
# The pollers of a server's loops

A server knows of each connection only what its poller records about that one. Here the
pollers themselves stand beside it, one for each loop, and every call of a connection reaches
the poller of its loop. Their records stay those of the connections; an update that the record
allows goes through, and so does a removal unless it meets a slot that holds -1.
-/

namespace ZDQ

open Machine

/-- The effect of a call on the record of the connection that makes it. -/
def Registration.note (r : Registration) : Call → Except Failure Registration
  | .update ch => r.update ch
  | .removeChannel => r.remove
  | _ => .ok r

theorem Registration.update_congr (r : Registration) {ch ch' : Channel} (fd : ch'.fd = ch.fd)
    (events : ch'.events = ch.events) : r.update ch' = r.update ch := by
  obtain ⟨_, _, _, _⟩ := ch
  obtain ⟨_, _, _, _⟩ := ch'
  cases fd
  cases events
  rfl

/-- Whatever a call is about to update is the channel of this descriptor. -/
def Call.Concerns (fd : Nat) : Call → Prop
  | .update ch => ch.fd = fd
  | _ => True

namespace Poller
variable {C : Type*} [DecidableEq C]

/-- The effect of a call on the poller; `c` is the channel of the connection that makes it. -/
def note (c : C) (p : Poller C) : Call → Except Failure (Poller C)
  | .update ch =>
    -- the poller reads the events the connection asks for, at the index it gave the channel
    { p with
      chan := Function.update p.chan c { p.chan c with events := ch.events } }.updateChannel c
  | .removeChannel => p.removeChannel c
  | _ => .ok p

theorem registered_of_remove {p : Poller C} {c : C} {r : Registration}
    (h : (p.registration c).remove = .ok r) : p.Registered c := by
  by_contra missing
  simp [registration, missing, Registration.remove] at h

section Note
variable {fd : C → Nat} {p q : Poller C} {c : C} {r : Registration}

/-- A call moves the record of its own channel as it moves the connection's. -/
theorem WF.note (inj : Function.Injective fd) (wf : WF fd p) {call : Call}
    (own : call.Concerns (fd c)) (hr : (p.registration c).note call = .ok r)
    (h : p.note c call = .ok q) :
    WF fd q ∧ q.registration c = r ∧ ∀ d, d ≠ c → q.registration d = p.registration d := by
  cases call with
  | update ch =>
    let asked : Channel := { p.chan c with events := ch.events }
    have hfd : asked.fd = (p.chan c).fd := rfl
    obtain ⟨updated, others⟩ := wf.updateChannel_registration inj hfd rfl h
    have same : asked.fd = ch.fd := by
      rw [own]
      exact wf.fds c
    rw [Registration.update_congr _ same rfl] at updated
    exact ⟨wf.updateChannel inj hfd rfl h, Except.ok.inj (updated.symm.trans hr), others⟩
  | removeChannel =>
    have hc := registered_of_remove hr
    obtain ⟨removed, others⟩ := wf.removeChannel_registration inj hc h
    exact ⟨(wf.remove_exact inj hc h).wf inj wf, Except.ok.inj (removed.symm.trans hr), others⟩
  | _ =>
    cases h
    exact ⟨wf, Except.ok.inj hr, fun _ _ => rfl⟩

/-- An update that the record allows goes through. -/
theorem WF.note_ok (inj : Function.Injective fd) (wf : WF fd p) {call : Call}
    (other : call ≠ .removeChannel) (hr : (p.registration c).note call = .ok r) :
    ∃ q, p.note c call = .ok q := by
  cases call with
  | removeChannel => exact absurd rfl other
  | update ch =>
    refine updateChannel_ok rfl rfl ?_
    by_cases hc : p.Registered c
    · obtain ⟨pfd, slot, _⟩ := wf.registration_self hc
      exact .inr ⟨hc, pfd, slot⟩
    · refine .inl ⟨?_, wf.absent_of_unregistered inj hc⟩
      by_contra indexed
      have indexed : 0 ≤ (p.chan c).index := by omega
      simp [registration, hc, Registration.note, Registration.update, indexed] at hr
  | _ => exact ⟨p, rfl⟩

theorem WF.run_note (inj : Function.Injective fd) (wf : WF fd p) {calls : List Call}
    (own : ∀ call ∈ calls, call.Concerns (fd c))
    (hr : run Registration.note (p.registration c) calls = .ok r)
    (h : run (Poller.note c) p calls = .ok q) :
    WF fd q ∧ q.registration c = r ∧ ∀ d, d ≠ c → q.registration d = p.registration d := by
  induction calls generalizing p with
  | nil =>
    cases h
    exact ⟨wf, Except.ok.inj hr, fun _ _ => rfl⟩
  | cons call rest ih =>
    obtain ⟨m, hm, hrest⟩ := run_cons_inv h
    obtain ⟨x, hx, hrest'⟩ := run_cons_inv hr
    obtain ⟨wf', rfl, others⟩ := wf.note inj (own call List.mem_cons_self) hx hm
    obtain ⟨wf'', same, others'⟩ :=
      ih wf' (fun a mem => own a (List.mem_cons_of_mem call mem)) hrest' hrest
    exact ⟨wf'', same, fun d other => (others' d other).trans (others d other)⟩

theorem WF.run_note_ok (inj : Function.Injective fd) (wf : WF fd p) {calls : List Call}
    (own : ∀ call ∈ calls, call.Concerns (fd c)) (others : .removeChannel ∉ calls)
    (hr : run Registration.note (p.registration c) calls = .ok r) :
    ∃ q, run (Poller.note c) p calls = .ok q := by
  induction calls generalizing p with
  | nil => exact ⟨p, rfl⟩
  | cons call rest ih =>
    obtain ⟨x, hx, hrest⟩ := run_cons_inv hr
    have first : call ≠ .removeChannel := fun same => others (same ▸ List.mem_cons_self)
    obtain ⟨m, hm⟩ := wf.note_ok inj first hx
    obtain ⟨wf', rfl, _⟩ := wf.note inj (own call List.mem_cons_self) hx hm
    rw [run_cons_ok hm]
    exact ih wf' (fun a mem => own a (List.mem_cons_of_mem call mem))
      (fun mem => others (List.mem_cons_of_mem call mem)) hrest

end Note

end Poller

/-! ## The updates of a connection are about its own channel -/

namespace TcpConnection

variable {c d : TcpConnection} {calls : List Call}

theorem keepUnsent_concerns {message : List UInt8} {k : Nat}
    (h : c.keepUnsent message k = .ok (d, calls)) :
    ∀ call ∈ calls, call.Concerns c.channel.fd := by
  intro call mem
  rcases keepUnsent_cases h with ⟨_, _, _, ⟨_, rfl⟩ | ⟨_, rfl⟩⟩ | ⟨_, rfl⟩
  · cases mem
  · cases List.mem_singleton.mp mem
    rfl
  · rw [eq_of_mem_writeComplete mem]
    trivial

theorem sendInLoop_concerns {message : List UInt8} {w : WriteResult}
    (h : c.sendInLoop message w = .ok (d, calls)) :
    ∀ call ∈ calls, call.Concerns c.channel.fd := by
  rcases sendInLoop_cases h with ⟨_, _, _, more, hd, rfl⟩ | ⟨_, hd⟩
  · intro call mem
    rcases List.mem_cons.mp mem with rfl | mem
    · trivial
    · exact keepUnsent_concerns hd call mem
  · exact keepUnsent_concerns hd

theorem shutdownInLoop_concerns {shutdown : Status}
    (h : c.shutdownInLoop shutdown = .ok (d, calls)) :
    ∀ call ∈ calls, call.Concerns c.channel.fd := by
  intro call mem
  obtain ⟨_, ⟨_, rfl⟩ | ⟨_, rfl⟩⟩ := shutdownInLoop_cases h
  · cases mem
  · cases List.mem_singleton.mp mem
    trivial

theorem handleClose_concerns (h : c.handleClose = .ok (d, calls)) :
    ∀ call ∈ calls, call.Concerns c.channel.fd := by
  cases h
  intro call mem
  rcases List.mem_pair.mp mem with rfl | rfl
  · rfl
  · trivial

theorem userCall_concerns {inLoop : Bool} {u : UserCall}
    (h : c.userCall inLoop u = .ok (d, calls)) :
    ∀ call ∈ calls, call.Concerns c.channel.fd := by
  intro call mem
  cases u with
  | send message w =>
    simp only [userCall, send] at h
    split at h
    · split at h
      · exact sendInLoop_concerns h call mem
      · cases h
        cases List.mem_singleton.mp mem
        trivial
    · cases h
      cases mem
  | shutdown result =>
    simp only [userCall, shutdown] at h
    split at h
    · split at h
      · exact shutdownInLoop_concerns h call mem
      · cases h
        cases List.mem_singleton.mp mem
        trivial
    · cases h
      cases mem
  | forceClose =>
    simp only [userCall, forceClose] at h
    split at h
    · cases h
      cases List.mem_singleton.mp mem
      trivial
    · cases h
      cases mem
  | retrieve len =>
    simp only [userCall] at h
    split at h
    · cases h
    · cases h
      cases mem

theorem userCalls_concerns {us : List UserCall} (h : c.userCalls us = .ok (d, calls)) :
    ∀ call ∈ calls, call.Concerns c.channel.fd := by
  induction us generalizing c d calls with
  | nil =>
    cases h
    exact fun call mem => absurd mem List.not_mem_nil
  | cons u rest ih =>
    obtain ⟨m, first, second, hm, hd, rfl⟩ := andThen_cases h
    intro call mem
    rcases List.mem_append.mp mem with mem | mem
    · exact userCall_concerns hm call mem
    · rw [← (userCall_userOnly hm).fd]
      exact ih hd call mem

theorem handleEvent_concerns (wired : c.Wired) {revents : BitVec 32} {input : EventInput}
    (h : c.handleEvent revents input = .ok (d, calls)) :
    ∀ call ∈ calls, call.Concerns c.channel.fd := by
  intro call mem
  rcases handleEvent_cases wired h with h | ⟨_, rfl⟩
  · obtain ⟨inputBuf, ⟨more, hd, rfl⟩ | hclose | ⟨_, rfl⟩⟩ := handleRead_cases h
    · rcases List.mem_cons.mp mem with rfl | mem
      · trivial
      · exact userCalls_concerns hd call mem
    · exact handleClose_concerns hclose call mem
    · cases mem
  · cases mem

theorem runFunctor_concerns {f : ConnFunctor} {w : WriteResult} {shutdown : Status}
    (h : c.runFunctor w shutdown f = .ok (d, calls)) :
    ∀ call ∈ calls, call.Concerns c.channel.fd := by
  intro call mem
  cases f with
  | connectEstablished =>
    simp only [runFunctor, connectEstablished] at h
    split at h
    · cases h
      rcases List.mem_pair.mp mem with rfl | rfl
      · rfl
      · trivial
    · cases h
  | connectDestroyed =>
    simp only [runFunctor, connectDestroyed] at h
    split at h
    · cases h
      simp only [List.mem_cons, List.not_mem_nil, or_false] at mem
      rcases mem with rfl | rfl | rfl
      · rfl
      · trivial
      · trivial
    · cases h
      cases List.mem_singleton.mp mem
      trivial
  | sendInLoop message => exact sendInLoop_concerns h call mem
  | shutdownInLoop => exact shutdownInLoop_concerns h call mem
  | forceCloseInLoop =>
    simp only [runFunctor, forceCloseInLoop] at h
    split at h
    · exact handleClose_concerns h call mem
    · cases h
      cases mem
  | writeCompleteCallback =>
    cases h
    cases mem

theorem ConnOp.apply_concerns (wired : c.Wired) {op : ConnOp}
    (h : op.apply c = .ok (d, calls)) : ∀ call ∈ calls, call.Concerns c.channel.fd := by
  cases op with
  | functor f w shutdown => exact runFunctor_concerns h
  | user inLoop u => exact userCall_concerns h
  | event revents input => exact handleEvent_concerns wired h

end TcpConnection

/-! ## The record in the life of a connection -/

namespace Life

variable {base own : Nat} {thread : Option Nat} {v w : Life}

theorem perform_note {call : Call} (h : perform base own thread v call = .ok w) :
    v.track.registration.note call = .ok w.track.registration := by
  cases call with
  | update ch =>
    obtain ⟨r, hr, rfl⟩ := perform_update h
    exact hr
  | removeChannel =>
    obtain ⟨r, hr, rfl⟩ := perform_removeChannel h
    exact hr
  | closeCallback =>
    simp only [perform, Track.note, Except.ok.injEq] at h
    split at h
    · subst h
      rfl
    · subst h
      rfl
  | _ =>
    cases h
    rfl

theorem run_perform_note {calls : List Call} (h : run (perform base own thread) v calls = .ok w) :
    run Registration.note v.track.registration calls = .ok w.track.registration := by
  induction calls generalizing v with
  | nil =>
    cases h
    rfl
  | cons call rest ih =>
    obtain ⟨m, hm, hrest⟩ := run_cons_inv h
    rw [run_cons_ok (perform_note hm)]
    exact ih hrest

/-- What a member function did to the record is what its calls do. -/
theorem act_note {o : TcpConnection.Outcome} (h : act base own thread v o = .ok w) :
    ∃ d calls, o = .ok (d, calls) ∧
      run Registration.note v.track.registration calls = .ok w.track.registration := by
  obtain ⟨d, calls, made, hrun⟩ := act_cases h
  have noted := run_perform_note hrun
  exact ⟨d, calls, made, noted⟩

end Life

/-! ## The calls of a step -/

/-- A channel in the poller of a loop. -/
inductive LoopChannel where
  /-- `timerfdChannel_` of the `TimeQueue` of loop `l` -/
  | timerfd (l : Nat)
  /-- `wakeupChannel_` of loop `l` -/
  | wakeup (l : Nat)
  | server (c : ServerChannel)
deriving DecidableEq

namespace TcpServer

/-- The connection whose member function a step runs, the loop it belongs to, and what the
function returns. -/
def outcome (s : TcpServer) : Op → Option (Nat × Nat × TcpConnection.Outcome)
  | .accept (some sockfd) _ =>
    -- on loop 0 `runInLoop` sets the new connection up at once
    if s.numThreads = 0 then
      some (0, s.nextConnTd,
        (TcpConnection.new sockfd s.writeCompleteCallback).connectEstablished)
    else none
  | .event l revents input =>
    match (s.loops l).nextChannel with
    | .ok (.conn c, _) =>
      (s.served c).map fun e => (l, c, e.track.conn.handleEvent revents input)
    | _ => none
  | .functor l w shutdown =>
    match (s.loops l).nextFunctor with
    | .ok (.conn c f, _) =>
      (s.served c).map fun e => (l, c, e.track.conn.runFunctor w shutdown f)
    | _ => none
  | .user thread c u =>
    (s.served c).map fun e => (e.loop, c, e.track.conn.userCall (thread == some e.loop) u)
  | _ => none

/-- What the calls of a step do to the pollers of the loops. -/
def notePollers (s : TcpServer) (pollers : Nat → Poller LoopChannel) (op : Op) :
    Except Failure (Nat → Poller LoopChannel) :=
  match s.outcome op with
  | some (l, c, .ok (_, calls)) =>
    (run (Poller.note (.server (.conn c))) (pollers l) calls).map (Function.update pollers l)
  | _ => .ok pollers

/-- What the poller records of connection `c`, which may be still to come. -/
def record (s : TcpServer) (c : Nat) : Registration :=
  match s.served c with
  | none => .fresh
  | some e => e.track.registration

variable {s t : TcpServer} {c : Nat} {e e' : Served}

theorem record_eq (he : s.served c = some e) : s.record c = e.track.registration := by
  rw [record, he]

theorem record_none (none : s.served c = none) : s.record c = .fresh := by
  rw [record, none]

theorem record_congr {d : Nat} (served : t.served d = s.served d) : t.record d = s.record d := by
  rw [record, record, served]

theorem record_put (he : s.served c = some e) (same : e'.track = e.track) (d : Nat) :
    (s.put c e').record d = s.record d := by
  by_cases hd : d = c
  · subst hd
    rw [record_eq he, record_eq (served_put_self s d e'), same]
  · exact record_congr (served_put_other s e' hd)

theorem Touches.records (touches : Touches s t c e e') {d : Nat} (other : d ≠ c) :
    t.record d = s.record d :=
  record_congr (touches.others d other).1

/-- The calls of a step take the record of their connection to the one after the step, and
the records of all others stay. -/
structure Acts (s t : TcpServer) (l c : Nat) (calls : List Call) : Prop where
  loop : ∃ e, t.served c = some e ∧ e.loop = l
  own : run Registration.note (s.record c) calls = .ok (t.record c)
  others : ∀ d, d ≠ c → t.record d = s.record d

theorem Touches.acts (touches : Touches s t c e e') {calls : List Call}
    (hr : run Registration.note e.track.registration calls = .ok e'.track.registration) :
    Acts s t e.loop c calls := by
  refine ⟨⟨e', touches.after, touches.same.loop⟩, ?_, fun d other => touches.records other⟩
  rw [record_eq touches.before, record_eq touches.after]
  exact hr

theorem accept_acts (located : Located s) {sockfd : Nat} {names : SockNames}
    (h : s.step (.accept (some sockfd) names) = .ok t) :
    if s.numThreads = 0 then ∃ d calls,
      (TcpConnection.new sockfd s.writeCompleteCallback).connectEstablished = .ok (d, calls) ∧
        Acts s t 0 s.nextConnTd calls
    else ∀ d, t.record d = s.record d := by
  obtain ⟨fd, loop, same, taken, _, hnew⟩ := accept_cases located h
  cases same
  have fresh := located.fresh s.nextConnTd (Nat.le_refl _)
  obtain ⟨_, conns, next, e, made, _, hnew⟩ := newConnection_cases hnew
  let m := (s.onLoop 0 loop).created conns next e
  have placed : Located m := created_located taken conns next e
  have there : m.served s.nextConnTd = some e := served_put_self ..
  have others : ∀ d, d ≠ s.nextConnTd → m.record d = s.record d := fun d other =>
    record_congr (created_others (s.onLoop 0 loop) conns next e d other).1
  have unborn : s.record s.nextConnTd = .fresh := record_none fresh
  have track : e.track = .create sockfd s.writeCompleteCallback := by rw [made]; rfl
  have turn : e.loop = if s.numThreads = 0 then 0 else s.next + 1 := by
    rw [made]
    exact getNextLoop_loop (s.onLoop 0 loop)
  split
  · rename_i base
    rw [if_pos base] at turn
    obtain ⟨_, established⟩ | ⟨elsewhere, _⟩ := hnew
    · obtain ⟨e', touches, hact⟩ := runConn_life placed there established
      obtain ⟨d, calls, returned, hr⟩ := Life.act_note hact
      rw [track] at returned
      refine ⟨d, calls, returned, ⟨e', touches.after, touches.same.loop.trans turn⟩, ?_, ?_⟩
      · rw [unborn, record_eq touches.after]
        have start : (e.track.starts 0 .connectEstablished).registration = .fresh := by
          rw [track]
          rfl
        rw [← start]
        exact hr
      · exact fun d other => (touches.records other).trans (others d other)
    · exact absurd turn elsewhere
  · rename_i threads
    rw [if_neg threads] at turn
    obtain ⟨base, _⟩ | ⟨_, rfl⟩ := hnew
    · omega
    · intro d
      by_cases hd : d = s.nextConnTd
      · subst hd
        have after : m.record s.nextConnTd = .fresh := by
          rw [record_eq there, track]
          rfl
        exact after.trans unborn.symm
      · exact others d hd

/-- What became of the records in a step with this outcome. -/
inductive Noted (s t : TcpServer) : Option (Nat × Nat × TcpConnection.Outcome) → Prop where
  | rests : (∀ d, t.record d = s.record d) → Noted s t none
  | acts {l c : Nat} {d : TcpConnection} {calls : List Call} :
      Acts s t l c calls → Noted s t (some (l, c, .ok (d, calls)))

theorem event_noted (located : Located s) {l : Nat} {revents : BitVec 32}
    {input : TcpConnection.EventInput} (h : s.step (.event l revents input) = .ok t) :
    Noted s t (s.outcome (.event l revents input)) := by
  obtain ⟨c, loop, e, e', hnext, rfl, active, touches, hlife⟩ := event_life located h
  rw [Life.step, if_pos active] at hlife
  obtain ⟨d, calls, returned, hr⟩ := Life.act_note hlife
  have returned : e.track.conn.handleEvent revents input = .ok (d, calls) := returned
  simp only [outcome, hnext, touches.before, Option.map_some, returned]
  exact .acts (touches.acts hr)

theorem functor_noted (located : Located s) {l : Nat} {w : WriteResult} {shutdown : Status}
    (h : s.step (.functor l w shutdown) = .ok t) :
    Noted s t (s.outcome (.functor l w shutdown)) := by
  obtain ⟨c, cb, loop, e, e', op, hnext, kind, touches, hlife⟩ := functor_life located h
  rcases kind with ⟨f, rfl, rfl, next, rfl⟩ | ⟨rfl, rfl⟩
  · simp only [Life.step] at hlife
    split at hlife
    · cases hlife
    rename_i g rest queue
    rw [queue] at next
    cases next
    split at hlife
    · cases hlife
    obtain ⟨d, calls, returned, hr⟩ := Life.act_note hlife
    have returned : e.track.conn.runFunctor w shutdown f = .ok (d, calls) := returned
    have begun : (e.track.starts e.loop f).registration = e.track.registration := by
      cases f <;> rfl
    simp only [outcome, hnext, touches.before, Option.map_some, returned]
    refine .acts (touches.acts ?_)
    rw [← begun]
    exact hr
  · simp only [Life.step] at hlife
    split at hlife
    · cases hlife
    simp only [outcome, hnext]
    refine .rests fun d => ?_
    by_cases hd : d = c
    · subst hd
      rw [record_eq touches.before, record_eq touches.after]
      exact (congrArg (fun v : Life => v.track.registration) (Except.ok.inj hlife)).symm
    · exact touches.records hd

/-- A step that runs no member function leaves the records; any other takes the calls that
the function made to the record of its connection. -/
theorem step_noted (located : Located s) {op : Op} (h : s.step op = .ok t) :
    Noted s t (s.outcome op) := by
  cases op with
  | move l v =>
    obtain ⟨_, same, _⟩ := move_life located h
    exact .rests fun d => record_congr (congrFun same d)
  | accept sockfd names =>
    obtain ⟨fd, _, rfl, _⟩ := accept_cases located h
    have accepted := accept_acts located h
    simp only [outcome]
    split at accepted
    · rename_i base
      obtain ⟨d, calls, established, acted⟩ := accepted
      rw [if_pos base, established]
      exact .acts acted
    · rename_i threads
      rw [if_neg threads]
      exact .rests accepted
  | event l revents input => exact event_noted located h
  | functor l w shutdown => exact functor_noted located h
  | user thread c u =>
    simp only [step] at h
    split at h
    · cases h
    rename_i e he
    obtain ⟨e', touches, hact⟩ := act_life located he h
    obtain ⟨d, calls, returned, hr⟩ := Life.act_note hact
    rw [outcome, he, Option.map_some, returned]
    exact .acts (touches.acts hr)
  | hold c =>
    simp only [step] at h
    split at h
    · cases h
    rename_i e he
    cases h
    exact .rests (record_put he rfl)
  | release c =>
    simp only [step] at h
    split at h
    · cases h
    rename_i e he
    split at h
    · cases h
    cases h
    exact .rests (record_put he rfl)

/-! ## The pollers follow the records -/

variable {fd : LoopChannel → Nat} {op : Op}

/-- `::accept` gives the next connection the descriptor that `fd` has for it. -/
def GivesOwn (fd : LoopChannel → Nat) (s : TcpServer) : Op → Prop
  | .accept (some sockfd) _ => sockfd = fd (.server (.conn s.nextConnTd))
  | _ => True

/-- Each connection is on the descriptor that `fd` has for it. -/
def OnOwn (fd : LoopChannel → Nat) (s : TcpServer) : Prop :=
  ∀ c e, s.served c = some e → e.track.conn.channel.fd = fd (.server (.conn c))

theorem OnOwn.step (onOwn : OnOwn fd s) (alive : Alive s) (gives : GivesOwn fd s op)
    (h : s.step op = .ok t) : OnOwn fd t := by
  intro c e' he'
  cases hs : s.served c with
  | some e =>
    obtain ⟨x, hx, _, reaches⟩ := (step_follows alive.located h).old c e hs
    cases hx.symm.trans he'
    exact (reaches_fd (alive.inv hs) reaches).trans (onOwn c e hs)
  | none =>
    have accepts : op.Accepts := by
      by_contra other
      cases ((step_still other h).known c).mpr hs ▸ he'
    cases op with
    | accept sockfd names =>
      obtain ⟨sockfd, loop, rfl, taken, _, hnew⟩ := accept_cases alive.located h
      obtain ⟨m, x, touches, others, started⟩ := newConnection_life taken hnew
      have self : c = s.nextConnTd := by
        by_contra other
        have same := (touches.others c other).1.trans (others c other).1
        cases hs.symm.trans (same.symm.trans he')
      subst self
      cases touches.after.symm.trans he'
      have sock : e'.track.conn.channel.fd = sockfd := by
        rcases started with same | first
        · exact congrArg (fun v : Life => v.track.conn.channel.fd) same
        · exact Life.step_fd (Life.start_inv 0 e'.loop sockfd s.writeCompleteCallback).wired first
      exact sock.trans gives
    | _ => cases accepts

/-- A step runs a member function of a connection there is, or sets up the one it accepts. -/
theorem outcome_cases {l : Nat} {o : TcpConnection.Outcome}
    (acts : s.outcome op = some (l, c, o)) :
    (∃ e conn, s.served c = some e ∧ o = TcpConnection.ConnOp.apply e.track.conn conn ∧
      ∀ f w shutdown, conn = .functor f w shutdown → op = .functor l w shutdown ∧
        ∃ loop, (s.loops l).nextFunctor = .ok (.conn c f, loop)) ∨
    ∃ sockfd names, op = .accept (some sockfd) names ∧ c = s.nextConnTd ∧
      o = (TcpConnection.new sockfd s.writeCompleteCallback).connectEstablished := by
  cases op with
  | move l v => cases acts
  | hold c => cases acts
  | release c => cases acts
  | accept sockfd names =>
    cases sockfd with
    | none => cases acts
    | some sockfd =>
      simp only [outcome] at acts
      split at acts
      · cases acts
        exact .inr ⟨sockfd, names, rfl, rfl, rfl⟩
      · cases acts
  | event k revents input =>
    simp only [outcome] at acts
    split at acts
    · obtain ⟨e, he, made⟩ := Option.map_eq_some_iff.mp acts
      cases made
      refine .inl ⟨e, .event revents input, he, rfl, fun f w shutdown same => ?_⟩
      cases same
    · cases acts
  | functor k w shutdown =>
    simp only [outcome] at acts
    split at acts
    · rename_i c' f loop hnext
      obtain ⟨e, he, made⟩ := Option.map_eq_some_iff.mp acts
      cases made
      refine .inl ⟨e, .functor f w shutdown, he, rfl, fun f' w' shutdown' same => ?_⟩
      cases same
      exact ⟨rfl, loop, hnext⟩
    · cases acts
  | user thread d u =>
    obtain ⟨e, he, made⟩ := Option.map_eq_some_iff.mp acts
    cases made
    refine .inl ⟨e, .user _ u, he, rfl, fun f w shutdown same => ?_⟩
    cases same

/-- A member function asks the poller about the channel of its own connection. -/
theorem outcome_concerns (onOwn : OnOwn fd s) (alive : Alive s) (gives : GivesOwn fd s op)
    {l : Nat} {d : TcpConnection} {calls : List Call}
    (acts : s.outcome op = some (l, c, .ok (d, calls))) :
    ∀ call ∈ calls, call.Concerns (fd (.server (.conn c))) := by
  rcases outcome_cases acts with ⟨e, conn, he, made, _⟩ | ⟨sockfd, names, rfl, rfl, made⟩
  · rw [← onOwn c e he]
    exact TcpConnection.ConnOp.apply_concerns (alive.inv he).wired made.symm
  · have gives : sockfd = fd (.server (.conn s.nextConnTd)) := gives
    rw [← gives]
    let conn := TcpConnection.new sockfd s.writeCompleteCallback
    have established : conn.runFunctor (.accepted 0) none .connectEstablished = .ok (d, calls) :=
      made.symm
    exact TcpConnection.runFunctor_concerns established

/-- The pollers of the loops hold of each connection what is recorded of it, on the loop
where it is or may still come to be. -/
structure Polled (fd : LoopChannel → Nat) (s : TcpServer)
    (pollers : Nat → Poller LoopChannel) : Prop where
  alive : Alive s
  onOwn : OnOwn fd s
  wf : ∀ l, (pollers l).WF fd
  record : ∀ l c, (∀ e, s.served c = some e → e.loop = l) →
    (pollers l).registration (.server (.conn c)) = s.record c

/-- `::poll` may report a connection exactly if the poller of its loop watches its channel. -/
theorem Polled.reports_iff {pollers : Nat → Poller LoopChannel} (polled : Polled fd s pollers)
    (he : s.served c = some e) : s.reports e.loop (.conn c) = true ↔
      ((pollers e.loop).registration (.server (.conn c))).Watched := by
  have there : ∀ x, s.served c = some x → x.loop = e.loop := by
    intro x hx
    cases he.symm.trans hx
    rfl
  rw [polled.record e.loop c there, record_eq he]
  simp [reports, he]

theorem conn_injective : Function.Injective fun c => LoopChannel.server (.conn c) := by
  intro c d same
  cases same
  rfl

section Follow
variable {pollers pollers' : Nat → Poller LoopChannel} {l : Nat}

/-- A connection that is on loop `l` after a step was not on another before it. -/
theorem loop_before (alive : Alive s) (h : s.step op = .ok t)
    (there : ∀ e, t.served c = some e → e.loop = l) : ∀ e, s.served c = some e → e.loop = l := by
  intro e he
  obtain ⟨e', he', same, _⟩ := (step_follows alive.located h).old c e he
  rw [← same.loop]
  exact there e' he'

/-- The calls of a step take what the poller of its loop has to what is recorded after it. -/
theorem Polled.acted (polled : Polled fd s pollers) (h : s.step op = .ok t)
    {d : TcpConnection} {calls : List Call}
    (acts : s.outcome op = some (l, c, .ok (d, calls))) :
    (∃ e, t.served c = some e ∧ e.loop = l) ∧
    run Registration.note ((pollers l).registration (.server (.conn c))) calls =
      .ok (t.record c) ∧ ∀ d, d ≠ c → t.record d = s.record d := by
  have noted := step_noted polled.alive.located h
  rw [acts] at noted
  cases noted with
  | acts acted =>
    obtain ⟨e, he, rfl⟩ := acted.loop
    refine ⟨⟨e, he, rfl⟩, ?_, acted.others⟩
    rw [polled.record _ c (loop_before polled.alive h fun x hx => ?_)]
    · exact acted.own
    · cases he.symm.trans hx
      rfl

theorem Polled.step (inj : Function.Injective fd) (polled : Polled fd s pollers)
    (gives : GivesOwn fd s op) (h : s.step op = .ok t)
    (hp : s.notePollers pollers op = .ok pollers') : Polled fd t pollers' := by
  have alive := polled.alive.step h
  have onOwn := polled.onOwn.step polled.alive gives h
  have noted := step_noted polled.alive.located h
  rw [notePollers] at hp
  cases acts : s.outcome op with
  | none =>
    rw [acts] at hp noted
    cases hp
    cases noted with
    | rests same =>
      refine ⟨alive, onOwn, polled.wf, fun l c there => ?_⟩
      rw [same c]
      exact polled.record l c (loop_before polled.alive h there)
  | some a =>
    obtain ⟨l, c, o⟩ := a
    rw [acts] at hp noted
    cases noted with
    | @acts _ _ d calls _ =>
      obtain ⟨p, hrun, rfl⟩ := map_cases hp
      obtain ⟨⟨e, he, loop⟩, own, still⟩ := polled.acted h acts
      obtain ⟨wf, after, others⟩ := (polled.wf l).run_note inj
        (outcome_concerns polled.onOwn polled.alive gives acts) own hrun
      refine ⟨alive, onOwn, fun k => ?_, fun k x at_k => ?_⟩
      · by_cases hk : k = l
        · subst hk
          rw [Function.update_self]
          exact wf
        · rw [Function.update_of_ne hk]
          exact polled.wf k
      · by_cases hx : x = c
        · subst hx
          have here : k = l := (at_k e he).symm.trans loop
          subst here
          rw [Function.update_self]
          exact after
        · rw [still x hx, ← polled.record k x (loop_before polled.alive h at_k)]
          by_cases hk : k = l
          · subst hk
            rw [Function.update_self]
            exact others _ fun same => hx (conn_injective same)
          · rw [Function.update_of_ne hk]

end Follow

end TcpServer

end ZDQ
