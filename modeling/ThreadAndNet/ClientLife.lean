import ThreadAndNet.ClientMoves

/-!
# A client takes each of its connections through a life

The client as one of its connections sees it is a `Life` whose owner is on the
same loop; every step of the client is a step of that life or leaves it alone.
-/

namespace ZDQ

open Machine

namespace ClientFunctor

/-- The functors of connection `c` in a queue. -/
def ofConn (c : Nat) (q : List ClientFunctor) : List ConnFunctor :=
  q.filterMap (fun cb =>
    match cb with
    | .conn d f => if d = c then some f else none
    | .connector _ => none
    | .setCloseCallback _ => none)

variable {c d : Nat} {f : ConnFunctor} {q r : List ClientFunctor}

@[simp] theorem ofConn_nil : ofConn c [] = [] := rfl

@[simp] theorem ofConn_append : ofConn c (q ++ r) = ofConn c q ++ ofConn c r :=
  List.filterMap_append

@[simp] theorem ofConn_self : ofConn c (.conn c f :: q) = f :: ofConn c q := by
  simp [ofConn]

theorem ofConn_other (other : d ≠ c) : ofConn c (.conn d f :: q) = ofConn c q := by
  simp [ofConn, other]

@[simp] theorem ofConn_connector {k : ConnectorFunctor} :
    ofConn c (.connector k :: q) = ofConn c q := by
  simp [ofConn]

@[simp] theorem ofConn_setCloseCallback :
    ofConn c (.setCloseCallback d :: q) = ofConn c q := by
  simp [ofConn]

end ClientFunctor

namespace ClientLoop

open ClientFunctor

/-- The client as connection `c`, known to it as `e`, sees it. -/
def life (s : ClientLoop) (c : Nat) (e : ClientConn) : Life where
  track := e.track
  queue := ofConn c s.loop.queued
  removals := 0
  active := s.loop.activeChannels.contains (.conn c)

/-- A connection that does not exist has nothing on the loop. -/
structure Located (s : ClientLoop) : Prop where
  fresh : ∀ c, s.client.nextConnId ≤ c → s.conns c = none
  unborn : ∀ c, s.conns c = none →
    ofConn c s.loop.queued = [] ∧ s.loop.activeChannels.contains (.conn c) = false
  nodup : s.loop.activeChannels.Nodup

/-- Nothing changed for any connection. -/
structure Still (s t : ClientLoop) : Prop where
  conns : t.conns = s.conns
  queue : ∀ c, ofConn c t.loop.queued = ofConn c s.loop.queued
  active : ∀ c, t.loop.activeChannels.contains (.conn c) =
    s.loop.activeChannels.contains (.conn c)
  nodup : s.loop.activeChannels.Nodup → t.loop.activeChannels.Nodup
  nextConnId : t.client.nextConnId = s.client.nextConnId

/-- Something changed for connection `c` only. -/
structure Touches (s t : ClientLoop) (c : Nat) (e e' : ClientConn) : Prop where
  before : s.conns c = some e
  after : t.conns c = some e'
  others : ∀ d, d ≠ c → t.conns d = s.conns d ∧
    ofConn d t.loop.queued = ofConn d s.loop.queued ∧
    t.loop.activeChannels.contains (.conn d) = s.loop.activeChannels.contains (.conn d)
  nodup : s.loop.activeChannels.Nodup → t.loop.activeChannels.Nodup
  nextConnId : t.client.nextConnId = s.client.nextConnId

/-- What a connection sees is `conns` and the loop. -/
theorem Still.of_eq {s t : ClientLoop} (conns : t.conns = s.conns) (loop : t.loop = s.loop)
    (nextConnId : t.client.nextConnId = s.client.nextConnId) : Still s t :=
  ⟨conns, fun _ => by rw [loop], fun _ => by rw [loop], by rw [loop]; exact id, nextConnId⟩

theorem Still.refl (s : ClientLoop) : Still s s := .of_eq rfl rfl rfl

theorem Still.trans {s t u : ClientLoop} (h : Still s t) (h' : Still t u) : Still s u :=
  ⟨h'.conns.trans h.conns, fun c => (h'.queue c).trans (h.queue c),
    fun c => (h'.active c).trans (h.active c), fun n => h'.nodup (h.nodup n),
    h'.nextConnId.trans h.nextConnId⟩

theorem Still.life {s t : ClientLoop} (h : Still s t) (c : Nat) (e : ClientConn) :
    t.life c e = s.life c e := by
  simp only [ClientLoop.life, h.queue, h.active]

theorem Still.touches {s t : ClientLoop} (h : Still s t) {c : Nat} {e : ClientConn}
    (he : s.conns c = some e) : Touches s t c e e :=
  ⟨he, by rw [h.conns, he], fun d _ => ⟨by rw [h.conns], h.queue d, h.active d⟩, h.nodup,
    h.nextConnId⟩

theorem Touches.trans {s t u : ClientLoop} {c : Nat} {e e' e'' : ClientConn}
    (h : Touches s t c e e') (h' : Touches t u c e' e'') : Touches s u c e e'' := by
  refine ⟨h.before, h'.after, ?_, fun n => h'.nodup (h.nodup n),
    h'.nextConnId.trans h.nextConnId⟩
  intro d other
  obtain ⟨conn, queue, active⟩ := h.others d other
  obtain ⟨conn', queue', active'⟩ := h'.others d other
  exact ⟨conn'.trans conn, queue'.trans queue, active'.trans active⟩

theorem Touches.still {s t u : ClientLoop} {c : Nat} {e e' : ClientConn}
    (h : Touches s t c e e') (h' : Still t u) : Touches s u c e e' :=
  h.trans (h'.touches h.after)

theorem Touches.located {s t : ClientLoop} {c : Nat} {e e' : ClientConn}
    (h : Touches s t c e e') (located : Located s) : Located t := by
  have elsewhere : ∀ d, s.conns d = none ∨ t.conns d = none → d ≠ c := by
    rintro d (gone | gone) rfl
    · rw [h.before] at gone
      cases gone
    · rw [h.after] at gone
      cases gone
  refine ⟨?_, ?_, h.nodup located.nodup⟩
  · intro d hd
    rw [h.nextConnId] at hd
    have none := located.fresh d hd
    rw [(h.others d (elsewhere d (Or.inl none))).1, none]
  · intro d none
    obtain ⟨conn, queue, active⟩ := h.others d (elsewhere d (Or.inr none))
    rw [queue, active]
    exact located.unborn d (conn.symm.trans none)

theorem Still.located {s t : ClientLoop} (h : Still s t) (located : Located s) :
    Located t := by
  refine ⟨?_, ?_, h.nodup located.nodup⟩
  · intro d hd
    rw [h.nextConnId] at hd
    rw [h.conns, located.fresh d hd]
  · intro d none
    rw [h.queue, h.active]
    rw [h.conns] at none
    exact located.unborn d none

/-! ## Single changes -/

theorem touches_put {s : ClientLoop} {c : Nat} {e : ClientConn} (he : s.conns c = some e)
    (e' : ClientConn) : Touches s (s.put c e') c e e' :=
  ⟨he, Function.update_self .., fun _ other => ⟨Function.update_of_ne other .., rfl, rfl⟩, id,
    rfl⟩

theorem life_put (s : ClientLoop) (c : Nat) (e e' : ClientConn) :
    (s.put c e').life c e' = { s.life c e with track := e'.track } := rfl

theorem touches_append {s : ClientLoop} {c : Nat} {e : ClientConn} (he : s.conns c = some e)
    (thread : Option Nat) (f : ConnFunctor) : Touches s (s.append thread (.conn c f)) c e e := by
  refine ⟨he, he, ?_, ?_, rfl⟩
  · intro d other
    simp [append, ofConn_other other.symm]
  · simp [append]

theorem life_append (s : ClientLoop) (thread : Option Nat) (c : Nat) (e : ClientConn)
    (f : ConnFunctor) : (s.append thread (.conn c f)).life c e =
      { s.life c e with queue := (s.life c e).queue ++ [f] } := by
  simp [life, append]

theorem still_append (s : ClientLoop) (thread : Option Nat) {cb : ClientFunctor}
    (other : ∀ c, ofConn c [cb] = []) : Still s (s.append thread cb) := by
  refine ⟨rfl, ?_, ?_, ?_, rfl⟩
  · intro c
    simp [append, other c]
  · simp [append]
  · simp [append]

theorem onPoller_still {s t : ClientLoop} {r : Except Failure Registration}
    (h : s.onPoller r = .ok t) : Still s t := by
  obtain ⟨r, _, rfl⟩ := onPoller_cases h
  exact .of_eq rfl rfl rfl

theorem performConnector_still {s t : ClientLoop} {thread : Option Nat}
    {call : ConnectorCall} (h : performConnector thread s call = .ok t) : Still s t := by
  have noted : Still s { s with calls := s.calls ++ [call] } := .of_eq rfl rfl rfl
  cases call with
  | update channel => exact noted.trans (onPoller_still h)
  | remove channel => exact noted.trans (onPoller_still h)
  | appendFuncInLoop f =>
    cases h
    exact noted.trans (still_append _ thread (fun _ => by simp))
  | _ =>
    cases h
    exact .of_eq rfl rfl rfl

theorem run_performConnector_still {thread : Option Nat} {calls : List ConnectorCall}
    {s t : ClientLoop} (h : run (performConnector thread) s calls = .ok t) : Still s t :=
  run_relates Still.refl Still.trans (fun _ _ _ _ made => performConnector_still made) h

theorem onConnector_still {s t : ClientLoop} {thread : Option Nat} {c : TcpClient}
    (same : c.nextConnId = s.client.nextConnId) {o : Connector.Outcome}
    (h : s.onLoop thread (c.onConnector o) = .ok t) : Still s t := by
  obtain ⟨k, calls, ho, hrun⟩ := onConnector_cases h
  have swapped : Still s { s with client := { c with connector := k } } :=
    .of_eq rfl rfl same
  exact swapped.trans (run_performConnector_still hrun)

/-! ## Calls of a connection -/

theorem letGo_life {s t : ClientLoop} {c : Nat} {e : ClientConn} (he : s.conns c = some e)
    {thread : Option Nat} (h : s.letGo thread c = .ok t) :
    ∃ e', Touches s t c e e' ∧ t.life c e' = (s.life c e).remove 0 := by
  obtain ⟨x, hx, rfl⟩ := letGo_cases h
  cases he.symm.trans hx
  have seen := touches_put he { e with track := e.track.see (.removed 0) }
  refine ⟨{ e with track := e.track.see (.removed 0) },
    seen.trans (touches_append seen.after thread .connectDestroyed), ?_⟩
  rw [life_append, life_put s c e]
  rfl

theorem removeConnection_life {s t : ClientLoop} {c : Nat} {e : ClientConn}
    (he : s.conns c = some e) {thread : Option Nat} {detached : Bool} {a : Connector.Attempt}
    (h : s.removeConnection thread c detached a = .ok t) :
    ∃ e', Touches s t c e e' ∧ t.life c e' = (s.life c e).remove 0 := by
  rcases removeConnection_cases h with ⟨_, gone⟩ | ⟨_, _, _, client, calls, hremove, hrun⟩
  · exact letGo_life he gone
  · obtain ⟨_, same, made, rfl, _⟩ := TcpClient.removeConnection_cases hremove
    obtain ⟨m, hm, hrest⟩ := run_cons_inv hrun
    have swapped : Still s { s with client := client } := .of_eq rfl rfl (by rw [same])
    obtain ⟨e', gone, view⟩ := letGo_life (s := { s with client := client }) he hm
    rw [run_map] at hrest
    have later := run_performConnector_still hrest
    exact ⟨e', ((swapped.touches he).trans gone).still later, by rw [later.life, view]; rfl⟩

theorem perform_life {s t : ClientLoop} {c : Nat} {e : ClientConn} (he : s.conns c = some e)
    {thread : Option Nat} {a : Connector.Attempt} {call : Call}
    (inLoop : thread = some 0 ∨ call ≠ .closeCallback)
    (h : perform thread c a s call = .ok t) :
    ∃ e', Touches s t c e e' ∧
      Life.perform 0 0 thread (s.life c e) call = .ok (t.life c e') := by
  obtain ⟨x, track, hx, htrack, outcome⟩ := perform_cases h
  cases he.symm.trans hx
  have noted := touches_put he { e with track := track }
  have hlife : (s.life c e).track.note (thread == some 0) call = .ok track := htrack
  rcases outcome with ⟨f, rfl, rfl⟩ | ⟨rfl, removed⟩ | ⟨append, close, rfl⟩
  · refine ⟨_, noted.trans (touches_append noted.after thread f), ?_⟩
    simp only [Life.perform, hlife]
    rw [life_append]
    rfl
  · obtain ⟨e', gone, view⟩ := removeConnection_life noted.after removed
    have here : thread = some 0 := inLoop.resolve_right (fun other => other rfl)
    refine ⟨e', noted.trans gone, ?_⟩
    simp only [Life.perform, hlife]
    rw [if_pos here, view]
    rfl
  · refine ⟨_, noted, ?_⟩
    simp only [Life.perform, hlife]
    cases call with
    | append f => exact absurd rfl (append f)
    | closeCallback => exact absurd rfl close
    | _ => rfl

theorem run_perform_life {c : Nat} {thread : Option Nat} {a : Connector.Attempt}
    {calls : List Call} (inLoop : thread = some 0 ∨ ∀ call ∈ calls, call ≠ .closeCallback)
    {s t : ClientLoop} {e : ClientConn} (he : s.conns c = some e)
    (h : run (perform thread c a) s calls = .ok t) :
    ∃ e', Touches s t c e e' ∧
      run (Life.perform 0 0 thread) (s.life c e) calls = .ok (t.life c e') := by
  induction calls generalizing s e with
  | nil =>
    cases h
    exact ⟨e, (Still.refl _).touches he, rfl⟩
  | cons call rest ih =>
    obtain ⟨m, hm, hrest⟩ := run_cons_inv h
    obtain ⟨e', first, hfirst⟩ :=
      perform_life he (inLoop.imp_right (fun all => all call List.mem_cons_self)) hm
    obtain ⟨e'', later, hlater⟩ :=
      ih (inLoop.imp_right (fun all x hx => all x (List.mem_cons_of_mem call hx)))
        first.after hrest
    exact ⟨e'', first.trans later, by rw [run_cons_ok hfirst]; exact hlater⟩

theorem act_life {s t : ClientLoop} {c : Nat} {e : ClientConn} (he : s.conns c = some e)
    {thread : Option Nat} {a : Connector.Attempt} {o : TcpConnection.Outcome}
    (inLoop : thread = some 0 ∨
      ∀ conn calls, o = .ok (conn, calls) → ∀ call ∈ calls, call ≠ .closeCallback)
    (h : s.act thread c a o = .ok t) :
    ∃ e', Touches s t c e e' ∧ Life.act 0 0 thread (s.life c e) o = .ok (t.life c e') := by
  obtain ⟨x, conn, calls, hx, rfl, hrun⟩ := act_cases h
  cases he.symm.trans hx
  have moved := touches_put he { e with track := { e.track with conn := conn } }
  obtain ⟨e', later, hlife⟩ := run_perform_life
    (inLoop.imp_right (fun all => all conn calls rfl)) moved.after hrun
  exact ⟨e', moved.trans later, hlife⟩

theorem runConn_life {s t : ClientLoop} {c : Nat} {e : ClientConn} (he : s.conns c = some e)
    {f : ConnFunctor} {a : Answers} (h : s.runConn c f a = .ok t) :
    ∃ e', Touches s t c e e' ∧
      Life.act 0 0 (some 0) { s.life c e with track := e.track.starts 0 f }
        (e.track.conn.runFunctor a.write a.shutdown f) = .ok (t.life c e') := by
  obtain ⟨x, hx, ran⟩ := runConn_cases h
  cases he.symm.trans hx
  have begun := touches_put he { e with track := e.track.starts 0 f }
  obtain ⟨e', later, hact⟩ := act_life begun.after (Or.inl rfl) ran
  exact ⟨e', begun.trans later, hact⟩

theorem userCall_life {s t : ClientLoop} {c : Nat} {thread : Option Nat}
    {u : TcpConnection.UserCall} (h : s.userCall thread c u = .ok t) :
    ∃ e e', Touches s t c e e' ∧
      Life.step 0 0 (s.life c e) (.user thread u) = .ok (t.life c e') := by
  obtain ⟨e, he, called⟩ := userCall_cases h
  have stays : ∀ conn calls, e.track.conn.userCall (thread == some 0) u = .ok (conn, calls) →
      ∀ call ∈ calls, call ≠ .closeCallback := by
    rintro conn calls hu call mem rfl
    exact (TcpConnection.userCall_userOnly hu).calls _ mem
  obtain ⟨e', touches, hact⟩ := act_life he (Or.inr stays) called
  exact ⟨e, e', touches, hact⟩

/-! ## Steps of the client -/

/-- What a step of the client is for its connections. -/
structure Follows (s t : ClientLoop) : Prop where
  located : Located t
  old : ∀ c e, s.conns c = some e → ∃ e', t.conns c = some e' ∧
    Reaches (Life.step 0 0) (s.life c e) (t.life c e')
  new : ∀ c e', s.conns c = none → t.conns c = some e' → ∃ sockfd wc,
    Reaches (Life.step 0 0) (Life.start sockfd wc) (t.life c e')

theorem Follows.trans {s t u : ClientLoop} (h : Follows s t) (h' : Follows t u) :
    Follows s u := by
  refine ⟨h'.located, ?_, ?_⟩
  · intro c e he
    obtain ⟨e', he', reaches⟩ := h.old c e he
    obtain ⟨e'', he'', reaches'⟩ := h'.old c e' he'
    exact ⟨e'', he'', reaches.trans reaches'⟩
  · intro c e'' none some
    cases ht : t.conns c with
    | none => exact h'.new c e'' ht some
    | some e' =>
      obtain ⟨sockfd, wc, reaches⟩ := h.new c e' none ht
      obtain ⟨x, hx, reaches'⟩ := h'.old c e' ht
      rw [some] at hx
      cases hx
      exact ⟨sockfd, wc, reaches.trans reaches'⟩

theorem Still.follows {s t : ClientLoop} (located : Located s) (h : Still s t) :
    Follows s t := by
  refine ⟨h.located located, ?_, ?_⟩
  · intro c e he
    exact ⟨e, by rw [h.conns, he], by rw [h.life]; exact .refl _⟩
  · intro c e' none some
    rw [h.conns, none] at some
    cases some

theorem Touches.follows {s t : ClientLoop} (located : Located s) {c : Nat}
    {e e' : ClientConn} (h : Touches s t c e e')
    (reaches : Reaches (Life.step 0 0) (s.life c e) (t.life c e')) : Follows s t := by
  refine ⟨h.located located, ?_, ?_⟩
  · intro d x hx
    by_cases hd : d = c
    · subst hd
      rw [h.before] at hx
      cases hx
      exact ⟨e', h.after, reaches⟩
    · obtain ⟨conn, queue, active⟩ := h.others d hd
      refine ⟨x, conn.trans hx, ?_⟩
      simp only [life, queue, active]
      exact .refl _
  · intro d x none some
    by_cases hd : d = c
    · subst hd
      rw [h.before] at none
      cases none
    · rw [(h.others d hd).1, none] at some
      cases some

theorem userCall_follows {s t : ClientLoop} (located : Located s) {c : Nat}
    {thread : Option Nat} {u : TcpConnection.UserCall} (h : s.userCall thread c u = .ok t) :
    Follows s t := by
  obtain ⟨e, e', touches, hstep⟩ := userCall_life h
  exact touches.follows located (.one (.user thread u) hstep)

theorem setCloseCallback_follows {s t : ClientLoop} (located : Located s) {c : Nat}
    (h : s.setCloseCallback c = .ok t) : Follows s t := by
  obtain ⟨e, he, rfl⟩ := setCloseCallback_cases h
  exact (touches_put he { e with detached := true }).follows located (.refl _)

/-- The calls of `disconnect` and of the destructor. -/
theorem performClient_follows {s t : ClientLoop} (located : Located s)
    {thread : Option Nat} {shutdown : Status} {call : ClientCall}
    (kind : ∀ c, call ≠ .onLoop (.appendConnectDestroyed c))
    (h : performClient thread shutdown s call = .ok t) : Follows s t := by
  cases call with
  | onLoop call =>
    cases call with
    | connector call => exact (performConnector_still h).follows located
    | appendConnectDestroyed c => exact absurd rfl (kind c)
  | shutdown c => exact userCall_follows located h
  | setCloseCallback c =>
    rcases performClient_setCloseCallback h with now | rfl
    · exact setCloseCallback_follows located now
    · exact (still_append s thread (fun _ => by simp)).follows located
  | forceClose c => exact userCall_follows located h

theorem run_performClient_follows {thread : Option Nat} {shutdown : Status}
    {calls : List ClientCall} (kind : ∀ c, .onLoop (.appendConnectDestroyed c) ∉ calls)
    {s t : ClientLoop} (located : Located s)
    (h : run (performClient thread shutdown) s calls = .ok t) : Follows s t := by
  induction calls generalizing s with
  | nil =>
    cases h
    exact (Still.refl _).follows located
  | cons call rest ih =>
    obtain ⟨m, hm, hrest⟩ := run_cons_inv h
    have first := performClient_follows located
      (fun c same => kind c (by rw [same]; exact List.mem_cons_self)) hm
    exact first.trans (ih (fun c mem => kind c (List.mem_cons_of_mem call mem))
      first.located hrest)

theorem onClient_follows {s t : ClientLoop} (located : Located s) {thread : Option Nat}
    {shutdown : Status} {o : TcpClient.Outcome ClientCall}
    (kept : ∀ client calls, o = .ok (client, calls) →
      client.nextConnId = s.client.nextConnId ∧
        ∀ c, .onLoop (.appendConnectDestroyed c) ∉ calls)
    (h : s.onClient thread shutdown o = .ok t) : Follows s t := by
  obtain ⟨client, calls, ho, hrun⟩ := onClient_cases h
  obtain ⟨same, kind⟩ := kept client calls ho
  have swapped : Still s { s with client := client } := .of_eq rfl rfl same
  exact (swapped.follows located).trans
    (run_performClient_follows kind (swapped.located located) hrun)

theorem runConnector_still {s t : ClientLoop} {f : ConnectorFunctor} {a : Answers}
    (h : s.runConnector f a = .ok t) : Still s t := by
  cases f with
  | startInLoop => exact onConnector_still rfl h
  | stopInLoop => exact onConnector_still rfl h
  | resetChannel =>
    have fresh : Still s { s with registration := .fresh } := .of_eq rfl rfl rfl
    simp only [runConnector] at h
    exact fresh.trans (onConnector_still (c := s.client) rfl h)

theorem move_follows {s : ClientLoop} (located : Located s)
    {v : EventLoop.Move ClientChannel} {loop : EventLoop ClientChannel ClientFunctor}
    (moved : s.loop.move v = .ok loop) (nodup : loop.activeChannels.Nodup)
    (reported : ∀ ch ∈ loop.activeChannels, s.reports ch = true) :
    Follows s { s with loop := loop } := by
  obtain ⟨queued, before, _⟩ := EventLoop.move_cases moved
  have report : ∀ c, loop.activeChannels.contains (.conn c) →
      ∃ e, s.conns c = some e ∧ e.track.registration.Watched := by
    intro c mem
    have := reported _ (List.contains_iff_mem.mp mem)
    simp only [reports] at this
    split at this
    · cases this
    · rename_i e he
      exact ⟨e, he, of_decide_eq_true this⟩
  refine ⟨⟨located.fresh, ?_, nodup⟩, ?_, ?_⟩
  · intro c none
    refine ⟨by rw [queued]; exact (located.unborn c none).1, ?_⟩
    rw [Bool.eq_false_iff]
    intro mem
    obtain ⟨e, he, _⟩ := report c mem
    rw [none] at he
    cases he
  · intro c e he
    refine ⟨e, he, ?_⟩
    have quiet : (s.life c e).active = false := by simp [life, before]
    cases mem : loop.activeChannels.contains (.conn c) with
    | true =>
      obtain ⟨e', he', watched⟩ := report c mem
      rw [he] at he'
      cases he'
      refine .one .poll ?_
      simp only [Life.step]
      rw [if_pos (show (s.life c e).track.registration.Watched from watched)]
      simp only [life, queued, mem]
    | false =>
      have same : ({ s with loop := loop } : ClientLoop).life c e = s.life c e := by
        simp only [life, queued, mem, before, List.contains_nil]
      rw [same]
      exact .refl _
  · intro c e none some
    cases none.symm.trans some

/-- Another functor than one of a connection was taken from the queue. -/
theorem nextFunctor_still {s : ClientLoop} {cb : ClientFunctor}
    {loop : EventLoop ClientChannel ClientFunctor}
    (next : s.loop.nextFunctor = .ok (cb, loop)) (other : ∀ c, ofConn c [cb] = []) :
    Still s { s with loop := loop } := by
  obtain ⟨queued, idle, idle'⟩ := EventLoop.nextFunctor_cases next
  refine ⟨rfl, ?_, ?_, ?_, rfl⟩
  · intro c
    have split : ofConn c s.loop.queued = ofConn c [cb] ++ ofConn c loop.queued := by
      rw [queued, ← ofConn_append, List.singleton_append]
    rw [split, other, List.nil_append]
  · intro c
    rw [idle, idle']
  · intro _
    rw [idle']
    exact List.nodup_nil

theorem functor_follows {s t : ClientLoop} (located : Located s) {a : Answers}
    {cb : ClientFunctor} {loop : EventLoop ClientChannel ClientFunctor}
    (next : s.loop.nextFunctor = .ok (cb, loop))
    (h : ({ s with loop := loop } : ClientLoop).runFunctor a cb = .ok t) : Follows s t := by
  cases cb with
  | connector f =>
    have taken := nextFunctor_still next (fun _ => by simp)
    simp only [runFunctor] at h
    split at h
    · exact (taken.trans (runConnector_still h)).follows located
    · cases h
  | setCloseCallback c =>
    have taken := nextFunctor_still next (fun _ => by simp)
    exact (taken.follows located).trans
      (setCloseCallback_follows (taken.located located) h)
  | conn c f =>
    obtain ⟨queued, idle, idle'⟩ := EventLoop.nextFunctor_cases next
    have queue : ofConn c s.loop.queued = f :: ofConn c loop.queued := by
      rw [queued, ofConn_self]
    obtain ⟨e, he⟩ : ∃ e, s.conns c = some e := by
      cases he : s.conns c with
      | none =>
        have empty := (located.unborn c he).1
        rw [queue] at empty
        cases empty
      | some e => exact ⟨e, rfl⟩
    have taken : Touches s { s with loop := loop } c e e := by
      refine ⟨he, he, ?_, ?_, rfl⟩
      · intro d other
        exact ⟨rfl, by rw [queued, ofConn_other other.symm], by rw [idle, idle']⟩
      · intro _
        rw [idle']
        exact List.nodup_nil
    obtain ⟨e', later, hact⟩ := runConn_life taken.after h
    refine (taken.trans later).follows located (.one (.functor a.write a.shutdown) ?_)
    have here : (s.life c e).queue = f :: ofConn c loop.queued := queue
    have quiet : (s.life c e).active = false := by simp [life, idle]
    have view : ({ s with loop := loop } : ClientLoop).life c e =
        { s.life c e with queue := ofConn c loop.queued, active := false } := by
      simp [life, idle']
    rw [view] at hact
    simp only [Life.step, here, quiet, Bool.false_eq_true, if_false]
    exact hact

/-- The next active channel is not that of a connection. -/
theorem nextChannel_still {s : ClientLoop} {ch : ClientChannel}
    {loop : EventLoop ClientChannel ClientFunctor}
    (next : s.loop.nextChannel = .ok (ch, loop)) (other : ∀ c, ch ≠ .conn c) :
    Still s { s with loop := loop } := by
  obtain ⟨queued, active⟩ := EventLoop.nextChannel_cases next
  refine ⟨rfl, fun c => by rw [queued], ?_, ?_, rfl⟩
  · intro c
    rw [active, List.contains_cons, beq_eq_false_iff_ne.mpr (other c).symm, Bool.false_or]
  · intro nodup
    rw [active, List.nodup_cons] at nodup
    exact nodup.2

theorem event_follows {s t : ClientLoop} (located : Located s) {revents : BitVec 32}
    {input : TcpConnection.EventInput} {a : Answers} {c : Nat} {e : ClientConn}
    {loop : EventLoop ClientChannel ClientFunctor}
    (next : s.loop.nextChannel = .ok (.conn c, loop)) (he : s.conns c = some e)
    (h : (({ s with loop := loop } : ClientLoop).put c
      { e with track := e.track.see .event }).act (some 0) c a.attempt
        (e.track.conn.handleEvent revents input) = .ok t) : Follows s t := by
  obtain ⟨queued, active⟩ := EventLoop.nextChannel_cases next
  have nodup := located.nodup
  rw [active, List.nodup_cons] at nodup
  have taken : Touches s { s with loop := loop } c e e := by
    refine ⟨he, he, ?_, fun _ => nodup.2, rfl⟩
    intro d other
    refine ⟨rfl, by rw [queued], ?_⟩
    have apart : ClientChannel.conn d ≠ .conn c := by
      rintro ⟨⟩
      exact other rfl
    rw [active, List.contains_cons, beq_eq_false_iff_ne.mpr apart, Bool.false_or]
  have seen := touches_put taken.after { e with track := e.track.see .event }
  obtain ⟨e', later, hact⟩ := act_life seen.after (Or.inl rfl) h
  refine (taken.trans (seen.trans later)).follows located
    (.one (.event revents input) ?_)
  have waiting : (s.life c e).active = true := by simp [life, active]
  have view : ({ s with loop := loop } : ClientLoop).life c e =
      { s.life c e with active := false } := by
    simp [life, queued, nodup.1]
  rw [life_put _ c e, view] at hact
  simp only [Life.step]
  rw [if_pos waiting]
  exact hact

/-! ## New connections -/

/-- Only a connection that did not exist came to be. -/
theorem created_located {s t : ClientLoop} (located : Located s) {client : TcpClient}
    (next : client.nextConnId = s.client.nextConnId + 1)
    (still : Still { s with client := client } t) (e : ClientConn) :
    Located (t.put s.client.nextConnId e) := by
  have conns : ∀ d, d ≠ s.client.nextConnId →
      (t.put s.client.nextConnId e).conns d = s.conns d := by
    intro d other
    show Function.update t.conns s.client.nextConnId (some e) d = s.conns d
    rw [Function.update_of_ne other, still.conns]
  refine ⟨?_, ?_, still.nodup located.nodup⟩
  · intro d hd
    have late : s.client.nextConnId + 1 ≤ d := by
      have := still.nextConnId.trans next
      exact this ▸ hd
    rw [conns d (by omega)]
    exact located.fresh d (by omega)
  · intro d none
    have other : d ≠ s.client.nextConnId := by
      rintro rfl
      have some : (t.put s.client.nextConnId e).conns s.client.nextConnId = some e :=
        Function.update_self ..
      rw [some] at none
      cases none
    obtain ⟨queue, active⟩ := located.unborn d ((conns d other).symm.trans none)
    exact ⟨(still.queue d).trans queue, (still.active d).trans active⟩

/-- What happened after a connection came to be touched that connection only. -/
theorem follows_of_created {s m t : ClientLoop} (located : Located s) {client : TcpClient}
    (next : client.nextConnId = s.client.nextConnId + 1)
    (still : Still { s with client := client } m) {e e' : ClientConn}
    (touches : Touches (m.put s.client.nextConnId e) t s.client.nextConnId e e')
    (reaches : ∃ sockfd wc, Reaches (Life.step 0 0) (Life.start sockfd wc)
      (t.life s.client.nextConnId e')) : Follows s t := by
  have none := located.fresh s.client.nextConnId (Nat.le_refl _)
  have conns : ∀ d, d ≠ s.client.nextConnId → t.conns d = s.conns d := by
    intro d other
    rw [(touches.others d other).1, put, ← still.conns]
    exact Function.update_of_ne other ..
  refine ⟨touches.located (created_located located next still _), ?_, ?_⟩
  · intro d x hx
    have other : d ≠ s.client.nextConnId := by
      rintro rfl
      rw [none] at hx
      cases hx
    obtain ⟨_, queue, active⟩ := touches.others d other
    refine ⟨x, (conns d other).trans hx, ?_⟩
    have view : t.life d x = s.life d x := by
      have queue' := queue.trans (still.queue d)
      have active' := active.trans (still.active d)
      simp only [life, queue', active']
    rw [view]
    exact .refl _
  · intro d x none' some
    by_cases hd : d = s.client.nextConnId
    · subst hd
      rw [touches.after] at some
      cases some
      exact reaches
    · rw [conns d hd, none'] at some
      cases some

theorem connectorEvent_follows {s t : ClientLoop} (located : Located s)
    {revents : BitVec 32} {k : Connector.EventAnswers} {names : SockNames}
    (h : s.connectorEvent revents k names = .ok t) : Follows s t := by
  obtain ⟨_, client, calls, made, m, hevent, hrun, outcome⟩ := connectorEvent_cases h
  have still := run_performConnector_still hrun
  obtain ⟨k, _, created⟩ := TcpClient.connectorEvent_cases hevent
  rcases outcome with ⟨rfl, rfl⟩ | ⟨conn, connCalls, rfl, _, hact⟩
  · obtain ⟨_, rfl, _⟩ | ⟨_, _, _, none, _⟩ := created
    · have swapped : Still s { s with client := { s.client with connector := k } } :=
        .of_eq rfl rfl rfl
      exact (swapped.trans still).follows located
    · cases none
  · obtain ⟨none, _⟩ | ⟨sockfd, _, _, same, _, hnew⟩ := created
    · cases none
    cases same
    obtain ⟨same, hconn⟩ := TcpClient.newConnection_cases hnew
    have next : client.nextConnId = s.client.nextConnId + 1 := by rw [same]
    obtain ⟨fd, callback, _⟩ := TcpConnection.connectEstablished_cases hconn
    rw [fd, callback] at hact
    obtain ⟨e', touches, hlife⟩ := act_life (s := m.put s.client.nextConnId
      ⟨(Track.create sockfd s.client.writeCallback).starts 0 .connectEstablished, false, 0⟩)
      (Function.update_self ..) (Or.inl rfl) hact
    refine follows_of_created located next still touches
      ⟨sockfd, s.client.writeCallback, .one (.functor (.accepted 0) none) ?_⟩
    obtain ⟨queue, active⟩ :=
      located.unborn _ (located.fresh s.client.nextConnId (Nat.le_refl _))
    have queue' := (still.queue s.client.nextConnId).trans queue
    have active' := (still.active s.client.nextConnId).trans active
    simp only [life, put, queue', active'] at hlife
    rw [← hconn] at hlife
    exact hlife

/-! ## The other steps, and runs -/

theorem runTimer_follows {s t : ClientLoop} (located : Located s) {i : Nat} {a : Answers}
    (h : s.runTimer i a = .ok t) : Follows s t := by
  obtain ⟨f, m, _, hm, rfl⟩ := runTimer_cases h
  have ran := runConnector_still hm
  have deleted : Still m { m with timers := m.timers.eraseIdx i } := .of_eq rfl rfl rfl
  exact (ran.trans deleted).follows located

theorem references_follows {s : ClientLoop} (located : Located s) {c : Nat} {e : ClientConn}
    (he : s.conns c = some e) (n : Nat) : Follows s (s.put c { e with userRefs := n }) :=
  (touches_put he { e with userRefs := n }).follows located (.refl _)

theorem disconnect_follows {s t : ClientLoop} (located : Located s) {thread : Option Nat}
    {shutdown : Status} (h : s.onClient thread shutdown s.client.disconnect = .ok t) :
    Follows s t := by
  refine onClient_follows located ?_ h
  intro client calls hd
  cases hd
  refine ⟨rfl, fun c mem => ?_⟩
  simp at mem

/-- The client does not create a connection in its destructor, nor let one go. -/
theorem destruct_keeps {c client : TcpClient} {unique : Bool} {calls : List ClientCall}
    (h : c.destruct unique = .ok (client, calls)) : client.nextConnId = c.nextConnId ∧
      ∀ conn, .onLoop (.appendConnectDestroyed conn) ∉ calls := by
  rcases TcpClient.destruct_cases h with ⟨conn, _, rfl, rfl⟩ | ⟨_, made, stopped, rfl⟩
  · refine ⟨rfl, fun c mem => ?_⟩
    split at mem <;> simp at mem
  · obtain ⟨k, calls, _, rfl, rfl⟩ := TcpClient.onConnector_cases stopped
    exact ⟨rfl, fun c mem => by simp at mem⟩

/-- A step of the client takes each connection it has through steps of its life. -/
theorem step_follows {s t : ClientLoop} (located : Located s) {op : Op}
    (h : s.step op = .ok t) : Follows s t := by
  cases step_cases h with
  | move moved nodup reported _ => exact move_follows located moved nodup reported
  | functor next ran => exact functor_follows located next ran
  | event next here handled => exact event_follows located next here handled
  | connectorEvent next handled =>
    have taken := nextChannel_still next nofun
    exact (taken.follows located).trans
      (connectorEvent_follows (taken.located located) handled)
  | timer _ ran => exact runTimer_follows located ran
  | timersDone next => exact (nextChannel_still next nofun).follows located
  | user called => exact userCall_follows located called
  | hold here => exact references_follows located here _
  | release here _ => exact references_follows located here _
  | enableRetry _ =>
    have still : Still s { s with client := s.client.enableRetry } := .of_eq rfl rfl rfl
    exact still.follows located
  | connect _ called =>
    exact (onConnector_still (c := { s.client with connected := true }) rfl called).follows
      located
  | disconnect _ called => exact disconnect_follows located called
  | stop _ called =>
    exact (onConnector_still (c := { s.client with connected := false }) rfl called).follows
      located
  | @destruct thread unique m _ _ called =>
    have ended : Follows s m := onClient_follows located (fun _ _ => destruct_keeps) called
    have gone : Still m { m with
        destroyed := true
        client := { m.client with connection := none } } := .of_eq rfl rfl rfl
    exact ended.trans (gone.follows ended.located)

/-- The connections of a client and the lives they lead. -/
structure Alive (s : ClientLoop) : Prop where
  located : Located s
  lives : ∀ c e, s.conns c = some e → ∃ sockfd wc,
    Reaches (Life.step 0 0) (Life.start sockfd wc) (s.life c e)

theorem new_alive (wc : Bool) : Alive (new wc) :=
  ⟨⟨fun _ _ => rfl, fun _ _ => ⟨rfl, rfl⟩, List.nodup_nil⟩, fun _ _ he => absurd he nofun⟩

theorem Alive.step {s t : ClientLoop} (alive : Alive s) {op : Op} (h : s.step op = .ok t) :
    Alive t := by
  obtain ⟨located, old, new⟩ := step_follows alive.located h
  refine ⟨located, ?_⟩
  intro c e' he'
  cases hs : s.conns c with
  | none => exact new c e' hs he'
  | some e =>
    obtain ⟨x, hx, reaches⟩ := old c e hs
    rw [he'] at hx
    cases hx
    obtain ⟨sockfd, wc, lived⟩ := alive.lives c e hs
    exact ⟨sockfd, wc, lived.trans reaches⟩

theorem reached_alive {wc : Bool} {s : ClientLoop} (reached : Reaches step (new wc) s) :
    Alive s :=
  Reaches.keeps (fun _ _ _ alive h => alive.step h) reached (new_alive wc)

theorem Alive.inv {s : ClientLoop} (alive : Alive s) {c : Nat} {e : ClientConn}
    (he : s.conns c = some e) : Life.Inv 0 0 (s.life c e) := by
  obtain ⟨sockfd, wc, lived⟩ := alive.lives c e he
  exact Life.reached_inv lived

end ClientLoop

end ZDQ
