import ThreadAndNet.ClientRuns

/-!
# A client that is not destroyed, and its connections

A connection is the client's until it is closed, and the poller has forgotten it by
the time nobody holds it any more. Connections are numbered in the order of the
sockets that were handed over.
-/

namespace ZDQ

open Machine

namespace ClientLoop

/-- Somebody has a reference to connection `c`. -/
def held (s : ClientLoop) (c : Nat) : Bool := s.client.connection == some c || s.shared c

structure Intact (s : ClientLoop) : Prop where
  bound : Bound s
  live : s.destroyed = false
  linked : ∀ c e, s.conns c = some e →
    e.track.conn.state = .kDisconnected ∨ s.client.connection = some c
  numbered : s.client.nextConnId = (handed s.calls).length + 1
  handedOver : ∀ i sockfd, (handed s.calls)[i]? = some sockfd →
    ∃ e, s.conns (i + 1) = some e ∧ e.track.conn.channel.fd = sockfd
  first : ∀ c, s.conns c ≠ none → 1 ≤ c

theorem new_intact (wc : Bool) : Intact (new wc) := by
  refine ⟨new_bound wc, rfl, ?_, rfl, ?_, ?_⟩
  · intro c e he
    cases he
  · intro i sockfd mem
    cases mem
  · intro c made
    exact absurd rfl made

/-- A connection nobody holds was destroyed, and its channel removed. -/
theorem Intact.gone {s : ClientLoop} (intact : Intact s) {c : Nat} {e : ClientConn}
    (he : s.conns c = some e) (free : s.held c = false) : (s.life c e).Gone := by
  rw [held, Bool.or_eq_false_iff, shared, he] at free
  obtain ⟨notMine, free⟩ := free
  have alone : ¬ s.loop.queued.any (binds c) = true := by
    rw [Bool.not_eq_true]
    exact (Bool.or_eq_false_iff.mp free).2
  have unqueued : ∀ f, binds c (.conn c f) = true → f ∉ (s.life c e).queue := by
    intro f bound mem
    refine alone (List.any_eq_true.mpr ⟨.conn c f, ?_, bound⟩)
    obtain ⟨cb, hcb, same⟩ := List.mem_filterMap.mp mem
    cases cb with
    | conn d g =>
      dsimp only at same
      split at same
      · rename_i own
        cases same
        rw [← own]
        exact hcb
      · cases same
    | connector k => cases same
    | setCloseCallback d => cases same
  have inv := intact.bound.alive.inv he
  cases inv.stage with
  | accepted _ _ queue =>
    refine absurd ?_ (unqueued .connectEstablished (by simp [binds]))
    rw [queue]
    exact List.mem_cons_self
  | up _ _ live =>
    rcases intact.linked c e he with down | mine
    · rcases live with live | live <;>
      · rw [show (s.life c e).track.conn.state = _ from down] at live
        cases live
    · rw [mine] at notMine
      simp at notMine
  | closed _ _ _ _ one => cases one
  | removed _ ahead behind _ _ queue =>
    refine absurd ?_ (unqueued .connectDestroyed (by simp [binds]))
    rw [queue]
    exact List.mem_append_right _ List.mem_cons_self
  | destroyed _ _ _ _ _ trace =>
    refine intact.bound.alive.finished he ?_
    rw [trace]
    simp

/-- Only the event that ends an attempt well hands a socket over. -/
theorem Bound.handed_same {s t : ClientLoop} (bound : Bound s) {op : Op}
    (h : s.step op = .ok t) (same : t.client.nextConnId = s.client.nextConnId) :
    handed t.calls = handed s.calls := by
  rcases bound.life h with kept | ⟨o, stands, did⟩
  · rw [show t.calls = s.calls from congrArg ConnectorLife.calls kept]
  rcases handed_does did with given | ⟨⟨revents, a, rfl⟩, _⟩
  · exact given
  cases stands with
  | event =>
    cases step_takes h with
    | user onConn => cases onConn
    | settles next live ran beside given => exact given
    | hands next live ran hands given =>
      rw [hands.client] at same
      exact absurd same (Nat.succ_ne_self _)

/-- What a step does to the client's connection. -/
theorem Bound.connection {s t : ClientLoop} (bound : Bound s) {op : Op}
    (h : s.step op = .ok t) (kept : ∀ thread unique, op ≠ .destruct thread unique) :
    SameConnection s t ∧ handed t.calls = handed s.calls ∨
      (∃ c e, s.client.connection = some c ∧ t.client.connection = none ∧
        t.conns c = some e ∧ e.track.conn.state = .kDisconnected ∧
        t.client.nextConnId = s.client.nextConnId ∧ handed t.calls = handed s.calls) ∨
      (∃ sockfd, s.client.connection = none ∧
        t.client.connection = some s.client.nextConnId ∧
        t.client.nextConnId = s.client.nextConnId + 1 ∧
        handed t.calls = handed s.calls ++ [sockfd] ∧
        ∃ e, t.conns s.client.nextConnId = some e ∧ e.track.conn.channel.fd = sockfd) := by
  rcases (step_takes h).connection with same | ⟨_, none, number⟩ |
    ⟨revents, k, names, sockfd, rfl, _, some, number, given, born⟩
  · exact .inl ⟨same, bound.handed_same h same.2⟩
  · cases mine : s.client.connection with
    | none => exact .inl ⟨⟨none.trans mine.symm, number⟩, bound.handed_same h number⟩
    | some c =>
      obtain ⟨e, he, down⟩ := bound.alive.closing h mine none kept
      exact .inr (.inl ⟨c, e, rfl, none, he, down, number, bound.handed_same h number⟩)
  · refine .inr (.inr ⟨sockfd, ?_, some, number, given, born⟩)
    cases mine : s.client.connection with
    | none => rfl
    | some c =>
      have connected := bound.connected c mine
      rw [(bound.handing h given).1] at connected
      cases connected

/-! ## One step -/

theorem Intact.backward {s t : ClientLoop} (intact : Intact s) {op : Op}
    (h : s.step op = .ok t) {c : Nat} {e' : ClientConn} (made : s.conns c ≠ none)
    (he' : t.conns c = some e') : ∃ e, s.conns c = some e ∧
      (e.track.conn.state = .kDisconnected → e'.track.conn.state = .kDisconnected) := by
  obtain ⟨e, he⟩ := Option.ne_none_iff_exists'.mp made
  obtain ⟨x, hx, _, down, _⟩ := intact.bound.alive.forward h he
  rw [he'] at hx
  cases hx
  exact ⟨e, he, down⟩

/-- Without a new number there is no new connection. -/
theorem Takes.madeBefore {s t : ClientLoop} {op : Op} (takes : Takes s op t)
    (same : t.client.nextConnId = s.client.nextConnId) {c : Nat} {e' : ClientConn}
    (he' : t.conns c = some e') : s.conns c ≠ none := by
  intro none
  rcases takes.noneMade with noneMade | ⟨grown, _⟩
  · rw [noneMade c none] at he'
    cases he'
  · omega

theorem Intact.handedOver_step {s t : ClientLoop} (intact : Intact s) {op : Op}
    (h : s.step op = .ok t) {i sockfd : Nat} (mem : (handed s.calls)[i]? = some sockfd) :
    ∃ e, t.conns (i + 1) = some e ∧ e.track.conn.channel.fd = sockfd := by
  obtain ⟨e, he, fd⟩ := intact.handedOver i sockfd mem
  obtain ⟨e', he', same, _⟩ := intact.bound.alive.forward h he
  exact ⟨e', he', same.trans fd⟩

/-- A step that hands no socket over. -/
theorem Intact.unhanded {s t : ClientLoop} (intact : Intact s) {op : Op}
    (h : s.step op = .ok t) (live : t.destroyed = false)
    (number : t.client.nextConnId = s.client.nextConnId)
    (given : handed t.calls = handed s.calls)
    (linked : ∀ c e e', s.conns c = some e → t.conns c = some e' →
      (e.track.conn.state = .kDisconnected → e'.track.conn.state = .kDisconnected) →
      e'.track.conn.state = .kDisconnected ∨ t.client.connection = some c) : Intact t := by
  have before : ∀ c e', t.conns c = some e' → s.conns c ≠ none :=
    fun _ _ => (step_takes h).madeBefore number
  refine ⟨intact.bound.step h, live, ?_, ?_, ?_, ?_⟩
  · intro c e' he'
    obtain ⟨e, he, down⟩ := intact.backward h (before c e' he') he'
    exact linked c e e' he he' down
  · rw [number, given]
    exact intact.numbered
  · rw [given]
    exact fun i sockfd mem => intact.handedOver_step h mem
  · intro c some
    obtain ⟨e', he'⟩ := Option.ne_none_iff_exists'.mp some
    exact intact.first c (before c e' he')

/-- A step that makes a connection of the socket that is handed over. -/
theorem Intact.made {s t : ClientLoop} (intact : Intact s) {op : Op}
    (h : s.step op = .ok t) (live : t.destroyed = false) {sockfd : Nat}
    (none : s.client.connection = none) (born : t.client.connection = some s.client.nextConnId)
    (number : t.client.nextConnId = s.client.nextConnId + 1)
    (given : handed t.calls = handed s.calls ++ [sockfd]) {x : ClientConn}
    (hx : t.conns s.client.nextConnId = some x) (fd : x.track.conn.channel.fd = sockfd) :
    Intact t := by
  have others : ∀ {c : Nat} {e' : ClientConn}, c ≠ s.client.nextConnId →
      t.conns c = some e' → s.conns c ≠ .none := by
    intro c e' other he' absent
    rcases (step_takes h).noneMade with noneMade | ⟨_, others⟩
    · rw [noneMade c absent] at he'
      cases he'
    · rw [others c other absent] at he'
      cases he'
  refine ⟨intact.bound.step h, live, ?_, ?_, ?_, ?_⟩
  · intro c e' he'
    by_cases new : c = s.client.nextConnId
    · right
      rw [born, new]
    · obtain ⟨e, he, still⟩ := intact.backward h (others new he') he'
      rcases intact.linked c e he with was | own
      · exact .inl (still was)
      · rw [none] at own
        cases own
  · rw [number, given, intact.numbered, List.length_append]
    rfl
  · intro i fd' mem
    rw [given] at mem
    by_cases last : i < (handed s.calls).length
    · rw [List.getElem?_append_left last] at mem
      exact intact.handedOver_step h mem
    · have here : i = (handed s.calls).length := by
        have := (List.getElem?_eq_some_iff.mp mem).1
        simp at this
        omega
      rw [here, List.getElem?_concat_length] at mem
      cases mem
      refine ⟨x, ?_, fd⟩
      rw [here, ← intact.numbered]
      exact hx
  · intro c some
    obtain ⟨e', he'⟩ := Option.ne_none_iff_exists'.mp some
    by_cases new : c = s.client.nextConnId
    · rw [new, intact.numbered]
      omega
    · exact intact.first c (others new he')

theorem Intact.step {s t : ClientLoop} (intact : Intact s) {op : Op}
    (h : s.step op = .ok t) (kept : ∀ thread unique, op ≠ .destruct thread unique) :
    Intact t := by
  have live : t.destroyed = false := by
    rcases (step_takes h).destroyed with same | ⟨thread, unique, gone⟩
    · exact same.trans intact.live
    · exact absurd gone (kept thread unique)
  rcases intact.bound.connection h kept with ⟨⟨same, number⟩, given⟩ |
    ⟨d, x, mine, gone, hx, down, number, given⟩ | ⟨sockfd, none, born, number, given, x, hx, fd⟩
  · refine intact.unhanded h live number given ?_
    intro c e e' he he' still
    rw [same]
    exact (intact.linked c e he).imp_left still
  · refine intact.unhanded h live number given ?_
    intro c e e' he he' still
    left
    rcases intact.linked c e he with was | own
    · exact still was
    · cases mine.symm.trans own
      cases he'.symm.trans hx
      exact down
  · exact intact.made h live none born number given hx fd

end ClientLoop

end ZDQ
