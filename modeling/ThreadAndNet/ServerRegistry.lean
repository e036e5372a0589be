import ThreadAndNet.ServerLife

/-!
# The connections a server knows by name

`conns_` is keyed by the name of the server and a number in decimal. As no two
numbers read the same, an entry is never taken for another, and `conns_` holds
the connections that were accepted and not yet removed.
-/

namespace ZDQ

open Machine

theorem toString_nat_injective : Function.Injective (fun c : Nat => toString c) := by
  intro c d same
  have digits : Nat.toDigits 10 c = Nat.toDigits 10 d := by
    have same : String.ofList (Nat.toDigits 10 c) = String.ofList (Nat.toDigits 10 d) := same
    exact String.ofList_injective same
  rw [← Nat.ofDigitChars_ten_toDigits (n := c), digits, Nat.ofDigitChars_ten_toDigits]

namespace TcpServer

/-- The name of connection `c` in full. -/
def connName (name : String) (c : Nat) : String := name ++ ("#" ++ toString c)

theorem connName_injective (name : String) : Function.Injective (connName name) := by
  intro c d same
  have number : "#" ++ toString c = "#" ++ toString d := String.append_right_inj name |>.mp same
  exact toString_nat_injective (String.append_right_inj "#" |>.mp number)

theorem buf32_of_length_le {text : String} (fits : text.toList.length ≤ 31) :
    buf32 text = text := by
  rw [buf32, List.take_of_length_le fits, String.ofList_toList]

/-- Every number a C++ `int` can hold fits. -/
theorem buf32_number {c : Nat} (bound : c < 2 ^ 31) :
    buf32 ("#" ++ toString c) = "#" ++ toString c := by
  have digits : (Nat.toDigits 10 c).length ≤ 10 := by
    rw [Nat.length_toDigits_le_iff (by omega) (by omega)]
    omega
  have length : ("#" ++ toString c).toList.length = (Nat.toDigits 10 c).length + 1 := by
    simp
  apply buf32_of_length_le
  omega

end TcpServer

/-- `removeConnectionInLoop` has yet to run for the connection. -/
def Served.Registered (e : Served) : Prop := .removed 0 ∉ e.track.history

/-- A call adds to the history, but no removal. -/
theorem Track.note_history {t u : Track} {inLoop : Bool} {call : Call}
    (h : t.note inLoop call = .ok u) :
    ∃ told, u.history = t.history ++ told ∧ .removed 0 ∉ told := by
  cases call with
  | update ch =>
    obtain ⟨_, r, _, rfl⟩ := Life.onPoller_cases h
    exact ⟨[], (List.append_nil _).symm, List.not_mem_nil⟩
  | removeChannel =>
    obtain ⟨_, r, _, rfl⟩ := Life.onPoller_cases h
    exact ⟨[], (List.append_nil _).symm, List.not_mem_nil⟩
  | connCallback connected =>
    cases h
    exact ⟨[.connCallback connected], rfl, by simp⟩
  | messageCallback =>
    cases h
    exact ⟨[.messageCallback], rfl, by simp⟩
  | closeCallback =>
    cases h
    exact ⟨[.closeCallback], rfl, by simp⟩
  | _ =>
    cases h
    exact ⟨[], (List.append_nil _).symm, List.not_mem_nil⟩

theorem Track.note_registered {t u : Track} {inLoop : Bool} {call : Call}
    (h : t.note inLoop call = .ok u) :
    .removed 0 ∈ u.history ↔ .removed 0 ∈ t.history := by
  obtain ⟨told, history, none⟩ := note_history h
  rw [history, List.mem_append]
  exact or_iff_left none

theorem Track.starts_registered (t : Track) (thread : Nat) (f : ConnFunctor) :
    .removed 0 ∈ (t.starts thread f).history ↔ .removed 0 ∈ t.history := by
  cases f <;> simp [starts, see]

namespace TcpServer

/-- `conns_` has the connections still to be removed, under their names. -/
structure Registry (name : String) (s : TcpServer) : Prop where
  own : s.name = name
  named : ∀ c e, s.served c = some e → e.name = connName name c
  exact : ∀ entry c, s.conns entry = some c ↔
    ∃ e, s.served c = some e ∧ e.name = entry ∧ e.Registered

variable {name : String} {s t : TcpServer}

theorem new_registry (name : String) (numThreads : Nat) (wc : Bool) :
    Registry name (new name numThreads wc) := by
  refine ⟨rfl, fun c e he => absurd he nofun, fun entry c => ?_⟩
  constructor
  · exact nofun
  · rintro ⟨e, he, _⟩
    exact absurd he nofun

theorem Registry.of_same_name (registry : Registry name s) {c d : Nat} {e x : Served}
    (he : s.served c = some e) (hx : s.served d = some x) (same : x.name = e.name) : d = c := by
  apply connName_injective name
  rw [← registry.named d x hx, same, registry.named c e he]

theorem Registry.onLoop (registry : Registry name s) (l : Nat)
    (loop : EventLoop ServerChannel ServerFunctor) : Registry name (s.onLoop l loop) :=
  ⟨registry.own, registry.named, registry.exact⟩

theorem Registry.append (registry : Registry name s) (thread : Option Nat) (l : Nat)
    (cb : ServerFunctor) : Registry name (s.append thread l cb) :=
  registry.onLoop l _

theorem named_put (named : ∀ c e, s.served c = some e → e.name = connName name c) {c : Nat}
    {e : Served} (own : e.name = connName name c) :
    ∀ d x, (s.put c e).served d = some x → x.name = connName name d := by
  intro d x hx
  by_cases hd : d = c
  · subst hd
    rw [served_put_self] at hx
    cases hx
    exact own
  · rw [served_put_other s e hd] at hx
    exact named d x hx

/-- A connection changed in other respects. -/
theorem Registry.put (registry : Registry name s) {c : Nat} {e e' : Served}
    (he : s.served c = some e) (kept : e'.Registered ↔ e.Registered)
    (same : e'.name = e.name) : Registry name (s.put c e') := by
  refine ⟨registry.own, named_put registry.named (same.trans (registry.named c e he)), ?_⟩
  intro entry d
  have before := registry.exact entry d
  by_cases hd : d = c
  · subst hd
    simp only [he, served_put_self, Option.some.injEq, exists_eq_left'] at before ⊢
    rw [same, kept]
    exact before
  · rw [served_put_other s e' hd]
    exact before

/-- The entry of the connection goes, and no other. -/
theorem Registry.erase (registry : Registry name s) {c : Nat} {e e' : Served}
    (he : s.served c = some e) (removed : ¬ e'.Registered) (same : e'.name = e.name) :
    Registry name ({ s with conns := Function.update s.conns e.name none }.put c e') := by
  refine ⟨registry.own, named_put registry.named (same.trans (registry.named c e he)), ?_⟩
  intro entry d
  show Function.update s.conns e.name none entry = some d ↔ _
  have before := registry.exact entry d
  by_cases hd : d = c
  · subst hd
    rw [served_put_self]
    constructor
    · intro some
      by_cases hentry : entry = e.name
      · rw [hentry, Function.update_self] at some
        cases some
      · rw [Function.update_of_ne hentry] at some
        obtain ⟨x, hx, named, _⟩ := before.mp some
        rw [he] at hx
        cases hx
        exact absurd named.symm hentry
    · rintro ⟨x, hx, _, registered⟩
      cases hx
      exact absurd registered removed
  · rw [served_put_other _ _ hd]
    by_cases hentry : entry = e.name
    · subst hentry
      rw [Function.update_self]
      constructor
      · exact nofun
      · rintro ⟨x, hx, named, _⟩
        exact absurd (registry.of_same_name he hx named) hd
    · rw [Function.update_of_ne hentry]
      exact before

theorem not_registered (e : Served) :
    ¬ ({ e with track := e.track.see (.removed 0) } : Served).Registered := by
  simp [Served.Registered, Track.see]

theorem Registry.removeConnectionInLoop (registry : Registry name s) {thread : Option Nat}
    {c : Nat} (h : s.removeConnectionInLoop thread c = .ok t) : Registry name t := by
  obtain ⟨e, he, rfl⟩ := removeConnectionInLoop_cases h
  exact (registry.erase he (not_registered e) rfl).append ..

theorem Registry.removeConnection (registry : Registry name s) {thread : Option Nat}
    {c : Nat} (h : s.removeConnection thread c = .ok t) : Registry name t := by
  rw [TcpServer.removeConnection] at h
  split at h
  · exact registry.removeConnectionInLoop h
  · cases h
    exact registry.append ..

theorem Registry.perform (registry : Registry name s) {thread : Option Nat} {c : Nat}
    {call : Call} (h : s.perform thread c call = .ok t) : Registry name t := by
  rw [TcpServer.perform] at h
  split at h
  · cases h
  rename_i e he
  split at h
  · cases h
  rename_i track htrack
  have noted : Registry name (s.put c { e with track := track }) :=
    registry.put he (not_congr (Track.note_registered htrack)) rfl
  cases call with
  | append f =>
    cases h
    exact noted.append ..
  | closeCallback => exact noted.removeConnection h
  | _ =>
    cases h
    exact noted

theorem Registry.act (registry : Registry name s) {thread : Option Nat} {c : Nat}
    {o : TcpConnection.Outcome} (h : s.act thread c o = .ok t) : Registry name t := by
  rw [TcpServer.act] at h
  split at h
  · cases h
  rename_i e he
  split at h
  · cases h
  rename_i conn calls
  have moved : Registry name (s.put c { e with track := { e.track with conn := conn } }) :=
    registry.put he Iff.rfl rfl
  exact Reaches.keeps (fun _ _ _ kept hcall => kept.perform hcall) ⟨calls, h⟩ moved

theorem Registry.runConn (registry : Registry name s) {l c : Nat} {f : ConnFunctor}
    {w : WriteResult} {shutdown : Status} (h : s.runConn l c f w shutdown = .ok t) :
    Registry name t := by
  rw [TcpServer.runConn] at h
  split at h
  · cases h
  rename_i e he
  have begun : Registry name (s.put c { e with track := e.track.starts l f }) :=
    registry.put he (not_congr (Track.starts_registered e.track l f)) rfl
  exact begun.act h

/-- The next name is not in use. -/
theorem Registry.vacant (registry : Registry name s) {c : Nat} (fresh : s.served c = none) :
    s.conns (connName name c) = none := by
  cases hentry : s.conns (connName name c) with
  | none => rfl
  | some d =>
    obtain ⟨e, he, named, _⟩ := (registry.exact _ d).mp hentry
    have same : d = c := connName_injective name ((registry.named d e he).symm.trans named)
    rw [same, fresh] at he
    cases he

/-- A connection is entered, and no entry goes. -/
theorem Registry.created (registry : Registry name s) (next : Nat) {e : Served}
    (fresh : s.served s.nextConnTd = none) (named : e.name = connName name s.nextConnTd)
    (new : e.Registered) :
    Registry name (s.created (Function.update s.conns e.name (some s.nextConnTd)) next e) := by
  refine ⟨registry.own, named_put registry.named named, ?_⟩
  intro entry d
  show Function.update s.conns e.name (some s.nextConnTd) entry = some d ↔ _
  have before := registry.exact entry d
  by_cases hd : d = s.nextConnTd
  · subst hd
    rw [TcpServer.created, served_put_self]
    by_cases hentry : entry = e.name
    · rw [hentry, Function.update_self]
      exact ⟨fun _ => ⟨e, rfl, rfl, new⟩, fun _ => rfl⟩
    · rw [Function.update_of_ne hentry, before, fresh]
      constructor
      · rintro ⟨x, hx, _⟩
        cases hx
      · rintro ⟨x, hx, same, _⟩
        cases hx
        exact absurd same.symm hentry
  · rw [TcpServer.created, served_put_other _ _ hd]
    by_cases hentry : entry = e.name
    · subst hentry
      rw [Function.update_self]
      constructor
      · intro same
        cases same
        exact absurd rfl hd
      · rintro ⟨x, hx, same, _⟩
        have number := (registry.named d x hx).symm.trans (same.trans named)
        exact absurd (connName_injective name number) hd
    · rw [Function.update_of_ne hentry]
      exact before

theorem Registry.accepted_name (registry : Registry name s) (bound : s.nextConnTd < INT_MAX)
    (sockfd : Nat) : (s.accepted sockfd).name = connName name s.nextConnTd := by
  have short : s.nextConnTd < 2 ^ 31 := Nat.lt_of_lt_of_le bound (by decide)
  rw [accepted, buf32_number short, registry.own, connName]

theorem Registry.newConnection (registry : Registry name s) (located : Located s)
    {sockfd : Nat} {names : SockNames} (h : s.newConnection sockfd names = .ok t) :
    Registry name t := by
  obtain ⟨bound, _, next, e, new, rfl, h⟩ := newConnection_cases h
  have fresh := located.fresh s.nextConnTd (Nat.le_refl _)
  have named : e.name = connName name s.nextConnTd := by
    rw [new, registry.accepted_name bound]
  have registered : e.Registered := by
    rw [new]
    exact List.not_mem_nil
  have made := registry.created next fresh named registered
  rcases h with ⟨_, h⟩ | ⟨_, rfl⟩
  · exact made.runConn h
  · exact made.append ..

theorem Registry.step (registry : Registry name s) (located : Located s) {op : Op}
    (h : s.step op = .ok t) : Registry name t := by
  cases op with
  | move l v =>
    simp only [TcpServer.step] at h
    split at h
    · cases h
    split at h
    · cases h
      exact registry.onLoop ..
    · cases h
  | accept sockfd names =>
    obtain ⟨fd, loop, _, taken, _, h⟩ := accept_cases located h
    exact (registry.onLoop 0 loop).newConnection taken h
  | event l revents input =>
    simp only [TcpServer.step] at h
    split at h
    · split at h
      · cases h
      rename_i e he
      have kept : ({ e with track := e.track.see .event } : Served).Registered ↔
          e.Registered := by simp [Served.Registered, Track.see]
      exact ((registry.onLoop ..).put he kept rfl).act h
    · cases h
  | functor l w shutdown =>
    simp only [TcpServer.step] at h
    split at h
    · cases h
    · exact (registry.onLoop ..).runConn h
    · exact (registry.onLoop ..).removeConnectionInLoop h
  | user thread c u =>
    simp only [TcpServer.step] at h
    split at h
    · cases h
    · exact registry.act h
  | hold c =>
    simp only [TcpServer.step] at h
    split at h
    · cases h
    rename_i e he
    cases h
    exact registry.put he Iff.rfl rfl
  | release c =>
    simp only [TcpServer.step] at h
    split at h
    · cases h
    rename_i e he
    split at h
    · cases h
    cases h
    exact registry.put he Iff.rfl rfl

theorem reached_registry {numThreads : Nat} {wc : Bool}
    (reached : Reaches step (new name numThreads wc) s) : Registry name s := by
  have keep : ∀ s op t, Alive s ∧ Registry name s → step s op = .ok t →
      Alive t ∧ Registry name t := by
    rintro s op t ⟨alive, registry⟩ h
    exact ⟨alive.step h, registry.step alive.located h⟩
  exact (reached.keeps keep ⟨new_alive .., new_registry ..⟩).2

/-! ## What a run enters, erases and sends -/

theorem perform_mem {own : Nat} {thread : Option Nat} {v w : Life} {call : Call}
    (h : Life.perform 0 own thread v call = .ok w) {x : Happening}
    (mem : x ∈ v.track.history) : x ∈ w.track.history := by
  simp only [Life.perform] at h
  split at h
  · cases h
  rename_i track htrack
  obtain ⟨told, history, _⟩ := Track.note_history htrack
  have noted : x ∈ track.history := by
    rw [history]
    exact List.mem_append_left _ mem
  cases call with
  | closeCallback =>
    cases h
    split
    · exact List.mem_append_left _ noted
    · exact noted
  | _ =>
    cases h
    exact noted

/-- What happened to a connection stays in its history. -/
theorem act_mem {own : Nat} {thread : Option Nat} {v w : Life} {o : TcpConnection.Outcome}
    (h : Life.act 0 own thread v o = .ok w) {x : Happening} (mem : x ∈ v.track.history) :
    x ∈ w.track.history := by
  obtain ⟨conn, calls, _, hrun⟩ := Life.act_cases h
  have keep : ∀ (v : Life) call w, x ∈ v.track.history →
      Life.perform 0 own thread v call = .ok w → x ∈ w.track.history :=
    fun v call w mem h => perform_mem h mem
  exact Reaches.keeps keep ⟨calls, hrun⟩ mem

/-- A connection `e` came in under a name of its own, made for the next loop, and that
loop gets `connectEstablished`. -/
structure Enters (s t : TcpServer) (e : Served) : Prop where
  fresh : s.served s.nextConnTd = none
  made : t.served s.nextConnTd = some e
  vacant : s.conns e.name = none
  loop : e.loop = s.getNextLoop.1
  sent : if e.loop = 0 then .connectEstablished .kConnecting ∈ e.track.history
    else .conn s.nextConnTd .connectEstablished ∈ (t.loops e.loop).queued

/-- The entry of connection `c` went and no other, and its loop gets
`connectDestroyed`. -/
structure Erases (s t : TcpServer) (c : Nat) (e : Served) : Prop where
  known : s.served c = some e
  gone : ∀ entry, t.conns entry ≠ some c
  others : ∀ entry d, d ≠ c → (t.conns entry = some d ↔ s.conns entry = some d)
  sent : .conn c .connectDestroyed ∈ (t.loops e.loop).queued

theorem Registry.enters (registry : Registry name s) (located : Located s) {sockfd : Nat}
    {names : SockNames} (h : s.newConnection sockfd names = .ok t) : ∃ e, Enters s t e := by
  obtain ⟨bound, conns, next, e, new, _, h⟩ := newConnection_cases h
  have fresh := located.fresh s.nextConnTd (Nat.le_refl _)
  have vacant : s.conns e.name = none := by
    rw [new, registry.accepted_name bound]
    exact registry.vacant fresh
  have made := created_located located conns next e
  have self : (s.created conns next e).served s.nextConnTd = some e := served_put_self ..
  have loop : e.loop = s.getNextLoop.1 := by rw [new, accepted]
  rcases h with ⟨base, h⟩ | ⟨away, rfl⟩
  · obtain ⟨e', touches, hact⟩ := runConn_life made self h
    refine ⟨e', fresh, touches.after, ?_, touches.same.loop.trans loop, ?_⟩
    · rw [touches.same.name]
      exact vacant
    rw [if_pos (touches.same.loop.trans base)]
    apply act_mem hact
    simp [Track.starts, Track.see, new, accepted, Track.create, TcpConnection.new]
  · refine ⟨e, fresh, self, vacant, loop, ?_⟩
    rw [if_neg away, queued_append, if_pos rfl]
    exact List.mem_append_right _ (List.mem_singleton_self _)

theorem Registry.accept_enters (registry : Registry name s) (located : Located s)
    {sockfd : Option Nat} {names : SockNames} (h : s.step (.accept sockfd names) = .ok t) :
    ∃ e, Enters s t e := by
  obtain ⟨fd, loop, _, taken, _, h⟩ := accept_cases located h
  obtain ⟨e, fresh, made, vacant, own, sent⟩ := (registry.onLoop 0 loop).enters taken h
  refine ⟨e, fresh, made, vacant, own.trans ?_, sent⟩
  rw [getNextLoop_loop, getNextLoop_loop]
  rfl

theorem Registry.erases (registry : Registry name s) (located : Located s)
    {thread : Option Nat} {c : Nat} (h : s.removeConnectionInLoop thread c = .ok t) :
    ∃ e, Erases s t c e := by
  have after := registry.removeConnectionInLoop h
  obtain ⟨e, he, rfl⟩ := removeConnectionInLoop_cases h
  obtain ⟨e', touches, view⟩ := removeConnectionInLoop_life located he h
  refine ⟨e, he, ?_, ?_, ?_⟩
  · intro entry some
    obtain ⟨x, hx, _, registered⟩ := (after.exact entry c).mp some
    rw [touches.after] at hx
    cases hx
    have track : e'.track = e.track.see (.removed 0) := congrArg Life.track view
    apply registered
    rw [track, Track.see]
    exact List.mem_append_right _ (List.mem_singleton_self _)
  · intro entry d other
    rw [after.exact, registry.exact, (touches.others d other).1]
  · rw [queued_append, if_pos rfl]
    exact List.mem_append_right _ (List.mem_singleton_self _)

/-- In every run, `conns_` holds exactly the connections accepted and not removed, each
under its own name. Names are whole and differ, so that no connection takes the entry
of another, neither when it is entered nor when it is erased. What is sent to a
connection goes to the one loop it was made for. -/
theorem conns_exact {numThreads : Nat} {wc : Bool}
    (reached : Reaches step (new name numThreads wc) s) :
    (∀ entry c, s.conns entry = some c ↔
      ∃ e, s.served c = some e ∧ e.name = entry ∧ e.Registered) ∧
    (∀ c, c < 2 ^ 31 → buf32 ("#" ++ toString c) = "#" ++ toString c) ∧
    (∀ c e, s.served c = some e → e.name = name ++ ("#" ++ toString c)) ∧
    (∀ c d e x, s.served c = some e → s.served d = some x → e.name = x.name → c = d) ∧
    (∀ sockfd names t, s.step (.accept sockfd names) = .ok t → ∃ e, Enters s t e) ∧
    (∀ thread c t, s.removeConnectionInLoop thread c = .ok t → ∃ e, Erases s t c e) ∧
    (∀ op t, s.step op = .ok t → ∀ c e, s.served c = some e → ∃ e', t.served c = some e' ∧
      e'.loop = e.loop ∧ e'.name = e.name ∧ (e'.Registered → t.conns e.name = some c)) ∧
    (∀ l c f, .conn c f ∈ (s.loops l).queued → ∃ e, s.served c = some e ∧ e.loop = l) ∧
    ∀ c e l, s.served c = some e → .connectDestroyed l ∈ e.track.history → l = e.loop := by
  have alive := reached_alive reached
  have registry := reached_registry reached
  refine ⟨registry.exact, fun c => buf32_number, registry.named, ?_,
    fun sockfd names t => registry.accept_enters alive.located,
    fun thread c t => registry.erases alive.located, ?_, alive.located.functor, ?_⟩
  · intro c d e x he hx same
    exact registry.of_same_name hx he same
  · intro op t h c e he
    obtain ⟨e', he', same, _⟩ := (step_follows alive.located h).old c e he
    refine ⟨e', he', same.loop, same.name, fun registered => ?_⟩
    exact ((registry.step alive.located h).exact _ c).mpr ⟨e', he', same.name, registered⟩
  · intro c e l he mem
    obtain ⟨traffic, ht, earlier⟩ := (alive.inv he).stage.history
    rcases List.mem_append.mp (earlier.subset mem) with told | ended
    · rcases List.mem_append.mp told with begun | told
      · simp [Life.opening] at begun
      · rcases ht _ told with same | same <;> cases same
    · simpa using ended

section Schedules

/-- The peer of connection 1 closes; before loop 0 comes to remove it, it accepts
another connection. -/
def lateRemoval : List Op :=
  [.move 0 .loop, .move 0 .test, .move 0 (.polled [.acceptor]), .accept (some 7) names,
    .move 0 .doAppendFunctors, .move 0 .functorsDone, .move 0 .test,
    .move 1 .loop, .move 1 .test, .move 1 (.polled []), .move 1 .doAppendFunctors,
    .functor 1 (.accepted 0) none, .move 1 .functorsDone, .move 1 .test,
    .move 1 (.polled [.conn 1]), .event 1 POLLIN ⟨.read [], [], .accepted 0, none⟩,
    .move 0 (.polled [.acceptor]), .accept (some 8) names]

set_option maxRecDepth 20000 in
theorem conns_exact_lateRemoval :
    ∃ s e x, run step (new "echo" 1 false) lateRemoval = .ok s ∧
      s.served 1 = some e ∧ s.served 2 = some x ∧ e.track.conn.state = .kDisconnected ∧
      .removeConnectionInLoop 1 ∈ (s.loops 0).queued ∧
      s.conns e.name = some 1 ∧ s.conns x.name = some 2 ∧ e.name ≠ x.name := by
  obtain ⟨s, e, x, hrun, he, hx, closed, queued, before, before'⟩ : ∃ s e x,
      run step (new "echo" 1 false) lateRemoval = .ok s ∧ s.served 1 = some e ∧
      s.served 2 = some x ∧ e.track.conn.state = .kDisconnected ∧
      (s.loops 0).queued = [.removeConnectionInLoop 1] ∧
      e.track.history = [.connectEstablished .kConnecting, .connCallback true, .event,
        .closeCallback] ∧ x.track.history = [] :=
    ⟨_, _, _, rfl, rfl, rfl, rfl, rfl, rfl, rfl⟩
  obtain ⟨exact, _, _, differ, _⟩ := conns_exact ⟨lateRemoval, hrun⟩
  refine ⟨s, e, x, hrun, he, hx, closed, by simp [queued], ?_, ?_, ?_⟩
  · exact (exact _ 1).mpr ⟨e, he, rfl, by simp [Served.Registered, before]⟩
  · exact (exact _ 2).mpr ⟨x, hx, rfl, by simp [Served.Registered, before']⟩
  · intro same
    exact absurd (differ 1 2 e x he hx same) (by decide)

end Schedules

end TcpServer

end ZDQ
