import ThreadAndNet.TcpServer

/-!
# A server takes each of its connections through a life

The server as one of its connections sees it is a `Life` on the loops 0 and
`loop_`; every step of the server is a step of that life or does not touch it.
-/

namespace ZDQ

open Machine

namespace ServerFunctor

/-- The functors of connection `c` in a queue. -/
def ofConn (c : Nat) (q : List ServerFunctor) : List ConnFunctor :=
  q.filterMap (fun cb =>
    match cb with
    | .conn d f => if d = c then some f else none
    | .removeConnectionInLoop _ => none)

def removals (c : Nat) (q : List ServerFunctor) : Nat := q.count (.removeConnectionInLoop c)

variable {c d : Nat} {f : ConnFunctor} {q r : List ServerFunctor}

@[simp] theorem ofConn_nil : ofConn c [] = [] := rfl

@[simp] theorem ofConn_append : ofConn c (q ++ r) = ofConn c q ++ ofConn c r :=
  List.filterMap_append

@[simp] theorem ofConn_self : ofConn c (.conn c f :: q) = f :: ofConn c q := by
  simp [ofConn]

theorem ofConn_other (other : d ≠ c) : ofConn c (.conn d f :: q) = ofConn c q := by
  simp [ofConn, other]

@[simp] theorem ofConn_removal : ofConn c (.removeConnectionInLoop d :: q) = ofConn c q := by
  simp [ofConn]

@[simp] theorem removals_append : removals c (q ++ r) = removals c q + removals c r :=
  List.count_append

@[simp] theorem removals_conn : removals c (.conn d f :: q) = removals c q := by
  simp [removals]

@[simp] theorem removals_self :
    removals c (.removeConnectionInLoop c :: q) = removals c q + 1 := by
  simp [removals]

theorem removals_other (other : d ≠ c) :
    removals c (.removeConnectionInLoop d :: q) = removals c q := by
  simp [removals, other]

@[simp] theorem removals_nil : removals c [] = 0 := rfl

end ServerFunctor

namespace TcpServer

open ServerFunctor

/-- The server as connection `c`, known to it as `e`, sees it. -/
def life (s : TcpServer) (c : Nat) (e : Served) : Life where
  track := e.track
  queue := ofConn c (s.loops e.loop).queued
  removals := removals c (s.loops 0).queued
  active := (s.loops e.loop).activeChannels.contains (.conn c)

/-- Everything about a connection is on the loop it belongs to. -/
structure Located (s : TcpServer) : Prop where
  fresh : ∀ c, s.nextConnTd ≤ c → s.served c = none
  functor : ∀ l c f, .conn c f ∈ (s.loops l).queued →
    ∃ e, s.served c = some e ∧ e.loop = l
  removal : ∀ l c, .removeConnectionInLoop c ∈ (s.loops l).queued →
    l = 0 ∧ ∃ e, s.served c = some e
  active : ∀ l c, .conn c ∈ (s.loops l).activeChannels →
    ∃ e, s.served c = some e ∧ e.loop = l
  nodup : ∀ l, (s.loops l).activeChannels.Nodup

/-- What never changes about a connection. -/
structure Same (e e' : Served) : Prop where
  loop : e'.loop = e.loop
  name : e'.name = e.name
  closeCallback : e'.closeCallback = e.closeCallback

theorem Same.refl (e : Served) : Same e e := ⟨rfl, rfl, rfl⟩

theorem Same.trans {e e' e'' : Served} (h : Same e e') (h' : Same e' e'') : Same e e'' :=
  ⟨h'.loop.trans h.loop, h'.name.trans h.name, h'.closeCallback.trans h.closeCallback⟩

/-- The server changed for connection `c` only, and there as said. -/
structure Touches (s t : TcpServer) (c : Nat) (e e' : Served) : Prop where
  located : Located t
  before : s.served c = some e
  after : t.served c = some e'
  same : Same e e'
  others : ∀ d, d ≠ c → t.served d = s.served d ∧
    ∀ x, s.served d = some x → t.life d x = s.life d x
  nextConnTd : t.nextConnTd = s.nextConnTd

@[simp] theorem served_put_self (s : TcpServer) (c : Nat) (e : Served) :
    (s.put c e).served c = some e := Function.update_self ..

theorem served_put_other (s : TcpServer) {c d : Nat} (e : Served) (other : d ≠ c) :
    (s.put c e).served d = s.served d := Function.update_of_ne other ..

theorem queued_append (s : TcpServer) (thread : Option Nat) (l k : Nat) (cb : ServerFunctor) :
    ((s.append thread l cb).loops k).queued =
      (s.loops k).queued ++ if k = l then [cb] else [] := by
  by_cases h : k = l
  · subst h
    simp [append, onLoop]
  · simp [append, onLoop, h]

theorem activeChannels_append (s : TcpServer) (thread : Option Nat) (l k : Nat)
    (cb : ServerFunctor) :
    ((s.append thread l cb).loops k).activeChannels = (s.loops k).activeChannels := by
  by_cases h : k = l
  · subst h
    simp [append, onLoop]
  · simp [append, onLoop, h]

theorem life_put_self (s : TcpServer) (c : Nat) (e e' : Served) :
    (s.put c e).life c e' = s.life c e' := rfl

/-- Another functor on the loop of `c`. -/
theorem life_append_conn (s : TcpServer) (thread : Option Nat) (c : Nat) (e : Served)
    (f : ConnFunctor) :
    (s.append thread e.loop (.conn c f)).life c e =
      { s.life c e with queue := (s.life c e).queue ++ [f] } := by
  simp only [life, queued_append, activeChannels_append, if_true, ofConn_append, ofConn_self,
    ofConn_nil, removals_append]
  split <;> simp

theorem life_append_conn_other (s : TcpServer) (thread : Option Nat) {c d : Nat}
    (other : c ≠ d) (l : Nat) (x : Served) (f : ConnFunctor) :
    (s.append thread l (.conn c f)).life d x = s.life d x := by
  simp only [life, queued_append, activeChannels_append, ofConn_append, removals_append]
  congr 1
  · split
    · rw [ofConn_other other, ofConn_nil, List.append_nil]
    · simp
  · split <;> simp

theorem life_append_removal (s : TcpServer) (thread : Option Nat) (c : Nat) (e : Served) :
    (s.append thread 0 (.removeConnectionInLoop c)).life c e =
      { s.life c e with removals := (s.life c e).removals + 1 } := by
  simp only [life, queued_append, activeChannels_append, ofConn_append, removals_append,
    if_true, removals_self, removals_nil]
  congr 1
  split <;> simp

theorem life_append_removal_other (s : TcpServer) (thread : Option Nat) {c d : Nat}
    (other : c ≠ d) (x : Served) :
    (s.append thread 0 (.removeConnectionInLoop c)).life d x = s.life d x := by
  simp only [life, queued_append, activeChannels_append, ofConn_append, removals_append,
    if_true, removals_other other, removals_nil, Nat.add_zero]
  congr 1
  split <;> simp

theorem Touches.refl {s : TcpServer} (located : Located s) {c : Nat} {e : Served}
    (he : s.served c = some e) : Touches s s c e e :=
  ⟨located, he, he, Same.refl e, fun _ _ => ⟨rfl, fun _ _ => rfl⟩, rfl⟩

theorem Touches.trans {s t u : TcpServer} {c : Nat} {e e' e'' : Served}
    (h : Touches s t c e e') (h' : Touches t u c e' e'') : Touches s u c e e'' := by
  refine ⟨h'.located, h.before, h'.after, h.same.trans h'.same, ?_,
    h'.nextConnTd.trans h.nextConnTd⟩
  intro d other
  obtain ⟨same, view⟩ := h.others d other
  obtain ⟨same', view'⟩ := h'.others d other
  refine ⟨same'.trans same, fun x hx => ?_⟩
  rw [view' x (same.trans hx), view x hx]

/-- The same loops, and each connection where it was. -/
theorem Located.of_kept {s t : TcpServer} (located : Located s) (loops : t.loops = s.loops)
    (kept : ∀ c e, s.served c = some e → ∃ e', t.served c = some e' ∧ e'.loop = e.loop)
    (fresh : ∀ c, t.nextConnTd ≤ c → t.served c = none) : Located t := by
  have found : ∀ c l, (∃ e, s.served c = some e ∧ e.loop = l) →
      ∃ e, t.served c = some e ∧ e.loop = l := by
    rintro c l ⟨e, he, hl⟩
    obtain ⟨e', he', same⟩ := kept c e he
    exact ⟨e', he', same.trans hl⟩
  refine ⟨fresh, ?_, ?_, ?_, ?_⟩
  · intro l c f mem
    rw [loops] at mem
    exact found c l (located.functor l c f mem)
  · intro l c mem
    rw [loops] at mem
    obtain ⟨zero, e, he⟩ := located.removal l c mem
    obtain ⟨e', he', _⟩ := kept c e he
    exact ⟨zero, e', he'⟩
  · intro l c mem
    rw [loops] at mem
    exact found c l (located.active l c mem)
  · rw [loops]
    exact located.nodup

/-- A functor is put on the loop it belongs to. -/
theorem Located.append {s : TcpServer} (located : Located s) (thread : Option Nat) {l : Nat}
    {cb : ServerFunctor}
    (conn : ∀ c f, cb = .conn c f → ∃ e, s.served c = some e ∧ e.loop = l)
    (removal : ∀ c, cb = .removeConnectionInLoop c → l = 0 ∧ ∃ e, s.served c = some e) :
    Located (s.append thread l cb) := by
  have known : ∀ k g, g ∈ ((s.append thread l cb).loops k).queued →
      g ∈ (s.loops k).queued ∨ k = l ∧ cb = g := by
    intro k g mem
    rw [queued_append, List.mem_append] at mem
    refine mem.imp_right fun mem => ?_
    split at mem
    · rename_i here
      exact ⟨here, (List.mem_singleton.mp mem).symm⟩
    · cases mem
  refine ⟨located.fresh, ?_, ?_, ?_, ?_⟩
  · intro k c f mem
    rcases known k _ mem with mem | ⟨rfl, here⟩
    · exact located.functor k c f mem
    · exact conn c f here
  · intro k c mem
    rcases known k _ mem with mem | ⟨rfl, here⟩
    · exact located.removal k c mem
    · exact removal c here
  · intro k c mem
    rw [activeChannels_append] at mem
    exact located.active k c mem
  · intro k
    rw [activeChannels_append]
    exact located.nodup k

theorem touches_put {s : TcpServer} (located : Located s) {c : Nat} {e e' : Served}
    (he : s.served c = some e) (same : Same e e') : Touches s (s.put c e') c e e' := by
  have other : ∀ d, d ≠ c → (s.put c e').served d = s.served d :=
    fun d hd => served_put_other s e' hd
  refine ⟨located.of_kept rfl ?_ ?_, he, served_put_self .., same, ?_, rfl⟩
  · intro d x hx
    by_cases hd : d = c
    · subst hd
      rw [he] at hx
      cases hx
      exact ⟨e', served_put_self .., same.loop⟩
    · exact ⟨x, by rw [other d hd, hx], rfl⟩
  · intro d hd
    have none := located.fresh d hd
    rw [other d (by rintro rfl; rw [he] at none; cases none), none]
  · intro d hd
    exact ⟨other d hd, fun x _ => rfl⟩

theorem touches_append_conn {s : TcpServer} (located : Located s) {c : Nat} {e : Served}
    (he : s.served c = some e) (thread : Option Nat) (f : ConnFunctor) :
    Touches s (s.append thread e.loop (.conn c f)) c e e := by
  refine ⟨located.append thread ?_ ?_, he, he, Same.refl e, ?_, rfl⟩
  · intro d g same
    cases same
    exact ⟨e, he, rfl⟩
  · intro d same
    cases same
  · intro d other
    exact ⟨rfl, fun x _ => life_append_conn_other s thread other.symm e.loop x f⟩

theorem touches_append_removal {s : TcpServer} (located : Located s) {c : Nat} {e : Served}
    (he : s.served c = some e) (thread : Option Nat) :
    Touches s (s.append thread 0 (.removeConnectionInLoop c)) c e e := by
  refine ⟨located.append thread ?_ ?_, he, he, Same.refl e, ?_, rfl⟩
  · intro d g same
    cases same
  · intro d same
    cases same
    exact ⟨rfl, e, he⟩
  · intro d other
    exact ⟨rfl, fun x _ => life_append_removal_other s thread other.symm x⟩

theorem touches_conns {s : TcpServer} (located : Located s) {c : Nat} {e : Served}
    (he : s.served c = some e) (conns : String → Option Nat) :
    Touches s { s with conns := conns } c e e :=
  ⟨⟨located.fresh, located.functor, located.removal, located.active, located.nodup⟩, he, he,
    Same.refl e, fun _ _ => ⟨rfl, fun _ _ => rfl⟩, rfl⟩

theorem removeConnectionInLoop_cases {s t : TcpServer} {thread : Option Nat} {c : Nat}
    (h : s.removeConnectionInLoop thread c = .ok t) :
    ∃ e, s.served c = some e ∧ t = (({ s with conns := Function.update s.conns e.name none }.put
      c { e with track := e.track.see (.removed 0) }).append thread e.loop
        (.conn c .connectDestroyed)) := by
  rw [removeConnectionInLoop] at h
  split at h
  · split at h
    · cases h
    · rename_i e he
      cases h
      exact ⟨e, he, rfl⟩
  · cases h

theorem removeConnectionInLoop_life {s t : TcpServer} (located : Located s) {c : Nat}
    {e : Served} (he : s.served c = some e) {thread : Option Nat}
    (h : s.removeConnectionInLoop thread c = .ok t) :
    ∃ e', Touches s t c e e' ∧ t.life c e' = (s.life c e).remove 0 := by
  obtain ⟨x, hx, rfl⟩ := removeConnectionInLoop_cases h
  rw [he] at hx
  cases hx
  have erased := touches_conns located he (Function.update s.conns e.name none)
  have seen := touches_put erased.located erased.after
    (show Same e { e with track := e.track.see (.removed 0) } from ⟨rfl, rfl, rfl⟩)
  have queued := touches_append_conn seen.located seen.after thread .connectDestroyed
  refine ⟨_, erased.trans (seen.trans queued), ?_⟩
  exact life_append_conn _ thread c { e with track := e.track.see (.removed 0) } _

theorem removeConnection_life {s t : TcpServer} (located : Located s) {c : Nat}
    {e : Served} (he : s.served c = some e) {thread : Option Nat}
    (h : s.removeConnection thread c = .ok t) :
    ∃ e', Touches s t c e e' ∧ t.life c e' = if thread = some 0 then (s.life c e).remove 0
      else { s.life c e with removals := (s.life c e).removals + 1 } := by
  rw [removeConnection] at h
  split at h
  · rename_i base
    rw [if_pos base]
    exact removeConnectionInLoop_life located he h
  · rename_i base
    rw [if_neg base]
    cases h
    exact ⟨e, touches_append_removal located he thread, life_append_removal s thread c e⟩

/-- A call of a connection has the effect on its life that `Life.perform` says. -/
theorem perform_life {s t : TcpServer} (located : Located s) {c : Nat} {e : Served}
    (he : s.served c = some e) {thread : Option Nat} {call : Call}
    (h : s.perform thread c call = .ok t) :
    ∃ e', Touches s t c e e' ∧
      Life.perform 0 e.loop thread (s.life c e) call = .ok (t.life c e') := by
  simp only [perform, he] at h
  split at h
  · cases h
  rename_i track htrack
  have noted := touches_put located he
    (show Same e { e with track := track } from ⟨rfl, rfl, rfl⟩)
  have hlife : (s.life c e).track.note (thread == some e.loop) call = .ok track := htrack
  simp only [Life.perform, hlife]
  cases call with
  | append f =>
    cases h
    have queued := touches_append_conn noted.located noted.after thread f
    refine ⟨_, noted.trans queued, congrArg Except.ok ?_⟩
    exact (life_append_conn _ thread c { e with track := track } f).symm
  | closeCallback =>
    obtain ⟨e', removed, view⟩ := removeConnection_life noted.located noted.after h
    exact ⟨e', noted.trans removed, congrArg Except.ok view.symm⟩
  | _ =>
    cases h
    exact ⟨_, noted, rfl⟩

theorem run_perform_life {c : Nat} {thread : Option Nat} {calls : List Call}
    {s t : TcpServer} (located : Located s) {e : Served} (he : s.served c = some e)
    (h : run (perform thread c) s calls = .ok t) :
    ∃ e', Touches s t c e e' ∧
      run (Life.perform 0 e.loop thread) (s.life c e) calls = .ok (t.life c e') := by
  induction calls generalizing s e with
  | nil =>
    cases h
    exact ⟨e, Touches.refl located he, rfl⟩
  | cons call rest ih =>
    obtain ⟨m, hm, hrest⟩ := run_cons_inv h
    obtain ⟨e', first, hfirst⟩ := perform_life located he hm
    obtain ⟨e'', later, hlater⟩ := ih first.located first.after hrest
    refine ⟨e'', first.trans later, ?_⟩
    rw [run_cons_ok hfirst]
    rw [first.same.loop] at hlater
    exact hlater

theorem act_life {s t : TcpServer} (located : Located s) {c : Nat} {e : Served}
    (he : s.served c = some e) {thread : Option Nat} {o : TcpConnection.Outcome}
    (h : s.act thread c o = .ok t) :
    ∃ e', Touches s t c e e' ∧ Life.act 0 e.loop thread (s.life c e) o = .ok (t.life c e') := by
  simp only [act, he] at h
  split at h
  · cases h
  · rename_i conn calls
    have moved := touches_put located he
      (show Same e { e with track := { e.track with conn := conn } } from ⟨rfl, rfl, rfl⟩)
    obtain ⟨e', later, hrun⟩ := run_perform_life moved.located moved.after h
    exact ⟨e', moved.trans later, hrun⟩

theorem runConn_life {s t : TcpServer} (located : Located s) {c : Nat} {e : Served}
    (he : s.served c = some e) {l : Nat} {f : ConnFunctor} {w : WriteResult}
    {shutdown : Status} (h : s.runConn l c f w shutdown = .ok t) :
    ∃ e', Touches s t c e e' ∧
      Life.act 0 e.loop (some l) { s.life c e with track := e.track.starts l f }
        (e.track.conn.runFunctor w shutdown f) = .ok (t.life c e') := by
  simp only [runConn, he] at h
  have begun := touches_put located he
    (show Same e { e with track := e.track.starts l f } from ⟨rfl, rfl, rfl⟩)
  obtain ⟨e', later, hact⟩ := act_life begun.located begun.after h
  exact ⟨e', begun.trans later, hact⟩

/-! ## Steps of the server -/

/-- What a step of the server is for the connections it had before. -/
structure Follows (s t : TcpServer) : Prop where
  located : Located t
  old : ∀ c e, s.served c = some e → ∃ e', t.served c = some e' ∧ Same e e' ∧
    Reaches (Life.step 0 e.loop) (s.life c e) (t.life c e')
  new : ∀ c e', s.served c = none → t.served c = some e' →
    e'.closeCallback = [c] ∧ ∃ sockfd wc,
      Reaches (Life.step 0 e'.loop) (Life.start sockfd wc) (t.life c e')

theorem Touches.follows {s t : TcpServer} {c : Nat} {e e' : Served}
    (h : Touches s t c e e')
    (reaches : Reaches (Life.step 0 e.loop) (s.life c e) (t.life c e')) : Follows s t := by
  refine ⟨h.located, ?_, ?_⟩
  · intro d x hx
    by_cases hd : d = c
    · subst hd
      rw [h.before] at hx
      cases hx
      exact ⟨e', h.after, h.same, reaches⟩
    · obtain ⟨same, view⟩ := h.others d hd
      exact ⟨x, same.trans hx, Same.refl x, by rw [view x hx]; exact .refl _⟩
  · intro d x none some
    by_cases hd : d = c
    · subst hd
      rw [h.before] at none
      cases none
    · rw [(h.others d hd).1, none] at some
      cases some

theorem user_follows {s t : TcpServer} (located : Located s) {thread : Option Nat} {c : Nat}
    {u : TcpConnection.UserCall} (h : s.step (.user thread c u) = .ok t) : Follows s t := by
  simp only [step] at h
  split at h
  · cases h
  · rename_i e he
    obtain ⟨e', touches, hact⟩ := act_life located he h
    exact touches.follows (.one (.user thread u) hact)

theorem hold_follows {s t : TcpServer} (located : Located s) {c : Nat}
    (h : s.step (.hold c) = .ok t) : Follows s t := by
  simp only [step] at h
  split at h
  · cases h
  · rename_i e he
    cases h
    have same : Same e { e with userRefs := e.userRefs + 1 } := ⟨rfl, rfl, rfl⟩
    exact (touches_put located he same).follows (.refl _)

theorem release_follows {s t : TcpServer} (located : Located s) {c : Nat}
    (h : s.step (.release c) = .ok t) : Follows s t := by
  simp only [step] at h
  split at h
  · cases h
  · rename_i e he
    split at h
    · cases h
    · rename_i n _
      cases h
      have same : Same e { e with userRefs := n } := ⟨rfl, rfl, rfl⟩
      exact (touches_put located he same).follows (.refl _)

theorem loops_onLoop (s : TcpServer) (l k : Nat)
    (loop : EventLoop ServerChannel ServerFunctor) :
    (s.onLoop l loop).loops k = if k = l then loop else s.loops k :=
  Function.update_apply ..

/-- Loop `l` took its next channel or functor, or moved. -/
theorem located_onLoop {s : TcpServer} (located : Located s) {l : Nat}
    {loop : EventLoop ServerChannel ServerFunctor}
    (queued : ∀ cb ∈ loop.queued, cb ∈ (s.loops l).queued)
    (active : ∀ c, .conn c ∈ loop.activeChannels → ∃ e, s.served c = some e ∧ e.loop = l)
    (nodup : loop.activeChannels.Nodup) : Located (s.onLoop l loop) := by
  have before : ∀ k cb, cb ∈ ((s.onLoop l loop).loops k).queued →
      cb ∈ (s.loops k).queued := by
    intro k cb mem
    rw [loops_onLoop] at mem
    split at mem
    · rename_i hk
      rw [hk]
      exact queued cb mem
    · exact mem
  refine ⟨located.fresh, ?_, ?_, ?_, ?_⟩
  · intro k c f mem
    exact located.functor k c f (before k _ mem)
  · intro k c mem
    exact located.removal k c (before k _ mem)
  · intro k c mem
    rw [loops_onLoop] at mem
    split at mem
    · rename_i hk
      rw [hk]
      exact active c mem
    · exact located.active k c mem
  · intro k
    rw [loops_onLoop]
    split
    · exact nodup
    · exact located.nodup k

/-- The functors of a loop as a life sees them, when the loop itself is replaced. -/
theorem life_onLoop {s : TcpServer} {l : Nat}
    {loop : EventLoop ServerChannel ServerFunctor} {c : Nat} {e : Served} {v : Life}
    (track : v.track = e.track)
    (queue : v.queue = if e.loop = l then ofConn c loop.queued else (s.life c e).queue)
    (removed : v.removals = if 0 = l then ServerFunctor.removals c loop.queued
      else (s.life c e).removals)
    (active : v.active = if e.loop = l then loop.activeChannels.contains (.conn c)
      else (s.life c e).active) :
    (s.onLoop l loop).life c e = v := by
  obtain ⟨t, q, r, a⟩ := v
  simp only at track queue removed active
  subst track queue removed active
  have view : ∀ {β : Type} (f : EventLoop ServerChannel ServerFunctor → β) (k : Nat),
      f ((s.onLoop l loop).loops k) = if k = l then f loop else f (s.loops k) := by
    intro β f k
    rw [loops_onLoop, apply_ite f]
  simp only [life]
  congr 1
  · exact view (fun x => ofConn c x.queued) e.loop
  · exact view (fun x => ServerFunctor.removals c x.queued) 0
  · exact view (fun x => x.activeChannels.contains (.conn c)) e.loop

/-- A loop that looks like the one it replaces. -/
theorem view_same (s : TcpServer) {β : Type} (f : EventLoop ServerChannel ServerFunctor → β)
    {k l : Nat} {x : β} (same : x = f (s.loops l)) :
    f (s.loops k) = if k = l then x else f (s.loops k) := by
  split
  · rename_i hk
    rw [hk, same]
  · rfl

theorem removals_view {s : TcpServer} {l : Nat} {q : List ServerFunctor} {c : Nat}
    {e : Served} (same : ServerFunctor.removals c q =
      ServerFunctor.removals c (s.loops l).queued) :
    (s.life c e).removals = if 0 = l then ServerFunctor.removals c q
      else (s.life c e).removals :=
  view_same s (fun x => ServerFunctor.removals c x.queued) same

/-- A loop that keeps what belongs to a connection does not change its life. -/
theorem life_onLoop_same {s : TcpServer} {l : Nat}
    {loop : EventLoop ServerChannel ServerFunctor} {c : Nat} {e : Served}
    (queue : ofConn c loop.queued = ofConn c (s.loops l).queued)
    (removed : ServerFunctor.removals c loop.queued =
      ServerFunctor.removals c (s.loops l).queued)
    (active : loop.activeChannels.contains (.conn c) =
      (s.loops l).activeChannels.contains (.conn c)) :
    (s.onLoop l loop).life c e = s.life c e := by
  refine life_onLoop rfl ?_ (removals_view removed) ?_
  · exact view_same s (fun x => ofConn c x.queued) queue
  · exact view_same s (fun x => x.activeChannels.contains (.conn c)) active

/-- A loop that moves on by itself can only have found channels active. -/
theorem move_life {s t : TcpServer} (located : Located s) {l : Nat}
    {v : EventLoop.Move ServerChannel} (h : s.step (.move l v) = .ok t) :
    Located t ∧ t.served = s.served ∧ ∀ c e, s.served c = some e →
      t.life c e = s.life c e ∨ Life.step 0 e.loop (s.life c e) .poll = .ok (t.life c e) := by
  simp only [step] at h
  split at h
  · cases h
  rename_i loop hmove
  obtain ⟨queued, before, after⟩ := EventLoop.move_cases hmove
  split at h
  · rename_i ready
    obtain ⟨nodup, reported⟩ := ready
    rw [List.all_eq_true] at reported
    have report : ∀ c, .conn c ∈ loop.activeChannels → ∃ e, s.served c = some e ∧
        e.loop = l ∧ e.track.registration.Watched := by
      intro c mem
      have := reported _ mem
      simp only [reports] at this
      split at this
      · cases this
      · rename_i e he
        rw [Bool.and_eq_true, beq_iff_eq, decide_eq_true_iff] at this
        exact ⟨e, he, this.1, this.2⟩
    cases h
    refine ⟨?_, rfl, ?_⟩
    · refine located_onLoop located (by rw [queued]; exact fun _ => id) ?_ nodup
      intro c mem
      obtain ⟨e, he, hl, _⟩ := report c mem
      exact ⟨e, he, hl⟩
    · intro c e he
      by_cases mem : .conn c ∈ loop.activeChannels
      · obtain ⟨e', he', hl, watched⟩ := report c mem
        rw [he] at he'
        cases he'
        refine Or.inr ?_
        have polled : (s.onLoop l loop).life c e = { s.life c e with active := true } := by
          refine life_onLoop rfl ?_ (removals_view (by rw [queued])) ?_
          · simp [hl, queued, life]
          · simp [hl, mem]
        simp only [Life.step]
        rw [if_pos (show (s.life c e).track.registration.Watched from watched), polled]
      · exact Or.inl (life_onLoop_same (by rw [queued]) (by rw [queued]) (by simp [before, mem]))
  · cases h

theorem move_follows {s t : TcpServer} (located : Located s) {l : Nat}
    {v : EventLoop.Move ServerChannel} (h : s.step (.move l v) = .ok t) : Follows s t := by
  obtain ⟨located', same, lives⟩ := move_life located h
  refine ⟨located', ?_, ?_⟩
  · intro c e he
    refine ⟨e, by rw [same, he], Same.refl e, ?_⟩
    rcases lives c e he with kept | polled
    · rw [kept]
      exact .refl _
    · exact .one .poll polled
  · intro c e none some
    rw [same, none] at some
    cases some

/-- The event of a channel is an event in the life of the connection it belongs to. -/
theorem event_life {s t : TcpServer} (located : Located s) {l : Nat}
    {revents : BitVec 32} {input : TcpConnection.EventInput}
    (h : s.step (.event l revents input) = .ok t) :
    ∃ c loop e e', (s.loops l).nextChannel = .ok (.conn c, loop) ∧ e.loop = l ∧
      (s.life c e).active = true ∧ Touches s t c e e' ∧
      Life.step 0 e.loop (s.life c e) (.event revents input) = .ok (t.life c e') := by
  simp only [step] at h
  split at h
  · rename_i c loop hnext
    obtain ⟨queued, active⟩ := EventLoop.nextChannel_cases hnext
    have mem : .conn c ∈ (s.loops l).activeChannels := by
      rw [active]
      exact List.mem_cons_self
    obtain ⟨e, he, hl⟩ := located.active l c mem
    have nodup := located.nodup l
    rw [active, List.nodup_cons] at nodup
    rw [he] at h
    have taken : Touches s (s.onLoop l loop) c e e := by
      refine ⟨?_, he, he, Same.refl e, ?_, rfl⟩
      · refine located_onLoop located (by rw [queued]; exact fun _ => id) ?_ nodup.2
        intro d hd
        exact located.active l d (by rw [active]; exact List.mem_cons_of_mem _ hd)
      · intro d other
        exact ⟨rfl, fun x _ => life_onLoop_same (by rw [queued]) (by rw [queued])
          (by simp [active, other])⟩
    have seen := touches_put taken.located taken.after
      (show Same e { e with track := e.track.see .event } from ⟨rfl, rfl, rfl⟩)
    obtain ⟨e', later, hact⟩ := act_life seen.located seen.after h
    have waiting : (s.life c e).active = true := by simp [life, hl, mem]
    have view : (s.onLoop l loop).life c e = { s.life c e with active := false } := by
      refine life_onLoop rfl ?_ (removals_view (by rw [queued])) ?_
      · simp [hl, queued, life]
      · simp [hl, nodup.1]
    refine ⟨c, loop, e, e', hnext, hl, waiting, taken.trans (seen.trans later), ?_⟩
    simp only [Life.step]
    rw [if_pos waiting]
    have started : ((s.onLoop l loop).put c { e with track := e.track.see .event }).life c
        { e with track := e.track.see .event } =
        { s.life c e with active := false, track := (s.life c e).track.see .event } := by
      rw [life_put_self]
      exact congrArg (fun v : Life => { v with track := e.track.see .event }) view
    rw [started, ← hl] at hact
    exact hact
  · cases h

theorem event_follows {s t : TcpServer} (located : Located s) {l : Nat}
    {revents : BitVec 32} {input : TcpConnection.EventInput}
    (h : s.step (.event l revents input) = .ok t) : Follows s t := by
  obtain ⟨c, loop, e, e', _, _, _, touches, hlife⟩ := event_life located h
  exact touches.follows (.one (.event revents input) hlife)

/-- A functor that means nothing to other connections was taken from its queue. -/
theorem touches_nextFunctor {s : TcpServer} (located : Located s) {l : Nat}
    {cb : ServerFunctor} {loop : EventLoop ServerChannel ServerFunctor}
    (next : (s.loops l).nextFunctor = .ok (cb, loop)) {c : Nat} {e : Served}
    (he : s.served c = some e)
    (own : ∀ d, d ≠ c → ∀ q, ofConn d (cb :: q) = ofConn d q ∧
      ServerFunctor.removals d (cb :: q) = ServerFunctor.removals d q) :
    Touches s (s.onLoop l loop) c e e := by
  obtain ⟨queued, idle, idle'⟩ := EventLoop.nextFunctor_cases next
  refine ⟨?_, he, he, Same.refl e, ?_, rfl⟩
  · refine located_onLoop located ?_ (by simp [idle']) (by simp [idle'])
    intro x hx
    rw [queued]
    exact List.mem_cons_of_mem _ hx
  · intro d other
    obtain ⟨functors, removals⟩ := own d other loop.queued
    exact ⟨rfl, fun x _ => life_onLoop_same (by rw [queued, functors])
      (by rw [queued, removals]) (by rw [idle, idle'])⟩

/-- The next functor of a loop belongs to one connection, and is a step of its life. -/
theorem functor_life {s t : TcpServer} (located : Located s) {l : Nat}
    {w : WriteResult} {shutdown : Status} (h : s.step (.functor l w shutdown) = .ok t) :
    ∃ c cb loop e e' op, (s.loops l).nextFunctor = .ok (cb, loop) ∧
      ((∃ f, cb = .conn c f ∧ e.loop = l ∧ (s.life c e).queue.head? = some f ∧
          op = .functor w shutdown) ∨ cb = .removeConnectionInLoop c ∧ op = .remove) ∧
      Touches s t c e e' ∧ Life.step 0 e.loop (s.life c e) op = .ok (t.life c e') := by
  simp only [step] at h
  split at h
  · cases h
  · rename_i c f loop hnext
    obtain ⟨queued, idle, idle'⟩ := EventLoop.nextFunctor_cases hnext
    have mem : .conn c f ∈ (s.loops l).queued := by
      rw [queued]
      exact List.mem_cons_self
    obtain ⟨e, he, hl⟩ := located.functor l c f mem
    have taken := touches_nextFunctor located hnext he
      (fun d other q => ⟨ofConn_other other.symm, removals_conn⟩)
    obtain ⟨e', later, hact⟩ := runConn_life taken.located taken.after h
    have queue : (s.life c e).queue = f :: ofConn c loop.queued := by
      simp [life, hl, queued]
    have quiet : (s.life c e).active = false := by simp [life, hl, idle]
    have view : (s.onLoop l loop).life c e =
        { s.life c e with queue := ofConn c loop.queued, active := false } := by
      refine life_onLoop rfl (by simp [hl]) (removals_view (by rw [queued, removals_conn])) ?_
      simp [hl, idle']
    refine ⟨c, _, loop, e, e', .functor w shutdown, hnext,
      Or.inl ⟨f, rfl, hl, by rw [queue]; rfl, rfl⟩, taken.trans later, ?_⟩
    simp only [Life.step]
    rw [view, ← hl] at hact
    simp only [queue, quiet, Bool.false_eq_true, if_false]
    exact hact
  · rename_i c loop hnext
    obtain ⟨queued, idle, idle'⟩ := EventLoop.nextFunctor_cases hnext
    have mem : .removeConnectionInLoop c ∈ (s.loops l).queued := by
      rw [queued]
      exact List.mem_cons_self
    obtain ⟨rfl, e, he⟩ := located.removal l c mem
    have taken := touches_nextFunctor located hnext he
      (fun d other q => ⟨ofConn_removal, removals_other other.symm⟩)
    obtain ⟨e', later, gone⟩ := removeConnectionInLoop_life taken.located taken.after h
    have more : (s.life c e).removals = ServerFunctor.removals c loop.queued + 1 := by
      simp [life, queued]
    have view : (s.onLoop 0 loop).life c e =
        { s.life c e with removals := ServerFunctor.removals c loop.queued } := by
      refine life_onLoop rfl ?_ (by simp) ?_
      · exact view_same s (fun x => ofConn c x.queued) (by rw [queued, ofConn_removal])
      · exact view_same s (fun x => x.activeChannels.contains (.conn c)) (by rw [idle, idle'])
    refine ⟨c, _, loop, e, e', .remove, hnext, Or.inr ⟨rfl, rfl⟩, taken.trans later, ?_⟩
    simp only [Life.step]
    rw [more]
    rw [view] at gone
    exact congrArg Except.ok gone.symm

theorem functor_follows {s t : TcpServer} (located : Located s) {l : Nat}
    {w : WriteResult} {shutdown : Status} (h : s.step (.functor l w shutdown) = .ok t) :
    Follows s t := by
  obtain ⟨c, cb, loop, e, e', op, _, _, touches, hlife⟩ := functor_life located h
  exact touches.follows (.one op hlife)

/-- The server after `newConnection` made a connection, before it is established. -/
def created (s : TcpServer) (conns : String → Option Nat) (next : Nat) (e : Served) :
    TcpServer :=
  { s with next := next, nextConnTd := s.nextConnTd + 1, conns := conns }.put s.nextConnTd e

theorem created_located {s : TcpServer} (located : Located s) (conns : String → Option Nat)
    (next : Nat) (e : Served) : Located (s.created conns next e) := by
  have none := located.fresh s.nextConnTd (Nat.le_refl _)
  have old : ∀ d, d ≠ s.nextConnTd → (s.created conns next e).served d = s.served d :=
    fun d other => Function.update_of_ne other ..
  refine located.of_kept rfl ?_ ?_
  · intro d x hx
    have other : d ≠ s.nextConnTd := by
      rintro rfl
      rw [none] at hx
      cases hx
    exact ⟨x, by rw [old d other, hx], rfl⟩
  · intro d hd
    have later : s.nextConnTd + 1 ≤ d := hd
    rw [old d (by omega)]
    exact located.fresh d (by omega)

theorem created_others (s : TcpServer) (conns : String → Option Nat) (next : Nat)
    (e : Served) (d : Nat) (other : d ≠ s.nextConnTd) :
    (s.created conns next e).served d = s.served d ∧
      ∀ x, (s.created conns next e).life d x = s.life d x :=
  ⟨Function.update_of_ne other .., fun _ => rfl⟩

/-- Nothing on the loops belongs to a connection that does not exist yet. -/
theorem life_unborn {s : TcpServer} (located : Located s) {c : Nat}
    (none : s.served c = none) (e : Served) : s.life c e = ⟨e.track, [], 0, false⟩ := by
  simp only [life]
  congr 1
  · simp only [ofConn, List.filterMap_eq_nil_iff]
    rintro (⟨d, f⟩ | d) mem
    · obtain ⟨x, hx, _⟩ := located.functor _ _ _ mem
      have other : d ≠ c := by
        rintro rfl
        rw [none] at hx
        cases hx
      simp [other]
    · rfl
  · refine List.count_eq_zero.mpr fun mem => ?_
    obtain ⟨_, x, hx⟩ := located.removal _ _ mem
    rw [none] at hx
    cases hx
  · refine Bool.eq_false_iff.mpr fun mem => ?_
    obtain ⟨x, hx, _⟩ := located.active _ _ (List.contains_iff_mem.mp mem)
    rw [none] at hx
    cases hx

theorem getNextLoop_cases (s : TcpServer) :
    ∃ l n, s.getNextLoop = (l, { s with next := n }) := by
  unfold getNextLoop
  split
  · exact ⟨0, s.next, rfl⟩
  · exact ⟨_, _, rfl⟩

theorem getNextLoop_loop (s : TcpServer) :
    s.getNextLoop.1 = if s.numThreads = 0 then 0 else s.next + 1 := by
  rw [getNextLoop]
  split <;> rfl

/-- A connection came into being, and what happened after that touched it only. -/
theorem follows_of_created {s m t : TcpServer} {c : Nat} {e e' : Served}
    (none : s.served c = none)
    (others : ∀ d, d ≠ c → m.served d = s.served d ∧ ∀ x, m.life d x = s.life d x)
    (h : Touches m t c e e') (bound : e.closeCallback = [c])
    (reaches : ∃ sockfd wc, Reaches (Life.step 0 e'.loop) (Life.start sockfd wc) (t.life c e')) :
    Follows s t := by
  refine ⟨h.located, ?_, ?_⟩
  · intro d x hx
    have other : d ≠ c := by
      rintro rfl
      rw [none] at hx
      cases hx
    obtain ⟨made, view⟩ := others d other
    obtain ⟨same, view'⟩ := h.others d other
    refine ⟨x, same.trans (made.trans hx), Same.refl x, ?_⟩
    rw [view' x (made.trans hx), view x]
    exact .refl _
  · intro d x none' some
    by_cases hd : d = c
    · subst hd
      rw [h.after] at some
      cases some
      exact ⟨h.same.closeCallback.trans bound, reaches⟩
    · rw [(h.others d hd).1, (others d hd).1, none'] at some
      cases some

/-- The connection that `newConnection` makes of a descriptor. -/
def accepted (s : TcpServer) (sockfd : Nat) : Served where
  track := .create sockfd s.writeCompleteCallback
  loop := s.getNextLoop.1
  name := s.name ++ buf32 ("#" ++ toString s.nextConnTd)
  closeCallback := [s.nextConnTd]
  userRefs := 0

/-- What `newConnection` does, whichever loop it picks. -/
theorem newConnection_cases {s t : TcpServer} {sockfd : Nat} {names : SockNames}
    (h : s.newConnection sockfd names = .ok t) :
    s.nextConnTd < INT_MAX ∧ ∃ conns next e, e = s.accepted sockfd ∧
      conns = Function.update s.conns e.name (some s.nextConnTd) ∧
      (e.loop = 0 ∧ (s.created conns next e).runConn 0 s.nextConnTd .connectEstablished
          (.accepted 0) none = .ok t ∨
        e.loop ≠ 0 ∧ t = (s.created conns next e).append (some 0) e.loop
          (.conn s.nextConnTd .connectEstablished)) := by
  simp only [newConnection] at h
  split at h
  · cases h
  rename_i bound
  split at h
  · cases h
  obtain ⟨ioLoop, next, hnext⟩ := getNextLoop_cases s
  have loop : s.getNextLoop.1 = ioLoop := by rw [hnext]
  rw [hnext] at h
  refine ⟨by omega, _, next, _, rfl, rfl, ?_⟩
  simp only [accepted, loop]
  split at h
  · rename_i base
    exact Or.inl ⟨base, h⟩
  · rename_i base
    cases h
    exact Or.inr ⟨base, rfl⟩

/-- A new connection starts its life, on loop 0 with its first functor already run, and
no other connection is touched. -/
theorem newConnection_life {s t : TcpServer} (located : Located s) {sockfd : Nat}
    {names : SockNames} (h : s.newConnection sockfd names = .ok t) :
    ∃ m e', Touches m t s.nextConnTd (s.accepted sockfd) e' ∧
      (∀ d, d ≠ s.nextConnTd → m.served d = s.served d ∧ ∀ x, m.life d x = s.life d x) ∧
      (t.life s.nextConnTd e' = Life.start sockfd s.writeCompleteCallback ∨
        Life.step 0 e'.loop (Life.start sockfd s.writeCompleteCallback)
          (.functor (.accepted 0) none) = .ok (t.life s.nextConnTd e')) := by
  obtain ⟨_, conns, next, e, rfl, _, h⟩ := newConnection_cases h
  have none := located.fresh s.nextConnTd (Nat.le_refl _)
  have made := created_located located conns next (s.accepted sockfd)
  have others := created_others s conns next (s.accepted sockfd)
  have self : (s.created conns next (s.accepted sockfd)).served s.nextConnTd =
      some (s.accepted sockfd) := served_put_self ..
  have view : (s.created conns next (s.accepted sockfd)).life s.nextConnTd
      (s.accepted sockfd) = ⟨(s.accepted sockfd).track, [], 0, false⟩ :=
    life_unborn located none _
  rcases h with ⟨base, h⟩ | ⟨_, rfl⟩
  · obtain ⟨e', touches, hact⟩ := runConn_life made self h
    refine ⟨_, e', touches, others, Or.inr ?_⟩
    rw [view, base] at hact
    rw [touches.same.loop, base]
    exact hact
  · refine ⟨_, _, touches_append_conn made self (some 0) .connectEstablished, others,
      Or.inl ?_⟩
    rw [life_append_conn, view]
    rfl

theorem newConnection_follows {s t : TcpServer} (located : Located s) {sockfd : Nat}
    {names : SockNames} (h : s.newConnection sockfd names = .ok t) : Follows s t := by
  have none := located.fresh s.nextConnTd (Nat.le_refl _)
  obtain ⟨m, e', touches, others, started⟩ := newConnection_life located h
  refine follows_of_created none others touches rfl ⟨sockfd, s.writeCompleteCallback, ?_⟩
  rcases started with same | first
  · rw [same]
    exact .refl _
  · exact .one _ first

/-- The acceptor's event leaves the loops in order and makes a connection. -/
theorem accept_cases {s t : TcpServer} (located : Located s) {sockfd : Option Nat}
    {names : SockNames} (h : s.step (.accept sockfd names) = .ok t) :
    ∃ fd loop, sockfd = some fd ∧ Located (s.onLoop 0 loop) ∧
      (∀ c e, (s.onLoop 0 loop).life c e = s.life c e) ∧
      (s.onLoop 0 loop).newConnection fd names = .ok t := by
  simp only [step] at h
  split at h
  · rename_i loop hnext
    obtain ⟨queued, active⟩ := EventLoop.nextChannel_cases hnext
    split at h
    · cases h
    rename_i fd
    have nodup := located.nodup 0
    rw [active, List.nodup_cons] at nodup
    refine ⟨fd, loop, rfl, ?_, ?_, h⟩
    · refine located_onLoop located (by rw [queued]; exact fun _ => id) ?_ nodup.2
      intro c mem
      exact located.active 0 c (by rw [active]; exact List.mem_cons_of_mem _ mem)
    · intro c e
      exact life_onLoop_same (by rw [queued]) (by rw [queued]) (by simp [active])
  · cases h

theorem accept_follows {s t : TcpServer} (located : Located s) {sockfd : Option Nat}
    {names : SockNames} (h : s.step (.accept sockfd names) = .ok t) : Follows s t := by
  obtain ⟨fd, loop, _, taken, view, h⟩ := accept_cases located h
  obtain ⟨located', old, new⟩ := newConnection_follows taken h
  refine ⟨located', ?_, new⟩
  intro c e he
  obtain ⟨e', he', same, reaches⟩ := old c e he
  rw [view] at reaches
  exact ⟨e', he', same, reaches⟩

/-- A step of the server takes each connection it has through steps of its life. -/
theorem step_follows {s t : TcpServer} (located : Located s) {op : Op}
    (h : s.step op = .ok t) : Follows s t := by
  cases op with
  | move l v => exact move_follows located h
  | accept sockfd names => exact accept_follows located h
  | event l revents input => exact event_follows located h
  | functor l w shutdown => exact functor_follows located h
  | user thread c u => exact user_follows located h
  | hold c => exact hold_follows located h
  | release c => exact release_follows located h

/-! ## Runs of the server -/

/-- The connections of a server and the lives they lead. -/
structure Alive (s : TcpServer) : Prop where
  located : Located s
  bound : ∀ c e, s.served c = some e → e.closeCallback = [c]
  lives : ∀ c e, s.served c = some e → ∃ sockfd wc,
    Reaches (Life.step 0 e.loop) (Life.start sockfd wc) (s.life c e)

theorem new_alive (name : String) (numThreads : Nat) (wc : Bool) :
    Alive (new name numThreads wc) := by
  refine ⟨⟨fun _ _ => rfl, ?_, ?_, ?_, fun _ => List.nodup_nil⟩, ?_, ?_⟩
  · exact fun l c f mem => absurd mem (List.not_mem_nil)
  · exact fun l c mem => absurd mem (List.not_mem_nil)
  · exact fun l c mem => absurd mem (List.not_mem_nil)
  · exact fun c e he => absurd he nofun
  · exact fun c e he => absurd he nofun

theorem Alive.step {s t : TcpServer} (alive : Alive s) {op : Op} (h : s.step op = .ok t) :
    Alive t := by
  obtain ⟨located, old, new⟩ := step_follows alive.located h
  have either : ∀ c e', t.served c = some e' → e'.closeCallback = [c] ∧ ∃ sockfd wc,
      Reaches (Life.step 0 e'.loop) (Life.start sockfd wc) (t.life c e') := by
    intro c e' he'
    cases hs : s.served c with
    | none => exact new c e' hs he'
    | some e =>
      obtain ⟨x, hx, same, reaches⟩ := old c e hs
      rw [he'] at hx
      cases hx
      obtain ⟨sockfd, wc, lived⟩ := alive.lives c e hs
      refine ⟨same.closeCallback.trans (alive.bound c e hs), sockfd, wc, ?_⟩
      rw [same.loop]
      exact lived.trans reaches
  exact ⟨located, fun c e' he' => (either c e' he').1, fun c e' he' => (either c e' he').2⟩

theorem reached_alive {name : String} {numThreads : Nat} {wc : Bool} {s : TcpServer}
    (reached : Reaches step (new name numThreads wc) s) : Alive s :=
  Reaches.keeps (fun _ _ _ alive h => alive.step h) reached (new_alive name numThreads wc)

theorem Alive.inv {s : TcpServer} (alive : Alive s) {c : Nat} {e : Served}
    (he : s.served c = some e) : Life.Inv 0 e.loop (s.life c e) := by
  obtain ⟨sockfd, wc, lived⟩ := alive.lives c e he
  exact Life.reached_inv lived

/-- In every run, what happened to a connection so far is the beginning of: set up
once in kConnecting, events and messages, one close, the removal on loop 0 and the
destruction on its own loop; and `state_` never moves back. -/
theorem connections_in_order {name : String} {numThreads : Nat} {wc : Bool} {s : TcpServer}
    (reached : Reaches step (new name numThreads wc) s) {c : Nat} {e : Served}
    (he : s.served c = some e) :
    (∃ traffic, Life.Traffic traffic ∧ e.track.history <+:
      [.connectEstablished .kConnecting, .connCallback true] ++ traffic ++
        [.closeCallback, .removed 0, .connectDestroyed e.loop]) ∧
    ∀ op t, s.step op = .ok t → ∃ e', t.served c = some e' ∧
      Life.rank e.track.conn.state ≤ Life.rank e'.track.conn.state := by
  have alive := reached_alive reached
  have inv := alive.inv he
  refine ⟨inv.stage.history, ?_⟩
  intro op t h
  obtain ⟨e', he', _, reaches⟩ := (step_follows alive.located h).old c e he
  exact ⟨e', he', inv.forward reaches⟩

section Schedules

def names : SockNames := ⟨.ok ⟨1, 80⟩, .ok ⟨2, 4000⟩⟩

/-- Loop 0 accepts a connection on descriptor 7 for loop 1, which sets it up, polls
and reads the end of the peer's input. -/
def peerCloses : List Op :=
  [.move 0 .loop, .move 0 .test, .move 0 (.polled [.acceptor]), .accept (some 7) names,
    .move 1 .loop, .move 1 .test, .move 1 (.polled []), .move 1 .doAppendFunctors,
    .functor 1 (.accepted 0) none, .move 1 .functorsDone, .move 1 .test,
    .move 1 (.polled [.conn 1]), .event 1 POLLIN ⟨.read [], [], .accepted 0, none⟩]

/-- Then loop 0 removes the connection and loop 1 destroys it. -/
def tornDown : List Op :=
  peerCloses ++ [.move 0 .doAppendFunctors, .functor 0 (.accepted 0) none,
    .move 1 .doAppendFunctors, .functor 1 (.accepted 0) none]

set_option maxRecDepth 20000 in
theorem connections_in_order_tornDown :
    ∃ s e, run step (new "echo" 1 false) tornDown = .ok s ∧ s.served 1 = some e ∧
      e.track.history = [.connectEstablished .kConnecting, .connCallback true, .event,
        .closeCallback, .removed 0, .connectDestroyed 1] ∧
      (∃ traffic, Life.Traffic traffic ∧ e.track.history <+:
        [.connectEstablished .kConnecting, .connCallback true] ++ traffic ++
          [.closeCallback, .removed 0, .connectDestroyed 1]) ∧
      ∀ op t, s.step op = .ok t → ∃ e', t.served 1 = some e' ∧
        Life.rank e.track.conn.state ≤ Life.rank e'.track.conn.state := by
  obtain ⟨s, e, hrun, he, own, trace⟩ : ∃ s e,
      run step (new "echo" 1 false) tornDown = .ok s ∧ s.served 1 = some e ∧ e.loop = 1 ∧
      e.track.history = [.connectEstablished .kConnecting, .connCallback true, .event,
        .closeCallback, .removed 0, .connectDestroyed 1] := ⟨_, _, rfl, rfl, rfl, rfl⟩
  have ordered := connections_in_order ⟨tornDown, hrun⟩ he
  rw [own] at ordered
  exact ⟨s, e, hrun, he, trace, ordered⟩

end Schedules

end TcpServer

end ZDQ
