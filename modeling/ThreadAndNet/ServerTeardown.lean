import ThreadAndNet.ServerRegistry

/-!
# A closed connection is torn down

The close hands a removal to loop 0, and the removal hands `connectDestroyed` to the loop
of the connection. Both wait in a queue that only their loop takes from, and in front, so
that each loop need only get through what it had queued.
-/

namespace ZDQ

open Machine

namespace Life

variable {base own : Nat} {v : Life}

/-- Neither the close nor the removal is among what comes before them. -/
theorem Traffic.early {traffic : List Happening} (ht : Traffic traffic) {x : Happening}
    (mem : x ∈ opening ++ traffic) : x ≠ .closeCallback ∧ ∀ l, x ≠ .removed l := by
  rcases List.mem_append.mp mem with first | later
  · constructor
    · rintro rfl
      simp [opening] at first
    · rintro l rfl
      simp [opening] at first
  · rcases ht x later with rfl | rfl
    · exact ⟨by simp, by simp⟩
    · exact ⟨by simp, by simp⟩

/-- A connection that is closed but not removed waits for its removal. -/
theorem Stage.closing (stage : Stage base own v) (closed : .closeCallback ∈ v.track.history)
    (left : .removed base ∉ v.track.history) : v.removals = 1 := by
  cases stage with
  | accepted _ _ _ _ _ trace =>
    rw [trace] at closed
    cases closed
  | up traffic ht _ _ _ _ trace =>
    rw [trace] at closed
    exact absurd rfl (ht.early closed).1
  | closed _ _ _ _ one => exact one
  | removed _ _ _ _ _ _ _ _ _ trace => exact absurd (by simp [trace]) left
  | destroyed _ _ _ _ _ trace => exact absurd (by simp [trace]) left

/-- A connection that is removed but not destroyed waits for `connectDestroyed`. -/
theorem Stage.removing (stage : Stage base own v) (removed : .removed base ∈ v.track.history)
    (left : .connectDestroyed own ∉ v.track.history) : .connectDestroyed ∈ v.queue := by
  cases stage with
  | accepted _ _ _ _ _ trace =>
    rw [trace] at removed
    cases removed
  | up traffic ht _ _ _ _ trace =>
    rw [trace] at removed
    exact absurd rfl ((ht.early removed).2 base)
  | closed traffic ht _ _ _ trace =>
    rw [trace] at removed
    rcases List.mem_append.mp removed with before | last
    · exact absurd rfl ((ht.early before).2 base)
    · simp at last
  | removed _ _ _ _ _ queue => simp [queue]
  | destroyed _ _ _ _ _ trace => exact absurd (by simp [trace]) left

/-- The removal is noted when it is made. -/
theorem step_remove {w : Life} (h : step base own v .remove = .ok w) :
    .removed base ∈ w.track.history := by
  simp only [step] at h
  split at h
  · cases h
  · cases h
    exact List.mem_append_right _ (List.mem_singleton_self _)

/-- So is `connectDestroyed`. -/
theorem step_connectDestroyed {w : Life} {r : WriteResult} {shutdown : Status}
    (front : v.queue.head? = some .connectDestroyed)
    (h : step base own v (.functor r shutdown) = .ok w) :
    .connectDestroyed own ∈ w.track.history := by
  simp only [step] at h
  split at h
  · cases h
  · rename_i f rest queue
    rw [queue, List.head?_cons] at front
    cases front
    split at h
    · cases h
    · refine (act_history h).subset ?_
      exact List.mem_append_right _ (List.mem_singleton_self _)

end Life

theorem ServerFunctor.mem_ofConn {c : Nat} {f : ConnFunctor} {q : List ServerFunctor} :
    f ∈ ofConn c q ↔ .conn c f ∈ q := by
  rw [ofConn, List.mem_filterMap]
  constructor
  · rintro ⟨cb, mem, own⟩
    cases cb with
    | conn d g =>
      by_cases same : d = c
      · simp only [same, if_true, Option.some.injEq] at own
        exact own ▸ same ▸ mem
      · simp [same] at own
    | removeConnectionInLoop d => cases own
  · exact fun mem => ⟨.conn c f, mem, if_pos rfl⟩

namespace TcpServer

variable {s t u : TcpServer}

/-! ## The queues of the loops -/

/-- The thread of loop `l` runs a functor. -/
def Op.runs (l : Nat) : Op → Bool
  | .functor k _ _ => k == l
  | _ => false

/-- Every loop has what it had queued, with what was appended behind. -/
structure Extends (s t : TcpServer) : Prop where
  queued : ∀ l, (s.loops l).queued <+: (t.loops l).queued

theorem Extends.refl (s : TcpServer) : Extends s s := ⟨fun _ => List.prefix_rfl⟩

theorem Extends.trans (h : Extends s t) (h' : Extends t u) : Extends s u :=
  ⟨fun l => (h.queued l).trans (h'.queued l)⟩

theorem extends_put (s : TcpServer) (c : Nat) (e : Served) : Extends s (s.put c e) :=
  ⟨fun _ => List.prefix_rfl⟩

theorem extends_append (s : TcpServer) (thread : Option Nat) (l : Nat) (cb : ServerFunctor) :
    Extends s (s.append thread l cb) := by
  constructor
  intro k
  rw [queued_append]
  exact List.prefix_append _ _

/-- Loop `l` was replaced by one with the same queue. -/
theorem extends_onLoop {l : Nat} {loop : EventLoop ServerChannel ServerFunctor}
    (queued : loop.queued = (s.loops l).queued) : Extends s (s.onLoop l loop) := by
  constructor
  intro k
  rw [loops_onLoop]
  split
  · rename_i here
    have same : loop.queued = (s.loops k).queued := by rw [queued, here]
    exact ⟨[], by rw [List.append_nil, same]⟩
  · exact List.prefix_rfl

theorem extends_removeConnectionInLoop {thread : Option Nat} {c : Nat}
    (h : s.removeConnectionInLoop thread c = .ok t) : Extends s t := by
  obtain ⟨e, _, rfl⟩ := removeConnectionInLoop_cases h
  have erased : Extends s
      ({ s with conns := Function.update s.conns e.name none }.put c
        { e with track := e.track.see (.removed 0) }) := ⟨fun _ => List.prefix_rfl⟩
  exact erased.trans (extends_append ..)

theorem extends_removeConnection {thread : Option Nat} {c : Nat}
    (h : s.removeConnection thread c = .ok t) : Extends s t := by
  rw [removeConnection] at h
  split at h
  · exact extends_removeConnectionInLoop h
  · cases h
    exact extends_append ..

theorem extends_perform {thread : Option Nat} {c : Nat} {call : Call}
    (h : s.perform thread c call = .ok t) : Extends s t := by
  rw [perform] at h
  split at h
  · cases h
  rename_i e _
  split at h
  · cases h
  rename_i track _
  have noted := extends_put s c { e with track := track }
  cases call with
  | append f =>
    cases h
    exact noted.trans (extends_append ..)
  | closeCallback => exact noted.trans (extends_removeConnection h)
  | _ =>
    cases h
    exact noted

theorem extends_act {thread : Option Nat} {c : Nat} {o : TcpConnection.Outcome}
    (h : s.act thread c o = .ok t) : Extends s t := by
  rw [act] at h
  split at h
  · cases h
  split at h
  · cases h
  exact (extends_put s c _).trans (run_relates (R := Extends) Extends.refl Extends.trans
    (fun _ _ _ _ made => extends_perform made) h)

theorem extends_runConn {l c : Nat} {f : ConnFunctor} {w : WriteResult} {shutdown : Status}
    (h : s.runConn l c f w shutdown = .ok t) : Extends s t := by
  rw [runConn] at h
  split at h
  · cases h
  · exact (extends_put s c _).trans (extends_act h)

theorem extends_newConnection {sockfd : Nat} {names : SockNames}
    (h : s.newConnection sockfd names = .ok t) : Extends s t := by
  obtain ⟨_, conns, next, e, _, _, h⟩ := newConnection_cases h
  have made : Extends s (s.created conns next e) := ⟨fun _ => List.prefix_rfl⟩
  rcases h with ⟨_, h⟩ | ⟨_, rfl⟩
  · exact made.trans (extends_runConn h)
  · exact made.trans (extends_append ..)

/-- Only running a functor takes anything from a queue. -/
theorem step_extends {op : Op} (other : ∀ l, op.runs l = false) (h : s.step op = .ok t) :
    Extends s t := by
  cases op with
  | functor l w shutdown =>
    have here : (l == l) = false := other l
    rw [beq_self_eq_true] at here
    cases here
  | move l v =>
    simp only [step] at h
    split at h
    · cases h
    rename_i loop moved
    split at h
    · cases h
      exact extends_onLoop (EventLoop.move_cases moved).1
    · cases h
  | accept sockfd names =>
    simp only [step] at h
    split at h
    · rename_i loop next
      split at h
      · cases h
      · exact (extends_onLoop (EventLoop.nextChannel_cases next).1).trans
          (extends_newConnection h)
    · cases h
  | event l revents input =>
    simp only [step] at h
    split at h
    · rename_i c loop next
      split at h
      · cases h
      · exact ((extends_onLoop (EventLoop.nextChannel_cases next).1).trans
          (extends_put _ c _)).trans (extends_act h)
    · cases h
  | user thread c u =>
    simp only [step] at h
    split at h
    · cases h
    · exact extends_act h
  | hold c =>
    simp only [step] at h
    split at h
    · cases h
    · cases h
      exact extends_put s c _
  | release c =>
    simp only [step] at h
    split at h
    · cases h
    split at h
    · cases h
    · cases h
      exact extends_put s c _

/-- A functor is taken from the front of its own queue. -/
theorem functor_extends {l : Nat} {w : WriteResult} {shutdown : Status}
    (h : s.step (.functor l w shutdown) = .ok t) : ∃ cb loop,
      (s.loops l).nextFunctor = .ok (cb, loop) ∧ Extends (s.onLoop l loop) t := by
  simp only [step] at h
  split at h
  · cases h
  · rename_i next
    exact ⟨_, _, next, extends_runConn h⟩
  · rename_i next
    exact ⟨_, _, next, extends_removeConnectionInLoop h⟩

theorem step_queue {op : Op} (l : Nat) (h : s.step op = .ok t) :
    (if op.runs l then (s.loops l).queued.tail else (s.loops l).queued) <+:
      (t.loops l).queued := by
  cases op with
  | functor k w shutdown =>
    obtain ⟨cb, loop, next, kept⟩ := functor_extends h
    have rest := kept.queued l
    rw [loops_onLoop] at rest
    obtain ⟨queued, _, _⟩ := EventLoop.nextFunctor_cases next
    by_cases here : l = k
    · subst here
      rw [if_pos rfl] at rest
      rw [Op.runs, beq_self_eq_true, if_pos rfl, queued]
      exact rest
    · rw [if_neg here] at rest
      rw [Op.runs, beq_false_of_ne (Ne.symm here), if_neg Bool.false_ne_true]
      exact rest
  | _ => exact (step_extends (fun _ => rfl) h).queued l

/-- What loop `l` has queued it runs, once it has run so many functors. -/
theorem functor_runs {labels : List Op} {l : Nat} {cb : ServerFunctor}
    (queued : cb ∈ (s.loops l).queued)
    (enough : (s.loops l).queued.length ≤ labels.countP (Op.runs l))
    (h : run step s labels = .ok t) : ∃ m w shutdown n loop, Reaches step s m ∧
      (m.loops l).nextFunctor = .ok (cb, loop) ∧
      m.step (.functor l w shutdown) = .ok n ∧ Reaches step n t := by
  obtain ⟨ahead, behind, whole⟩ := List.append_of_mem queued
  have waits : ahead ++ [cb] <+: (s.loops l).queued := by
    rw [whole]
    exact ⟨behind, by rw [List.append_assoc]; rfl⟩
  have room : ahead.length < labels.countP (Op.runs l) := by
    rw [whole, List.length_append, List.length_cons] at enough
    omega
  obtain ⟨m, op, n, before, takes, front, made, after⟩ :=
    run_serves (fun u : TcpServer => (u.loops l).queued) (Op.runs l)
      (fun _ _ _ made => step_queue l made) waits room h
  cases op with
  | functor k w shutdown =>
    cases eq_of_beq takes
    obtain ⟨x, loop, next, _⟩ := functor_extends made
    rw [(EventLoop.nextFunctor_cases next).1, List.head?_cons] at front
    cases front
    exact ⟨m, w, shutdown, n, loop, before, next, made, after⟩
  | _ => cases takes

/-! ## The way down -/

/-- A run takes a connection through its life. -/
theorem reaches_life (alive : Alive s) (h : Reaches step s t) {c : Nat} {e : Served}
    (he : s.served c = some e) : ∃ x, t.served c = some x ∧ x.loop = e.loop ∧
      Reaches (Life.step 0 e.loop) (s.life c e) (t.life c x) := by
  have keep : ∀ (m : TcpServer) (op : Op) (n : TcpServer),
      (Alive m ∧ ∃ x, m.served c = some x ∧ x.loop = e.loop ∧
        Reaches (Life.step 0 e.loop) (s.life c e) (m.life c x)) → m.step op = .ok n →
      Alive n ∧ ∃ x, n.served c = some x ∧ x.loop = e.loop ∧
        Reaches (Life.step 0 e.loop) (s.life c e) (n.life c x) := by
    rintro m op n ⟨alive, x, hx, loop, lived⟩ made
    obtain ⟨y, hy, same, later⟩ := (step_follows alive.located made).old c x hx
    rw [loop] at later
    exact ⟨alive.step made, y, hy, same.loop.trans loop, lived.trans later⟩
  exact (h.keeps keep ⟨alive, e, he, rfl, .refl _⟩).2

/-- What has happened to a connection has happened to it after every run. -/
theorem reaches_happened (alive : Alive s) (h : Reaches step s t) {c : Nat} {e : Served}
    (he : s.served c = some e) {x : Happening} (happened : x ∈ e.track.history) :
    ∃ e', t.served c = some e' ∧ e'.loop = e.loop ∧ x ∈ e'.track.history := by
  obtain ⟨e', he', loop, lived⟩ := reaches_life alive h he
  exact ⟨e', he', loop, (Life.reaches_history lived).subset happened⟩

theorem reaches_alive (alive : Alive s) (h : Reaches step s t) : Alive t :=
  h.keeps (fun _ _ _ alive made => alive.step made) alive

/-- Loop 0 gets through its queue, and with it through the removal of `c`. -/
theorem closed_removed (alive : Alive s) {c : Nat} {e : Served} (he : s.served c = some e)
    (closed : .closeCallback ∈ e.track.history) {labels : List Op}
    (enough : (s.loops 0).queued.length ≤ labels.countP (Op.runs 0))
    (h : run step s labels = .ok t) :
    ∃ x, t.served c = some x ∧ x.loop = e.loop ∧ .removed 0 ∈ x.track.history := by
  by_cases done : .removed 0 ∈ e.track.history
  · exact reaches_happened alive ⟨labels, h⟩ he done
  have waits : .removeConnectionInLoop c ∈ (s.loops 0).queued := by
    have one : ServerFunctor.removals c (s.loops 0).queued = 1 :=
      (alive.inv he).stage.closing closed done
    exact List.count_pos_iff.mp (Nat.lt_of_lt_of_eq Nat.one_pos one.symm)
  obtain ⟨m, w, shutdown, n, loop, before, next, made, after⟩ := functor_runs waits enough h
  have alive_m := reaches_alive alive before
  obtain ⟨x, hx, loop, _⟩ := reaches_life alive before he
  obtain ⟨d, cb, _, x', y, op, next', which, touches, lived⟩ := functor_life alive_m.located made
  cases next.symm.trans next'
  rcases which with ⟨f, other, _⟩ | ⟨same, rfl⟩
  · cases other
  cases same
  cases hx.symm.trans touches.before
  obtain ⟨z, hz, loop', happened⟩ := reaches_happened (alive_m.step made) after touches.after
    (Life.step_remove lived)
  exact ⟨z, hz, (loop'.trans touches.same.loop).trans loop, happened⟩

/-- The loop of `c` gets through its queue, and with it through `connectDestroyed`. -/
theorem removed_destroyed (alive : Alive s) {c : Nat} {e : Served} (he : s.served c = some e)
    (removed : .removed 0 ∈ e.track.history) {labels : List Op}
    (enough : (s.loops e.loop).queued.length ≤ labels.countP (Op.runs e.loop))
    (h : run step s labels = .ok t) :
    ∃ x, t.served c = some x ∧ x.loop = e.loop ∧
      .connectDestroyed e.loop ∈ x.track.history := by
  by_cases done : .connectDestroyed e.loop ∈ e.track.history
  · exact reaches_happened alive ⟨labels, h⟩ he done
  have waits : .conn c .connectDestroyed ∈ (s.loops e.loop).queued := by
    have mem : .connectDestroyed ∈ (s.life c e).queue :=
      (alive.inv he).stage.removing removed done
    exact ServerFunctor.mem_ofConn.mp mem
  obtain ⟨m, w, shutdown, n, loop, before, next, made, after⟩ := functor_runs waits enough h
  have alive_m := reaches_alive alive before
  obtain ⟨x, hx, loop, _⟩ := reaches_life alive before he
  obtain ⟨d, cb, _, x', y, op, next', which, touches, lived⟩ := functor_life alive_m.located made
  cases next.symm.trans next'
  rcases which with ⟨f, same, _, front, rfl⟩ | ⟨other, _⟩
  · cases same
    cases hx.symm.trans touches.before
    have happened := Life.step_connectDestroyed front lived
    rw [loop] at happened
    obtain ⟨z, hz, loop', happened⟩ :=
      reaches_happened (alive_m.step made) after touches.after happened
    exact ⟨z, hz, (loop'.trans touches.same.loop).trans loop, happened⟩
  · cases other

/-- A connection that is closed stays neither in `conns_` nor in the poller: once loop 0 has
got through what it had queued at the close, and then the connection's own loop through what
that one had, both have let it go. -/
theorem closed_torn_down {name : String} {numThreads : Nat} {wc : Bool}
    (reached : Reaches step (new name numThreads wc) s) {c : Nat} {e : Served}
    (he : s.served c = some e) (closed : .closeCallback ∈ e.track.history)
    {first second : List Op} (ran : run step s first = .ok t)
    (enough : (s.loops 0).queued.length ≤ first.countP (Op.runs 0))
    (ran' : run step t second = .ok u)
    (enough' : (t.loops e.loop).queued.length ≤ second.countP (Op.runs e.loop)) :
    (∀ entry, u.conns entry ≠ some c) ∧ ∃ x, u.served c = some x ∧ x.loop = e.loop ∧
      .connectDestroyed e.loop ∈ x.track.history ∧ x.track.registration.slot = none := by
  have alive := reached_alive reached
  obtain ⟨y, hy, loop, removed⟩ := closed_removed alive he closed enough ran
  have alive_t := reaches_alive alive ⟨first, ran⟩
  rw [← loop] at enough'
  obtain ⟨x, hx, loop', destroyed⟩ := removed_destroyed alive_t hy removed enough' ran'
  have alive_u := reaches_alive alive_t ⟨second, ran'⟩
  obtain ⟨sockfd, wc', lived⟩ := alive_u.lives c x hx
  have own := destroyed
  rw [← loop'] at own
  have gone := Life.reached_finished lived own
  rw [loop] at loop' destroyed
  refine ⟨fun entry holds => ?_, x, hx, loop', destroyed, gone.slot⟩
  have whole := reached.trans (Reaches.trans ⟨first, ran⟩ ⟨second, ran'⟩)
  obtain ⟨z, hz, _, left⟩ := ((reached_registry whole).exact entry c).mp holds
  cases hx.symm.trans hz
  obtain ⟨w, hw, _, let_go⟩ := reaches_happened alive_t ⟨second, ran'⟩ hy removed
  cases hx.symm.trans hw
  exact left let_go

/-- What loop 0 has to get through, and then loop 1. -/
def removal : List Op := [.move 0 .doAppendFunctors, .functor 0 (.accepted 0) none]

def destruction : List Op := [.move 1 .doAppendFunctors, .functor 1 (.accepted 0) none]

set_option maxRecDepth 20000 in
theorem closed_torn_down_peerCloses : ∃ s t u,
    run step (new "echo" 1 false) peerCloses = .ok s ∧ run step s removal = .ok t ∧
      run step t destruction = .ok u ∧ (∀ entry, u.conns entry ≠ some 1) ∧
      ∃ x, u.served 1 = some x ∧ x.loop = 1 ∧ .connectDestroyed 1 ∈ x.track.history ∧
        x.track.registration.slot = none := by
  obtain ⟨s, e, t, u, ran, he, own, closed, enough, ran', enough', ran''⟩ : ∃ s e t u,
      run step (new "echo" 1 false) peerCloses = .ok s ∧ s.served 1 = some e ∧ e.loop = 1 ∧
        .closeCallback ∈ e.track.history ∧ (s.loops 0).queued.length ≤ 1 ∧
        run step s removal = .ok t ∧ (t.loops e.loop).queued.length ≤ 1 ∧
        run step t destruction = .ok u :=
    ⟨_, _, _, _, rfl, rfl, rfl, by decide, by decide, rfl, by decide, rfl⟩
  have down := closed_torn_down ⟨peerCloses, ran⟩ he closed ran' enough ran''
    (by rw [own] at enough' ⊢; exact enough')
  rw [own] at down
  exact ⟨s, t, u, ran, ran', ran'', down⟩

end TcpServer

end ZDQ
