import ThreadAndNet.LoopHandshake
import ThreadAndNet.ServerLoad

/-!
# A pool of threads with a loop each

`start` makes one thread after the other and waits for the loop of each; `getNextLoop` hands the
loops out in turn. Loop 0 is the base loop.
-/

namespace ZDQ

open Machine

structure EventLoopThreadPool where
  started_ : Bool
  numThreads_ : ℤ
  next_ : Nat
  threads_ : List LoopThread
  loops_ : List (Option Nat)
  phase : StartPhase
  /-- `start` was given a callback -/
  cb : Bool
  /-- the loops that the callback was called with -/
  inits : List (Option Nat)
  /-- what `getNextLoop` has returned -/
  given : List (Option Nat)

namespace EventLoopThreadPool

/-- After `setThreadNum`. -/
def new (numThreads : ℤ) : EventLoopThreadPool :=
  ⟨false, numThreads, 0, [], [], .outside, false, [], []⟩

/-- The `i` of the `for`; each round pushes one loop. -/
def i (s : EventLoopThreadPool) : Nat := s.loops_.length

def onThread (s : EventLoopThreadPool) (i : Nat) (f : LoopThread → Except Failure LoopThread)
    (phase : StartPhase) : Except Failure EventLoopThreadPool :=
  match s.threads_[i]? with
  | none => .error .disabled
  | some t => (f t).map fun t => { s with threads_ := s.threads_.set i t, phase := phase }

/-- A line of `startLoop` for the last thread. -/
def startLoop (s : EventLoopThreadPool) (before : StartPhase)
    (f : LoopThread → Except Failure LoopThread) (after : StartPhase) :
    Except Failure EventLoopThreadPool :=
  if s.phase = before then s.onThread s.i f after else .error .disabled

def getNextLoop (s : EventLoopThreadPool) : Except Failure EventLoopThreadPool :=
  if s.loops_ = [] then .ok { s with given := s.given ++ [some 0] }
  else
    match s.loops_[s.next_]? with
    | none => .error .undefined
    | some loop =>
      .ok { s with
        next_ := if s.loops_.length ≤ s.next_ + 1 then 0 else s.next_ + 1
        given := s.given ++ [loop] }

inductive Op where
  | start (isInLoopThread cb : Bool)
  /-- a round of the `for` begins, with the answer of `pthread_create` -/
  | startLoop (created : Option Nat)
  | lock
  | test
  | wait
  /-- a spurious wake-up of the base loop's thread -/
  | rouse
  | resume
  | unlock
  /-- the address is read and pushed -/
  | push
  | startReturn
  /-- thread `i` goes on in `creadLoop` -/
  | cread (i : Nat) (chosen : Option Party)
  | getNextLoop (isInLoopThread : Bool)

def step (s : EventLoopThreadPool) : Op → Except Failure EventLoopThreadPool
  | .start isInLoopThread cb =>
    if isInLoopThread && s.phase ≠ .outside then .error .disabled
    else if s.started_ || !isInLoopThread then .error .assertion
    else .ok { s with started_ := true, phase := .next, cb := cb }
  | .startLoop created =>
    if s.phase = .next ∧ (s.i : ℤ) < s.numThreads_ then
      (LoopThread.new.start created).map fun t =>
        { s with threads_ := s.threads_ ++ [t], phase := .entering }
    else .error .disabled
  | .lock => s.startLoop .entering (fun t => t.locking (t.lock.lock .owner)) .testing
  | .test =>
    if s.phase = .testing then
      match s.threads_[s.i]? with
      | none => .error .disabled
      | some t => .ok { s with phase := if t.loop_ = none then .calling else .leaving }
    else .error .disabled
  | .wait => s.startLoop .calling (fun t => t.locking (t.lock.wait .owner ())) .waiting
  | .rouse => s.startLoop .waiting (fun t => t.waking (t.lock.mutex_.wake .owner ())) .waiting
  | .resume => s.startLoop .waiting (fun t => t.waking (t.lock.mutex_.resume .owner ())) .testing
  | .unlock => s.startLoop .leaving (fun t => t.locking (t.lock.unlock .owner)) .returning
  | .push =>
    if s.phase = .returning then
      match s.threads_[s.i]? with
      | none => .error .disabled
      | some t => .ok { s with loops_ := s.loops_ ++ [t.loop_], phase := .next }
    else .error .disabled
  | .startReturn =>
    guarded (s.phase = .next ∧ s.numThreads_ ≤ s.i)
      { s with
        phase := .outside
        inits := if s.numThreads_ = 0 ∧ s.cb then s.inits ++ [some 0] else s.inits }
  | .cread i chosen => s.onThread i (LoopThread.cread i chosen) s.phase
  | .getNextLoop isInLoopThread =>
    if isInLoopThread && s.phase ≠ .outside then .error .disabled
    else if !s.started_ || !isInLoopThread then .error .assertion
    else s.getNextLoop

/-- A line of `startLoop`, with the thread it is about before and after. -/
inductive Line (t : LoopThread) : Op → StartPhase → LoopThread → StartPhase → Prop where
  | lock {u : LoopThread} : t.locking (t.lock.lock .owner) = .ok u →
      Line t .lock .entering u .testing
  | found : t.loop_ ≠ none → Line t .test .testing t .leaving
  | null : t.loop_ = none → Line t .test .testing t .calling
  | wait {u : LoopThread} : t.locking (t.lock.wait .owner ()) = .ok u →
      Line t .wait .calling u .waiting
  | rouse {u : LoopThread} : t.waking (t.lock.mutex_.wake .owner ()) = .ok u →
      Line t .rouse .waiting u .waiting
  | resume {u : LoopThread} : t.waking (t.lock.mutex_.resume .owner ()) = .ok u →
      Line t .resume .waiting u .testing
  | unlock {u : LoopThread} : t.locking (t.lock.unlock .owner) = .ok u →
      Line t .unlock .leaving u .returning

def Op.rouses : Op → Bool
  | .rouse => true
  | _ => false

/-- A line that is not woken in vain is one line less, and a spurious wake-up brings three. -/
theorem Line.handshake {i : Nat} {t u : LoopThread} {op : Op} {before after : StartPhase}
    (line : Line t op before u after) (h : Handshake i before t) :
    Handshake i after u ∧ u.line = t.line ∧
      if op.rouses then u.left after ≤ t.left before + 3
      else u.left after + 1 ≤ t.left before := by
  cases line with
  | lock made =>
    obtain ⟨kept, same⟩ := h.lock made
    refine ⟨kept, same, ?_⟩
    simp only [Op.rouses, LoopThread.left, Bool.false_eq_true, if_false]
    split <;> omega
  | found some =>
    refine ⟨h.found_loop some, rfl, ?_⟩
    simp [Op.rouses, LoopThread.left, some]
  | null none =>
    refine ⟨h.found_null none, rfl, ?_⟩
    simp [Op.rouses, LoopThread.left, none]
  | wait made =>
    obtain ⟨kept, same, woken⟩ := h.wait made
    refine ⟨kept, same, ?_⟩
    simp [Op.rouses, LoopThread.left, woken]
  | rouse made =>
    obtain ⟨kept, same⟩ := h.rouse made
    refine ⟨kept, same, ?_⟩
    simp only [Op.rouses, LoopThread.left, if_true]
    split <;> split <;> omega
  | resume made =>
    obtain ⟨kept, same, woken⟩ := h.resume made
    have loop : u.loop_ = t.loop_ := by rw [kept.loop, h.loop, same]
    refine ⟨kept, same, ?_⟩
    simp only [Op.rouses, LoopThread.left, loop, ne_eq, woken, not_false_eq_true, and_true,
      Bool.false_eq_true, if_false]
    split <;> omega
  | unlock made =>
    obtain ⟨kept, same⟩ := h.unlock made
    exact ⟨kept, same, Nat.le_refl _⟩

/-- What a step does. -/
inductive Steps (s : EventLoopThreadPool) : Op → EventLoopThreadPool → Prop where
  | start (cb : Bool) : s.phase = .outside → s.started_ = false →
      Steps s (.start true cb) { s with started_ := true, phase := .next, cb := cb }
  | startLoop (created : Option Nat) (t : LoopThread) : s.phase = .next →
      (s.i : ℤ) < s.numThreads_ → LoopThread.new.start created = .ok t →
      Steps s (.startLoop created) { s with threads_ := s.threads_ ++ [t], phase := .entering }
  | line {op : Op} (t u : LoopThread) (after : StartPhase) : s.threads_[s.i]? = some t →
      Line t op s.phase u after →
      Steps s op { s with threads_ := s.threads_.set s.i u, phase := after }
  | push (t : LoopThread) : s.phase = .returning → s.threads_[s.i]? = some t →
      Steps s .push { s with loops_ := s.loops_ ++ [t.loop_], phase := .next }
  | startReturn : s.phase = .next → s.numThreads_ ≤ s.i →
      Steps s .startReturn
        { s with
          phase := .outside
          inits := if s.numThreads_ = 0 ∧ s.cb then s.inits ++ [some 0] else s.inits }
  | cread (k : Nat) (chosen : Option Party) (t u : LoopThread) : s.threads_[k]? = some t →
      t.cread k chosen = .ok u →
      Steps s (.cread k chosen) { s with threads_ := s.threads_.set k u }
  | getNextLoop (t : EventLoopThreadPool) : s.phase = .outside → s.started_ = true →
      s.getNextLoop = .ok t → Steps s (.getNextLoop true) t

variable {s t : EventLoopThreadPool}

theorem onThread_cases {k : Nat} {f : LoopThread → Except Failure LoopThread}
    {phase : StartPhase} (h : s.onThread k f phase = .ok t) :
    ∃ u v, s.threads_[k]? = some u ∧ f u = .ok v ∧
      t = { s with threads_ := s.threads_.set k v, phase := phase } := by
  rw [onThread] at h
  split at h
  · cases h
  · rename_i u there
    obtain ⟨v, made, rfl⟩ := map_cases h
    exact ⟨u, v, there, made, rfl⟩

theorem startLoop_cases {before after : StartPhase} {f : LoopThread → Except Failure LoopThread}
    (h : s.startLoop before f after = .ok t) :
    s.phase = before ∧ ∃ u v, s.threads_[s.i]? = some u ∧ f u = .ok v ∧
      t = { s with threads_ := s.threads_.set s.i v, phase := after } := by
  rw [startLoop] at h
  split at h
  · rename_i here
    exact ⟨here, onThread_cases h⟩
  · cases h

theorem step_cases {op : Op} (h : s.step op = .ok t) : Steps s op t := by
  cases op with
  | start isInLoopThread cb =>
    simp only [step] at h
    split at h
    · cases h
    split at h
    · cases h
    · rename_i free new
      cases h
      simp only [Bool.or_eq_true, Bool.not_eq_true', not_or, Bool.not_eq_false,
        Bool.not_eq_true] at new
      obtain ⟨unstarted, rfl⟩ := new
      exact .start cb (by simpa using free) unstarted
  | startLoop created =>
    simp only [step] at h
    split at h
    · rename_i here
      obtain ⟨u, made, rfl⟩ := map_cases h
      exact .startLoop created u here.1 here.2 made
    · cases h
  | lock =>
    obtain ⟨here, u, v, there, made, rfl⟩ := startLoop_cases h
    exact .line u v _ there (here ▸ .lock made)
  | test =>
    simp only [step] at h
    split at h
    · rename_i here
      split at h
      · cases h
      · rename_i u there
        cases h
        have same : s.threads_.set s.i u = s.threads_ := by
          obtain ⟨lt, rfl⟩ := List.getElem?_eq_some_iff.mp there
          exact List.set_getElem_self lt
        split
        · rename_i null
          simpa only [same] using Steps.line u u .calling there (here ▸ .null null)
        · rename_i found
          simpa only [same] using Steps.line u u .leaving there (here ▸ .found found)
    · cases h
  | wait =>
    obtain ⟨here, u, v, there, made, rfl⟩ := startLoop_cases h
    exact .line u v _ there (here ▸ .wait made)
  | rouse =>
    obtain ⟨here, u, v, there, made, rfl⟩ := startLoop_cases h
    exact .line u v _ there (here ▸ .rouse made)
  | resume =>
    obtain ⟨here, u, v, there, made, rfl⟩ := startLoop_cases h
    exact .line u v _ there (here ▸ .resume made)
  | unlock =>
    obtain ⟨here, u, v, there, made, rfl⟩ := startLoop_cases h
    exact .line u v _ there (here ▸ .unlock made)
  | push =>
    simp only [step] at h
    split at h
    · rename_i here
      split at h
      · cases h
      · rename_i u there
        cases h
        exact .push u here there
    · cases h
  | startReturn =>
    obtain ⟨here, rfl⟩ := guarded_ok.mp h
    exact .startReturn here.1 here.2
  | cread k chosen =>
    obtain ⟨u, v, there, made, rfl⟩ := onThread_cases h
    exact .cread k chosen u v there made
  | getNextLoop isInLoopThread =>
    simp only [step] at h
    split at h
    · cases h
    split at h
    · cases h
    · rename_i free started
      simp only [Bool.or_eq_true, Bool.not_eq_true', not_or, Bool.not_eq_false] at started
      obtain ⟨started, rfl⟩ := started
      exact .getNextLoop t (by simpa using free) started h

/-! ## The invariant -/

structure Inv (s : EventLoopThreadPool) : Prop where
  loops : s.loops_ = (List.range s.i).map fun k => some (k + 1)
  size : s.threads_.length = s.i + s.phase.inside.toNat
  past : ∀ k t, k < s.i → s.threads_[k]? = some t → t.line = .looping ∧ t.loop_ = some (k + 1)
  now : ∀ t, s.threads_[s.i]? = some t → Handshake s.i s.phase t
  most : s.i + s.phase.inside.toNat ≤ s.numThreads_.toNat
  fresh : s.started_ = false → s.phase = .outside ∧ s.i = 0
  full : s.started_ = true → s.phase = .outside → s.i = s.numThreads_.toNat
  undealt : s.started_ = false ∨ s.phase ≠ .outside → s.given = [] ∧ s.next_ = 0 ∧ s.inits = []
  turns : s.given = (List.range s.given.length).map fun k => some (turn s.i k)
  nextTurn : s.i ≠ 0 → s.next_ = s.given.length % s.i
  called : s.started_ = true → s.phase = .outside →
    s.inits = if s.numThreads_ = 0 ∧ s.cb then [some 0] else []

theorem new_inv (numThreads : ℤ) : Inv (new numThreads) where
  loops := rfl
  size := rfl
  past _ _ lt := absurd lt (Nat.not_lt_zero _)
  now _ there := by cases there
  most := Nat.zero_le _
  fresh _ := ⟨rfl, rfl⟩
  full started := by cases started
  undealt _ := ⟨rfl, rfl, rfl⟩
  turns := rfl
  nextTurn none := absurd rfl none
  called started := by cases started

theorem Line.inside {op : Op} {t u : LoopThread} {before after : StartPhase}
    (line : Line t op before u after) : before.inside = true ∧ after.inside = true := by
  cases line <;> exact ⟨rfl, rfl⟩

theorem ne_outside {phase : StartPhase} (inside : phase.inside = true) : phase ≠ .outside := by
  rintro rfl
  cases inside

theorem Inv.started (inv : Inv s) (busy : s.phase ≠ .outside) : s.started_ = true := by
  cases was : s.started_ with
  | true => rfl
  | false => exact absurd (inv.fresh was).1 busy

/-- A step of a thread that leaves everything else as it is. -/
theorem Inv.set (inv : Inv s) {k : Nat} {u : LoopThread} {after : StartPhase}
    (before : s.phase.inside = true) (inside : after.inside = true) (here : k = s.i)
    (kept : Handshake s.i after u) :
    Inv { s with threads_ := s.threads_.set k u, phase := after } := by
  subst here
  have busy := ne_outside before
  have same : after.inside.toNat = s.phase.inside.toNat := by rw [before, inside]
  refine
    { loops := inv.loops
      size := ?_
      past := fun k v early there => ?_
      now := fun v there => ?_
      most := ?_
      fresh := fun unstarted => ?_
      full := fun _ out => absurd out (ne_outside inside)
      undealt := fun _ => inv.undealt (.inr busy)
      turns := inv.turns
      nextTurn := inv.nextTurn
      called := fun _ out => absurd out (ne_outside inside) }
  · dsimp only
    rw [List.length_set, same]
    exact inv.size
  · have there : (s.threads_.set s.i u)[k]? = some v := there
    have early : k < s.i := early
    rw [List.getElem?_set_ne (Nat.ne_of_gt early)] at there
    exact inv.past k v early there
  · have there : (s.threads_.set s.i u)[s.i]? = some v := there
    have lt : s.i < s.threads_.length := by rw [inv.size, before]; exact Nat.lt_succ_self _
    rw [List.getElem?_set_self lt] at there
    cases there
    exact kept
  · dsimp only
    rw [same]
    exact inv.most
  · exact absurd (inv.started busy) (by simp [show s.started_ = false from unstarted])

theorem Inv.startLoop (inv : Inv s) {created : Option Nat} {u : LoopThread} (here : s.phase = .next)
    (lt : (s.i : ℤ) < s.numThreads_) (made : LoopThread.new.start created = .ok u) :
    Inv { s with threads_ := s.threads_ ++ [u], phase := .entering } := by
  have busy : s.phase ≠ .outside := by simp [here]
  have size : s.threads_.length = s.i := by rw [inv.size, here]; rfl
  refine
    { loops := inv.loops
      size := ?_
      past := fun k v early there => ?_
      now := fun v there => ?_
      most := ?_
      fresh := fun unstarted => ?_
      full := nofun
      undealt := fun _ => inv.undealt (.inr busy)
      turns := inv.turns
      nextTurn := inv.nextTurn
      called := nofun }
  · rw [List.length_append, size]
    rfl
  · have early : k < s.i := early
    have there : (s.threads_ ++ [u])[k]? = some v := there
    rw [List.getElem?_append_left (by omega)] at there
    exact inv.past k v early there
  · have there : (s.threads_ ++ [u])[s.i]? = some v := there
    rw [← size, List.getElem?_concat_length] at there
    cases there
    exact (Handshake.start made).1
  · show s.i + 1 ≤ s.numThreads_.toNat
    omega
  · exact absurd (inv.started busy) (by simp [show s.started_ = false from unstarted])

/-- The loop that is pushed is that of its own thread, which is in `loop()`. -/
theorem Inv.push (inv : Inv s) {u : LoopThread} (here : s.phase = .returning)
    (there : s.threads_[s.i]? = some u) :
    Inv { s with loops_ := s.loops_ ++ [u.loop_], phase := .next } := by
  have busy : s.phase ≠ .outside := by simp [here]
  have now := inv.now u there
  have looping : u.line = .looping := now.found (.inr here)
  have grown : (s.loops_ ++ [u.loop_]).length = s.i + 1 := by simp [i]
  have size : s.threads_.length = s.i + 1 := by rw [inv.size, here]; rfl
  obtain ⟨none, first, uncalled⟩ := inv.undealt (.inr busy)
  refine
    { loops := ?_
      size := ?_
      past := fun k v early there' => ?_
      now := fun v there' => ?_
      most := ?_
      fresh := fun unstarted => ?_
      full := nofun
      undealt := fun _ => ⟨none, first, uncalled⟩
      turns := ?_
      nextTurn := fun _ => ?_
      called := nofun }
  · show s.loops_ ++ [u.loop_] = (List.range (s.loops_ ++ [u.loop_]).length).map _
    rw [grown, List.range_succ, List.map_append, ← inv.loops, now.loop, looping]
    rfl
  · show s.threads_.length = (s.loops_ ++ [u.loop_]).length
    rw [grown, size]
  · have early : k < (s.loops_ ++ [u.loop_]).length := early
    rw [grown] at early
    rcases Nat.lt_succ_iff_lt_or_eq.mp early with before | rfl
    · exact inv.past k v before there'
    · rw [there] at there'
      cases there'
      exact ⟨looping, by rw [now.loop, looping]; rfl⟩
  · have there' : s.threads_[(s.loops_ ++ [u.loop_]).length]? = some v := there'
    rw [grown, List.getElem?_eq_none (Nat.le_of_eq size)] at there'
    cases there'
  · have most := inv.most
    rw [here] at most
    show (s.loops_ ++ [u.loop_]).length ≤ s.numThreads_.toNat
    rw [grown]
    exact most
  · exact absurd (inv.started busy) (by simp [show s.started_ = false from unstarted])
  · dsimp only
    rw [none]
    rfl
  · dsimp only
    rw [none, first, List.length_nil, Nat.zero_mod]

theorem Inv.startReturn (inv : Inv s) (here : s.phase = .next) (all : s.numThreads_ ≤ s.i) :
    Inv { s with
      phase := .outside
      inits := if s.numThreads_ = 0 ∧ s.cb then s.inits ++ [some 0] else s.inits } := by
  have busy : s.phase ≠ .outside := by simp [here]
  have most : s.i ≤ s.numThreads_.toNat := Nat.le_trans (Nat.le_add_right _ _) inv.most
  have size : s.threads_.length = s.i := by rw [inv.size, here]; rfl
  have started := inv.started busy
  obtain ⟨none, first, uncalled⟩ := inv.undealt (.inr busy)
  refine
    { loops := inv.loops
      size := size
      past := inv.past
      now := fun v there => ?_
      most := most
      fresh := fun unstarted => ?_
      full := fun _ _ => ?_
      undealt := fun unstarted => ?_
      turns := inv.turns
      nextTurn := inv.nextTurn
      called := fun _ _ => ?_ }
  · have there : s.threads_[s.i]? = some v := there
    rw [List.getElem?_eq_none (Nat.le_of_eq size)] at there
    cases there
  · exact absurd started (by simp [show s.started_ = false from unstarted])
  · show s.i = s.numThreads_.toNat
    omega
  · rcases unstarted with unstarted | again
    · exact absurd started (by simp [show s.started_ = false from unstarted])
    · exact absurd rfl again
  · dsimp only
    rw [uncalled]
    rfl

theorem Inv.cread (inv : Inv s) {k : Nat} {chosen : Option Party} {u v : LoopThread}
    (there : s.threads_[k]? = some u) (made : u.cread k chosen = .ok v) :
    s.phase.inside = true ∧ k = s.i ∧ Handshake s.i s.phase u ∧
      Inv { s with threads_ := s.threads_.set k v } := by
  have within := (List.getElem?_eq_some_iff.mp there).1
  rw [inv.size] at within
  have current : ¬ k < s.i := by
    intro early
    rw [LoopThread.cread, (inv.past k u early there).1] at made
    cases made
  have inside : s.phase.inside = true := by
    cases now : s.phase.inside with
    | true => rfl
    | false =>
      rw [now] at within
      exact absurd within current
  rw [inside] at within
  have here : k = s.i := Nat.le_antisymm (Nat.lt_succ_iff.mp within) (Nat.not_lt.mp current)
  subst here
  have now := inv.now u there
  exact ⟨inside, rfl, now, inv.set inside inside rfl (now.cread made).1⟩

/-- `getNextLoop` returns the loop whose turn it is. -/
theorem Inv.getNextLoop (inv : Inv s) (free : s.phase = .outside) (started : s.started_ = true) :
    ∃ next, s.getNextLoop =
        .ok { s with next_ := next, given := s.given ++ [some (turn s.i s.given.length)] } ∧
      Inv { s with next_ := next, given := s.given ++ [some (turn s.i s.given.length)] } := by
  have turns : s.given ++ [some (turn s.i s.given.length)] =
      (List.range (s.given ++ [some (turn s.i s.given.length)]).length).map
        fun k => some (turn s.i k) := by
    rw [List.length_append, List.length_singleton, List.range_succ, List.map_append, ← inv.turns]
    rfl
  have dealt : ∀ next, (s.i ≠ 0 → next = (s.given.length + 1) % s.i) →
      Inv { s with next_ := next, given := s.given ++ [some (turn s.i s.given.length)] } := by
    intro next later
    refine { inv with
      undealt := fun undealt => ?_
      turns := turns
      nextTurn := fun some => ?_ }
    · rcases undealt with unstarted | busy
      · exact absurd started (by simp [show s.started_ = false from unstarted])
      · exact absurd free busy
    · dsimp only
      rw [List.length_append]
      exact later some
  rw [EventLoopThreadPool.getNextLoop]
  split
  · rename_i empty
    have none : s.i = 0 := by rw [i, empty]; rfl
    refine ⟨s.next_, ?_, dealt s.next_ fun some => absurd none some⟩
    rw [turn, if_pos none]
  · rename_i some
    have nonzero : s.i ≠ 0 := fun none => some (List.eq_nil_of_length_eq_zero none)
    have next := inv.nextTurn nonzero
    have lt : s.next_ < s.i := by
      rw [next]
      exact Nat.mod_lt _ (Nat.pos_of_ne_zero nonzero)
    have there : s.loops_[s.next_]? = Option.some (Option.some (turn s.i s.given.length)) := by
      rw [inv.loops, turn, if_neg nonzero, ← next]
      simp [lt]
    rw [there]
    refine ⟨_, rfl, dealt _ fun _ => ?_⟩
    rw [← Nat.mod_add_mod, ← next]
    show (if s.i ≤ s.next_ + 1 then 0 else s.next_ + 1) = _
    split
    · rw [show s.next_ + 1 = s.i by omega, Nat.mod_self]
    · exact (Nat.mod_eq_of_lt (by omega)).symm

theorem Inv.step (inv : Inv s) {op : Op} (h : s.step op = .ok t) : Inv t := by
  cases step_cases h with
  | start cb free unstarted =>
    obtain ⟨_, none⟩ := inv.fresh unstarted
    have size : s.threads_.length = s.i := by rw [inv.size, free]; rfl
    refine { inv with
      size := size
      now := fun v there => ?_
      most := Nat.le_trans (Nat.le_of_eq none) (Nat.zero_le _)
      fresh := nofun
      full := nofun
      undealt := fun _ => inv.undealt (.inl unstarted)
      called := nofun }
    have there : s.threads_[s.i]? = some v := there
    rw [List.getElem?_eq_none (Nat.le_of_eq size)] at there
    cases there
  | startLoop created u here lt made => exact inv.startLoop here lt made
  | line u v after there line =>
    obtain ⟨before, inside⟩ := line.inside
    exact inv.set before inside rfl (line.handshake (inv.now u there)).1
  | push u here there => exact inv.push here there
  | startReturn here all => exact inv.startReturn here all
  | cread k chosen u v there made => exact (inv.cread there made).2.2.2
  | getNextLoop u free started made =>
    obtain ⟨next, given, kept⟩ := inv.getNextLoop free started
    rw [made] at given
    cases given
    exact kept

theorem reached_inv {numThreads : ℤ} (reached : Reaches step (new numThreads) s) : Inv s :=
  reached.keeps (fun _ _ _ inv h => inv.step h) (new_inv numThreads)

theorem step_numThreads (inv : Inv s) {op : Op} (h : s.step op = .ok t) :
    t.numThreads_ = s.numThreads_ := by
  cases step_cases h with
  | getNextLoop u free started made =>
    obtain ⟨next, given, _⟩ := inv.getNextLoop free started
    rw [made] at given
    cases given
    rfl
  | _ => rfl

theorem reached_numThreads {numThreads : ℤ} (reached : Reaches step (new numThreads) s) :
    s.numThreads_ = numThreads := by
  have keep : ∀ (u : EventLoopThreadPool) (op : Op) (v : EventLoopThreadPool),
      Inv u ∧ u.numThreads_ = numThreads → u.step op = .ok v →
      Inv v ∧ v.numThreads_ = numThreads :=
    fun u op v kept made => ⟨kept.1.step made, (step_numThreads kept.1 made).trans kept.2⟩
  exact (reached.keeps keep ⟨new_inv numThreads, rfl⟩).2

/-! ## What can go wrong -/

/-- Only calls that the pool does not allow. -/
def Misuses (s : EventLoopThreadPool) : Op → Prop
  | .start isInLoopThread _ => isInLoopThread = false ∨ s.started_ = true
  | .getNextLoop isInLoopThread => isInLoopThread = false ∨ s.started_ = false
  | _ => False

variable {f : Failure}

theorem map_error {S T : Type*} {o : Except Failure S} {g : S → T} (h : o.map g = .error f) :
    o = .error f := by
  cases o with
  | error e =>
    cases h
    rfl
  | ok s => cases h

theorem locking_error {u : LoopThread} {next : Option (Monitor Party Unit)} {flag : Bool}
    (h : u.locking (MutexLock.pthread next flag) = .error f) : f = .disabled := by
  have failed := map_error h
  cases next with
  | none =>
    cases failed
    rfl
  | some m => cases failed

theorem onThread_error {k : Nat} {g : LoopThread → Except Failure LoopThread}
    {phase : StartPhase} (only : ∀ u, s.threads_[k]? = some u → g u = .error f → f = .disabled)
    (h : s.onThread k g phase = .error f) : f = .disabled := by
  rw [onThread] at h
  split at h
  · cases h
    rfl
  · rename_i u there
    exact only u there (map_error h)

theorem startLoop_error {before after : StartPhase} {g : LoopThread → Except Failure LoopThread}
    (only : s.phase = before → ∀ u, s.threads_[s.i]? = some u → g u = .error f → f = .disabled)
    (h : s.startLoop before g after = .error f) : f = .disabled := by
  rw [startLoop] at h
  split at h
  · rename_i here
    exact onThread_error (only here) h
  · cases h
    rfl

theorem cread_error {k : Nat} {chosen : Option Party} {u : LoopThread}
    (h : u.cread k chosen = .error f) : f = .disabled := by
  rw [LoopThread.cread] at h
  split at h
  · exact locking_error h
  · cases h
  · exact locking_error h
  · exact locking_error h
  · cases h
    rfl
  · cases h
    rfl

/-- The assertions of `startLoop` and of `Condition::wait` hold. -/
theorem step_error (inv : Inv s) {op : Op} (h : s.step op = .error f) :
    f = .disabled ∨ f = .assertion ∧ s.Misuses op := by
  cases op with
  | start isInLoopThread cb =>
    simp only [step] at h
    split at h
    · cases h
      exact .inl rfl
    split at h
    · rename_i misused
      cases h
      refine .inr ⟨rfl, ?_⟩
      simpa [Misuses, or_comm] using misused
    · cases h
  | startLoop created =>
    simp only [step] at h
    split at h
    · cases created <;> cases h
    · cases h
      exact .inl rfl
  | lock => exact .inl (startLoop_error (fun _ _ _ failed => locking_error failed) h)
  | test =>
    simp only [step] at h
    split at h
    · split at h
      · cases h
        exact .inl rfl
      · cases h
    · cases h
      exact .inl rfl
  | wait =>
    refine .inl (startLoop_error (fun here u there failed => ?_) h)
    have now : Handshake s.i .calling u := here ▸ inv.now u there
    rw [MutexLock.wait, if_pos (now.flag rfl (now.null rfl))] at failed
    exact locking_error failed
  | rouse => exact .inl (startLoop_error (fun _ _ _ failed => locking_error failed) h)
  | resume => exact .inl (startLoop_error (fun _ _ _ failed => locking_error failed) h)
  | unlock => exact .inl (startLoop_error (fun _ _ _ failed => locking_error failed) h)
  | push =>
    simp only [step] at h
    split at h
    · split at h
      · cases h
        exact .inl rfl
      · cases h
    · cases h
      exact .inl rfl
  | startReturn =>
    simp only [step, guarded] at h
    split at h
    · cases h
    · cases h
      exact .inl rfl
  | cread k chosen => exact .inl (onThread_error (fun _ _ failed => cread_error failed) h)
  | getNextLoop isInLoopThread =>
    simp only [step] at h
    split at h
    · cases h
      exact .inl rfl
    split at h
    · rename_i misused
      cases h
      refine .inr ⟨rfl, ?_⟩
      simpa [Misuses, or_comm] using misused
    · rename_i free started
      simp only [Bool.or_eq_true, Bool.not_eq_true', not_or, Bool.not_eq_false] at started
      obtain ⟨started, rfl⟩ := started
      obtain ⟨next, given, _⟩ := inv.getNextLoop (by simpa using free) started
      rw [given] at h
      cases h

/-- The new thread has the mutex when the other is woken in vain. -/
def asleepEarly : List Op :=
  [.start true false, .startLoop (some 7), .lock, .test, .wait, .cread 0 none, .rouse]

def getsBack : List Op :=
  [.cread 0 none, .cread 0 none, .cread 0 none, .resume, .test, .unlock, .push, .startReturn]

end EventLoopThreadPool

end ZDQ
