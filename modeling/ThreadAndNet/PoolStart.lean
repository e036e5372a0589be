import ThreadAndNet.EventLoopThreadPool

/-!
# When `EventLoopThreadPool::start` returns

The steps of `start` and of the new threads are counted against what is left to do; a spurious
wake-up puts three back, a failed `pthread_create` leaves `startLoop` waiting for good.
-/

namespace ZDQ

open Machine

namespace EventLoopThreadPool

variable {s t : EventLoopThreadPool}

/-- How many steps the current round takes at most. -/
def leftOfRound (s : EventLoopThreadPool) : Nat :=
  match s.threads_[s.i]? with
  | none => 0
  | some t => t.left s.phase + t.line.left

/-- How many steps `start` and the threads it makes take at most before it returns. -/
def left (s : EventLoopThreadPool) : Nat :=
  if s.phase = .outside then 0
  else 12 * (s.numThreads_.toNat - (s.i + s.phase.inside.toNat)) + 1 + s.leftOfRound

/-- The steps of `start` and of the threads it makes. -/
def Op.ofStart : Op → Bool
  | .start _ _ | .rouse | .getNextLoop _ => false
  | _ => true

/-- How many steps a step adds to what is left. -/
def Op.brings (op : Op) : Nat := if op.rouses then 3 else 0

/-- `pthread_create` has failed for the thread that `startLoop` waits for. -/
def Abandoned (s : EventLoopThreadPool) : Prop :=
  ∃ t, s.threads_[s.i]? = some t ∧ t.line = .unstarted

theorem Inv.current (inv : Inv s) (inside : s.phase.inside = true) :
    ∃ t, s.threads_[s.i]? = some t ∧ Handshake s.i s.phase t := by
  have lt : s.i < s.threads_.length := by
    rw [inv.size, inside]
    exact Nat.lt_succ_self _
  exact ⟨_, List.getElem?_eq_getElem lt, inv.now _ (List.getElem?_eq_getElem lt)⟩

theorem Inv.no_round (inv : Inv s) (between : s.phase.inside = false) :
    s.threads_[s.i]? = none := by
  refine List.getElem?_eq_none (Nat.le_of_eq ?_)
  rw [inv.size, between]
  rfl

theorem Line.ofStart {op : Op} {t u : LoopThread} {before after : StartPhase}
    (line : Line t op before u after) : op.ofStart = !op.rouses := by
  cases line <;> rfl

theorem left_inside {u : LoopThread} (inside : s.phase.inside = true)
    (there : s.threads_[s.i]? = some u) :
    s.left = 12 * (s.numThreads_.toNat - (s.i + 1)) + 1 + (u.left s.phase + u.line.left) := by
  rw [left, if_neg (ne_outside inside), leftOfRound, there, inside]
  rfl

theorem Inv.left_next (inv : Inv s) (here : s.phase = .next) :
    s.left = 12 * (s.numThreads_.toNat - s.i) + 1 := by
  have none : s.threads_[s.i]? = none := inv.no_round (by rw [here]; rfl)
  rw [left, leftOfRound, none, here]
  rfl

/-- The other thread of the round is as it was set. -/
theorem left_set {u : LoopThread} {after : StartPhase} (lt : s.i < s.threads_.length)
    (inside : after.inside = true) :
    left { s with threads_ := s.threads_.set s.i u, phase := after } =
      12 * (s.numThreads_.toNat - (s.i + 1)) + 1 + (u.left after + u.line.left) :=
  left_inside (s := { s with threads_ := s.threads_.set s.i u, phase := after }) inside
    (List.getElem?_set_self lt)

theorem left_le (s : EventLoopThreadPool) (inv : Inv s) :
    s.left ≤ 12 * s.numThreads_.toNat + 1 := by
  cases inside : s.phase.inside with
  | true =>
    obtain ⟨t, there, _⟩ := inv.current inside
    have most := inv.most
    have waiting : t.left s.phase ≤ 7 := by
      unfold LoopThread.left
      split <;> first | omega | split <;> omega
    have creating : t.line.left ≤ 4 := by cases t.line <;> decide
    rw [inside] at most
    have most : s.i + 1 ≤ s.numThreads_.toNat := most
    rw [left_inside inside there]
    omega
  | false =>
    rw [left, leftOfRound, inv.no_round inside]
    dsimp only
    split <;> omega

theorem pays_start (inv : Inv s) {op : Op} (h : s.step op = .ok t) (started : s.started_ = true) :
    t.left + op.ofStart.toNat ≤ s.left + op.brings := by
  cases step_cases h with
  | start cb free unstarted => simp [unstarted] at started
  | startLoop created u here lt made =>
    have size : s.threads_.length = s.i := by rw [inv.size, here]; rfl
    have there : (s.threads_ ++ [u])[s.i]? = some u := by rw [← size, List.getElem?_concat_length]
    have round := left_inside (s := { s with threads_ := s.threads_ ++ [u], phase := .entering })
      rfl there
    have creating : u.line.left ≤ 4 := by cases u.line <;> decide
    have entering : u.left .entering = 7 := rfl
    dsimp only [i] at round lt ⊢
    rw [inv.left_next here, round, i]
    simp only [Op.ofStart, Op.brings, Op.rouses, Bool.false_eq_true, if_false, Bool.toNat_true,
      entering]
    omega
  | line u v after there line =>
    have lt := (List.getElem?_eq_some_iff.mp there).1
    obtain ⟨before, inside⟩ := line.inside
    obtain ⟨_, same, paid⟩ := line.handshake (inv.now u there)
    rw [left_set lt inside, left_inside before there, same, line.ofStart, Op.brings]
    cases vain : op.rouses with
    | false =>
      rw [vain] at paid
      simp only [Bool.false_eq_true, if_false, Bool.not_false, Bool.toNat_true] at paid ⊢
      omega
    | true =>
      rw [vain] at paid
      simp only [if_true, Bool.not_true, Bool.toNat_false] at paid ⊢
      omega
  | push u here there =>
    have now := inv.now u there
    have looping : u.line = .looping := now.found (.inr here)
    have kept := inv.push here there
    have grown : i { s with loops_ := s.loops_ ++ [u.loop_], phase := .next } = s.i + 1 := by
      simp [i]
    rw [kept.left_next rfl, left_inside (by rw [here]; rfl) there, grown, here, looping]
    simp only [Op.ofStart, Op.brings, Op.rouses, Bool.false_eq_true, if_false, Bool.toNat_true,
      LoopThread.left, CreadLine.left]
    omega
  | startReturn here all =>
    rw [inv.left_next here]
    exact Nat.le_add_left 1 _
  | cread k chosen u v there made =>
    have lt := (List.getElem?_eq_some_iff.mp there).1
    obtain ⟨inside, rfl, now, _⟩ := inv.cread there made
    obtain ⟨_, less, waits, _⟩ := now.cread made
    have after : left { s with threads_ := s.threads_.set s.i v } = _ := left_set lt inside
    rw [after, left_inside inside there]
    simp only [Op.ofStart, Op.brings, Op.rouses, Bool.false_eq_true, if_false, Bool.toNat_true]
    omega
  | getNextLoop u free started made =>
    obtain ⟨next, given, _⟩ := inv.getNextLoop free started
    rw [made] at given
    cases given
    rw [left, if_pos free]
    exact Nat.zero_le _

/-- Unless `pthread_create` has failed, one of the two threads can go on. -/
theorem goes_on {k : Nat} {phase : StartPhase} {u : LoopThread}
    (h : Handshake k phase u) (inside : phase.inside = true) (created : u.line ≠ .unstarted) :
    (phase = .returning ∨ ∃ op v after, Line u op phase v after ∧ op.rouses = false) ∨
      ∃ chosen v, u.cread k chosen = .ok v := by
  cases holds : u.line.holds with
  | true => exact .inr (h.cread_goes_on holds)
  | false =>
    cases phase with
    | outside | next => cases inside
    | entering =>
      obtain ⟨asleep, woken⟩ := h.awake (by decide)
      have out : ¬ u.lock.mutex_.Inside .owner := by simp [Monitor.Inside, asleep, woken]
      obtain ⟨v, made⟩ := exists_locking u true
        (Monitor.lock_iff.mpr ⟨⟨(h.free rfl).mpr holds, out⟩, rfl⟩)
      exact .inl (.inr ⟨_, v, _, .lock made, rfl⟩)
    | testing =>
      by_cases null : u.loop_ = none
      · exact .inl (.inr ⟨_, u, _, .null null, rfl⟩)
      · exact .inl (.inr ⟨_, u, _, .found null, rfl⟩)
    | calling =>
      obtain ⟨v, made⟩ := exists_locking u u.lock.is_lock_
        (Monitor.wait_iff.mpr ⟨h.owner, rfl⟩)
      refine .inl (.inr ⟨_, v, _, .wait ?_, rfl⟩)
      rw [MutexLock.wait, if_pos (h.flag rfl (h.null rfl))]
      exact made
    | waiting =>
      have free := (h.free rfl).mpr holds
      rcases h.waits rfl with ⟨asleep, woken, signals⟩ | ⟨_, woken⟩
      · have line : u.line = .constructing := by
          cases line : u.line <;> simp_all [CreadLine.holds, CreadLine.signals]
        have out : ¬ u.lock.mutex_.Inside .creator := by simp [Monitor.Inside, asleep, woken]
        obtain ⟨v, made⟩ := exists_locking { u with line := .locked } true
          (Monitor.lock_iff.mpr ⟨⟨free, out⟩, rfl⟩)
        exact .inr ⟨none, v, by rw [LoopThread.cread, line]; exact made⟩
      · obtain ⟨v, made⟩ := exists_locking u u.lock.is_lock_
          (Monitor.resume_iff.mpr ⟨⟨by rw [woken]; exact List.mem_singleton_self _, free⟩, rfl⟩)
        exact .inl (.inr ⟨_, v, _, .resume made, rfl⟩)
    | leaving =>
      obtain ⟨v, made⟩ := exists_locking u false
        (Monitor.unlock_iff.mpr ⟨h.owner, rfl⟩)
      exact .inl (.inr ⟨_, v, _, .unlock made, rfl⟩)
    | returning => exact .inl (.inl rfl)

theorem startLoop_ok {u v : LoopThread} {before after : StartPhase}
    {g : LoopThread → Except Failure LoopThread} (here : s.phase = before)
    (there : s.threads_[s.i]? = some u) (made : g u = .ok v) :
    ∃ r, s.startLoop before g after = .ok r := by
  rw [startLoop, if_pos here, onThread, there]
  dsimp only
  rw [made]
  exact ⟨_, rfl⟩

theorem Line.taken {u v : LoopThread} {op : Op} {before after : StartPhase}
    (line : Line u op before v after) (here : s.phase = before)
    (there : s.threads_[s.i]? = some u) : ∃ r, s.step op = .ok r := by
  cases line with
  | lock made => exact startLoop_ok here there made
  | found _ | null _ => exact ⟨_, by rw [step, if_pos here, there]⟩
  | wait made => exact startLoop_ok here there made
  | rouse made => exact startLoop_ok here there made
  | resume made => exact startLoop_ok here there made
  | unlock made => exact startLoop_ok here there made

theorem start_enabled (inv : Inv s) (busy : s.phase ≠ .outside) (made : ¬ s.Abandoned) :
    ∃ op : Op, op.ofStart ∧ ∃ r, s.step op = .ok r := by
  cases inside : s.phase.inside with
  | true =>
    obtain ⟨u, there, now⟩ := inv.current inside
    have created : u.line ≠ .unstarted := fun failed => made ⟨u, there, failed⟩
    rcases goes_on now inside created with (push | ⟨op, v, after, line, moves⟩) | ⟨chosen, v, goes⟩
    · exact ⟨.push, rfl, _, by rw [step, if_pos push, there]⟩
    · exact ⟨op, by rw [line.ofStart, moves]; rfl, line.taken rfl there⟩
    · exact ⟨.cread s.i chosen, rfl, _, by simp only [step, onThread, there, goes]; rfl⟩
  | false =>
    have here : s.phase = .next := by
      cases phase : s.phase <;> simp_all [StartPhase.inside]
    by_cases more : (s.i : ℤ) < s.numThreads_
    · exact ⟨.startLoop none, rfl, _, if_pos ⟨here, more⟩⟩
    · exact ⟨.startReturn, rfl, _, guarded_ok.mpr ⟨⟨here, not_lt.mp more⟩, rfl⟩⟩

theorem abandoned_iff {u : LoopThread} (there : s.threads_[s.i]? = some u) :
    s.Abandoned ↔ u.line = .unstarted := by
  constructor
  · rintro ⟨v, same, line⟩
    rw [there] at same
    cases same
    exact line
  · exact fun line => ⟨u, there, line⟩

theorem Inv.not_abandoned (inv : Inv s) (between : s.phase.inside = false) : ¬ s.Abandoned := by
  rintro ⟨u, there, _⟩
  rw [inv.no_round between] at there
  cases there

theorem Line.not_begin {u v : LoopThread} {op : Op} {before after : StartPhase}
    (line : Line u op before v after) : op ≠ .startLoop none := by
  rintro rfl
  cases line

/-- A round is abandoned if it was before, or if `pthread_create` fails now. -/
theorem step_abandoned (inv : Inv s) {op : Op} (h : s.step op = .ok t) :
    t.Abandoned ↔ s.Abandoned ∨ op = .startLoop none := by
  have kept := inv.step h
  cases step_cases h with
  | start cb free unstarted => exact ⟨.inl, fun was => was.resolve_right (by simp)⟩
  | startLoop created u here lt made =>
    have size : s.threads_.length = s.i := by rw [inv.size, here]; rfl
    have there : (s.threads_ ++ [u])[s.i]? = some u := by rw [← size, List.getElem?_concat_length]
    obtain ⟨_, line⟩ := Handshake.start (i := s.i) made
    have before := inv.not_abandoned (by rw [here]; rfl)
    rw [abandoned_iff there, line, Op.startLoop.injEq]
    exact ⟨.inr, fun was => was.resolve_left before⟩
  | line u v after there line =>
    have lt := (List.getElem?_eq_some_iff.mp there).1
    have now : (s.threads_.set s.i v)[s.i]? = some v := List.getElem?_set_self lt
    obtain ⟨_, same, _⟩ := line.handshake (inv.now u there)
    rw [abandoned_iff now, abandoned_iff there, same]
    exact ⟨.inl, fun was => was.resolve_right line.not_begin⟩
  | push u here there =>
    have before : ¬ s.Abandoned := by
      rw [abandoned_iff there, (inv.now u there).found (.inr here)]
      simp
    exact ⟨fun after => absurd after (kept.not_abandoned rfl),
      fun was => was.elim (fun was => absurd was before) (by simp)⟩
  | startReturn here all => exact ⟨.inl, fun was => was.resolve_right (by simp)⟩
  | cread k chosen u v there made =>
    have lt := (List.getElem?_eq_some_iff.mp there).1
    obtain ⟨_, rfl, now, _⟩ := inv.cread there made
    obtain ⟨_, less, _, after⟩ := now.cread made
    have later : (s.threads_.set s.i v)[s.i]? = some v := List.getElem?_set_self lt
    have before : u.line ≠ .unstarted := by
      intro unstarted
      rw [unstarted] at less
      cases less
    rw [abandoned_iff later, abandoned_iff there]
    exact ⟨fun unstarted => absurd unstarted after,
      fun was => was.elim (fun unstarted => absurd unstarted before) (by simp)⟩
  | getNextLoop u free started made =>
    obtain ⟨next, given, _⟩ := inv.getNextLoop free started
    rw [made] at given
    cases given
    exact ⟨.inl, fun was => was.resolve_right (by simp)⟩

theorem run_abandoned (inv : Inv s) {labels : List Op} (h : run step s labels = .ok t) :
    t.Abandoned ↔ s.Abandoned ∨ .startLoop none ∈ labels := by
  induction labels generalizing s with
  | nil =>
    cases h
    simp
  | cons op rest ih =>
    obtain ⟨m, first, later⟩ := run_cons_inv h
    rw [ih (inv.step first) later, step_abandoned inv first, List.mem_cons, or_assoc, eq_comm]

theorem step_started (inv : Inv s) {op : Op} (h : s.step op = .ok t) (started : s.started_ = true) :
    t.started_ = true := by
  cases step_cases h with
  | getNextLoop u free started' made =>
    obtain ⟨next, given, _⟩ := inv.getNextLoop free started
    rw [made] at given
    cases given
    exact started
  | start cb free unstarted => rfl
  | _ => exact started

/-- Whoever has called `start` gets back, unless `pthread_create` fails: as long as it has not
returned, it or the new thread can take a step, and all of them together take at most so many,
three more for each time one is woken in vain. If `pthread_create` has failed, it never does. -/
theorem start_returns {numThreads : ℤ} (reached : Reaches step (new numThreads) s)
    (busy : s.phase ≠ .outside) {labels : List Op} (h : run step s labels = .ok t) :
    labels.countP Op.ofStart ≤ 12 * numThreads.toNat + 1 + (labels.map Op.brings).sum ∧
      (t.phase = .outside ∨ t.Abandoned ∨ ∃ op : Op, op.ofStart ∧ ∃ r, t.step op = .ok r) ∧
      (t.Abandoned ↔ s.Abandoned ∨ .startLoop none ∈ labels) ∧
      (t.Abandoned → t.phase ≠ .outside) := by
  have inv := reached_inv reached
  have later : Inv t := reached_inv (reached.trans ⟨labels, h⟩)
  have keep : ∀ (m : EventLoopThreadPool) (op : Op) (v : EventLoopThreadPool), op ∈ labels →
      Inv m ∧ m.started_ = true → m.step op = .ok v → Inv v ∧ v.started_ = true :=
    fun m op v _ kept made => ⟨kept.1.step made, step_started kept.1 made kept.2⟩
  have bounded := run_pays left Op.ofStart Op.brings keep
    (fun m op v _ kept made => pays_start kept.1 made kept.2) ⟨inv, inv.started busy⟩ h
  have most := left_le s inv
  rw [reached_numThreads reached] at most
  refine ⟨by omega, ?_, ?_, fun abandoned out => ?_⟩
  · by_cases out : t.phase = .outside
    · exact .inl out
    · by_cases abandoned : t.Abandoned
      · exact .inr (.inl abandoned)
      · exact .inr (.inr (start_enabled later out abandoned))
  · exact run_abandoned inv h
  · exact later.not_abandoned (by rw [out]; rfl) abandoned

theorem start_returns_asleepEarly : ∃ s t, run step (new 1) asleepEarly = .ok s ∧
    run step s getsBack = .ok t ∧ getsBack.countP Op.ofStart ≤ 12 * 1 + 1 + 0 ∧
    t.phase = .outside := by
  obtain ⟨s, ran, later⟩ := ok_of_any (o := run step (new 1) asleepEarly)
    (p := fun s => s.phase != .outside &&
      (run step s getsBack).toOption.any (fun t => t.phase == .outside)) (by decide +kernel)
  rw [Bool.and_eq_true, bne_iff_ne] at later
  obtain ⟨busy, later⟩ := later
  obtain ⟨t, back, out⟩ := ok_of_any later
  obtain ⟨bounded, _⟩ := start_returns ⟨_, ran⟩ busy back
  exact ⟨s, t, ran, back, bounded, eq_of_beq out⟩

end EventLoopThreadPool

end ZDQ
