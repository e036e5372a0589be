import ThreadAndNet.PollerRuns

/-!
# From the answer of `::poll` to the active channels

A removal may go by a stale index here and leave a registered channel without a slot of its
own. What it cannot do is to leave a slot with a descriptor and without its channel, and
that is all `fillActiveChannels` needs.
-/

namespace ZDQ

open Machine

/-- `::poll` reported something for the slot. -/
def PollFd.hasEvents (pfd : PollFd) : Bool := pfd.revents ≠ 0

def Channel.setREvent (c : Channel) (revt : BitVec 32) : Channel := { c with revents := revt }

namespace Poller

variable {C : Type*} [DecidableEq C]

/-- `pfd->revents` is a short and is widened with its sign. -/
def setREvent (p : Poller C) (c : C) (revents : BitVec 16) : Poller C :=
  { p with chan := Function.update p.chan c ((p.chan c).setREvent (revents.signExtend 32)) }

/-- The loop of `fillActiveChannels` from a slot on. -/
def fillFrom (p : Poller C) (activeChannels : List C) (numEvents : Int) :
    List PollFd → Except Failure (Poller C × List C)
  | [] => .ok (p, activeChannels)
  | pfd :: rest =>
    if 0 < numEvents then
      if 0 < pfd.revents.toInt then
        match p.channels pfd.fd with
        | none => .error .assertion
        | some channel =>
          if (p.chan channel).fd ≠ pfd.fd then .error .assertion
          else fillFrom (p.setREvent channel pfd.revents) (activeChannels ++ [channel])
            (numEvents - 1) rest
      else fillFrom p activeChannels numEvents rest
    else .ok (p, activeChannels)

def fillActiveChannels (p : Poller C) (numEvents : Int) (activeChannels : List C) :
    Except Failure (Poller C × List C) :=
  p.fillFrom activeChannels numEvents p.pollfds

/-- `::poll` has written these into the slots. -/
def answered (p : Poller C) (revents : List (BitVec 16)) : Poller C :=
  { p with pollfds := p.pollfds.zipWith (fun pfd r => { pfd with revents := r }) revents }

/-- `poll`, with what `::poll` returned and wrote. -/
def poll (p : Poller C) (numEvents : Int) (revents : List (BitVec 16))
    (activeChannels : List C) : Except Failure (Poller C × List C) :=
  if 0 < numEvents then (p.answered revents).fillActiveChannels numEvents activeChannels
  else .ok (p.answered revents, activeChannels)

/-- The slots with events, in order. -/
def ready (p : Poller C) : List PollFd := p.pollfds.filter PollFd.hasEvents

/-- The contract of `::poll`. -/
structure Answers (p : Poller C) (numEvents : Int) (revents : List (BitVec 16)) : Prop where
  length : revents.length = p.pollfds.length
  nonneg : ∀ r ∈ revents, 0 ≤ r.toInt
  ignored : ∀ pfd ∈ (p.answered revents).pollfds, pfd.fd < 0 → pfd.revents = 0
  count : numEvents = (p.answered revents).ready.length

/-! ## Slots and their channels -/

/-- A slot with a descriptor is the slot of the channel registered for it. -/
structure Owned (fd : C → Nat) (p : Poller C) : Prop where
  fds : ∀ c, (p.chan c).fd = fd c
  keys : ∀ k c, p.channels k = some c → k = fd c
  owned : ∀ (i : Nat) (pfd : PollFd), p.pollfds[i]? = some pfd → pfd.fd = -1 ∨
    ∃ c, p.channels pfd.fd = some c ∧ (p.chan c).index = i

section Owned
variable {fd : C → Nat} {p q : Poller C}

theorem Owned.register (owned : Owned fd p) {c : C} {ch : Channel} (hfd : ch.fd = fd c)
    (absent : p.channels (fd c) = none) : Owned fd (p.register c ch) := by
  constructor
  · exact register_fds owned.fds hfd
  · exact register_keys owned.keys hfd
  · intro i pfd at_i
    simp only [Poller.register, List.getElem?_append] at at_i
    split at at_i
    · refine (owned.owned i pfd at_i).imp_right ?_
      rintro ⟨d, entry, hi⟩
      have other : pfd.fd ≠ ch.fd := by
        intro same
        rw [same, hfd, absent] at entry
        cases entry
      have hdc : d ≠ c := by
        rintro rfl
        exact other ((owned.keys _ _ entry).trans (by rw [hfd]))
      exact ⟨d, by simpa [Poller.register, other] using entry,
        by rw [register_chan_other p c ch hdc, hi]⟩
    · simp only [List.getElem?_singleton] at at_i
      split at at_i
      · cases at_i
        refine .inr ⟨c, by simp [Poller.register], ?_⟩
        rw [register_index_self]
        omega
      · cases at_i

theorem Owned.rewriteSlot (owned : Owned fd p) {c : C} {ch : Channel}
    (hfd : ch.fd = (p.chan c).fd) (hidx : ch.index = (p.chan c).index) {pfd : PollFd}
    (slot : p.slot? c = some pfd) : Owned fd (p.rewriteSlot c ch pfd) := by
  have indexOf := rewriteSlot_index hidx pfd
  obtain ⟨k, hk, at_k⟩ := index_of_slot? slot
  have position : ch.index.toNat = k := by omega
  constructor
  · exact fun e => (rewriteSlot_fd hfd pfd e).trans (owned.fds e)
  · exact owned.keys
  · intro i pfd' at_i
    simp only [indexOf]
    simp only [Poller.rewriteSlot, position, List.getElem?_set] at at_i
    split at at_i
    · rename_i hki
      subst hki
      split at at_i
      · cases at_i
        dsimp only
        split
        · exact .inl rfl
        · exact owned.owned k pfd at_k
      · cases at_i
    · exact owned.owned i pfd' at_i

/-- The two ways a removal can succeed. -/
theorem removeChannel_cases {c : C} (h : p.removeChannel c = .ok q) :
    (p.chan c).index = (p.pollfds.length : Int) - 1 ∧ q = p.dropLastSlot c ∨
    ∃ (i : Nat) (last : PollFd) (d : C), (p.chan c).index = i ∧ i + 1 < p.pollfds.length ∧
      p.pollfds.getLast? = some last ∧
      Function.update p.channels (p.chan c).fd none last.fd = some d ∧
      q = p.fillGap c d i last := by
  by_cases atEnd : (p.chan c).index = (p.pollfds.length : Int) - 1
  · by_cases slots : p.pollfds = []
    · simp [removeChannel, atEnd, slots] at h
    · rw [removeChannel_last atEnd slots] at h
      cases h
      exact .inl ⟨atEnd, rfl⟩
  · right
    have found := h
    simp only [Poller.removeChannel, atEnd, if_false] at found
    split at found
    · cases found
    rename_i nonneg
    split at found
    · rename_i pfd last at_i hlast
      obtain ⟨inside, _⟩ := List.getElem?_eq_some_iff.mp at_i
      have hi : (p.chan c).index = ((p.chan c).index.toNat : Int) := by omega
      have inner : (p.chan c).index.toNat + 1 < p.pollfds.length := by omega
      rw [removeChannel_swap hi inner at_i hlast, setIndexAt] at h
      split at h
      · cases h
      · rename_i d hd
        cases h
        exact ⟨_, last, d, hi, inner, hlast, hd, rfl⟩
    · cases found

omit [DecidableEq C] in
/-- A channel with another index keeps its entry. -/
theorem Owned.entry_kept (inj : Function.Injective fd) (owned : Owned fd p) {c e : C} {k : Int}
    (hk : p.channels k = some e) (other : (p.chan e).index ≠ (p.chan c).index) :
    Function.update p.channels (p.chan c).fd none k = some e := by
  have hkc : k ≠ (p.chan c).fd := by
    intro same
    have key := owned.keys k e hk
    rw [same, owned.fds] at key
    have hce : c = e := inj (by exact_mod_cast key)
    exact other (by rw [hce])
  rw [Function.update_of_ne hkc]
  exact hk

omit [DecidableEq C] in
theorem entry_of_erased {c e : C} {k : Int}
    (hk : Function.update p.channels (p.chan c).fd none k = some e) :
    p.channels k = some e := by
  by_cases hkc : k = (p.chan c).fd
  · rw [hkc, Function.update_self] at hk
    cases hk
  · rwa [Function.update_of_ne hkc] at hk

omit [DecidableEq C] in
theorem Owned.dropLastSlot (inj : Function.Injective fd) (owned : Owned fd p) {c : C}
    (atEnd : (p.chan c).index = (p.pollfds.length : Int) - 1) :
    Owned fd (p.dropLastSlot c) := by
  refine ⟨owned.fds, fun k e hk => owned.keys k e (entry_of_erased hk), fun j pfd at_j => ?_⟩
  simp only [Poller.dropLastSlot, List.getElem?_dropLast] at at_j
  split at at_j
  · refine (owned.owned j pfd at_j).imp_right ?_
    rintro ⟨e, he, hj⟩
    exact ⟨e, owned.entry_kept inj he (by omega), hj⟩
  · cases at_j

omit [DecidableEq C] in
/-- The last slot carries a descriptor, so the channel `d` found for it is its own. -/
theorem Owned.last_index (owned : Owned fd p) {last : PollFd} {d : C}
    (hlast : p.pollfds.getLast? = some last) (entry : p.channels last.fd = some d) :
    (p.chan d).index = ((p.pollfds.length - 1 : Nat) : Int) := by
  rw [List.getLast?_eq_getElem?] at hlast
  rcases owned.owned _ last hlast with dead | ⟨e, he, index⟩
  · have key := owned.keys _ _ entry
    omega
  · rw [entry] at he
    cases he
    exact index

theorem Owned.fillGap (inj : Function.Injective fd) (owned : Owned fd p) {c d : C} {i : Nat}
    {last : PollFd} (hi : (p.chan c).index = i) (inner : i + 1 < p.pollfds.length)
    (hlast : p.pollfds.getLast? = some last)
    (hd : Function.update p.channels (p.chan c).fd none last.fd = some d) :
    Owned fd (p.fillGap c d i last) := by
  have lastIndex := owned.last_index hlast (entry_of_erased hd)
  refine ⟨fun e => ?_, fun k e hk => owned.keys k e (entry_of_erased hk), fun j pfd at_j => ?_⟩
  · rw [(fillGap_objects p c d i last e).1, owned.fds]
  · have short : j < p.pollfds.length - 1 := by
      obtain ⟨inside, _⟩ := List.getElem?_eq_some_iff.mp at_j
      have length := fillGap_length p c d i last (by omega)
      omega
    by_cases hji : j = i
    · subst hji
      rw [fillGap_gap p c d j last inner] at at_j
      cases at_j
      exact .inr ⟨d, hd, fillGap_index_self p c d j last⟩
    · rw [fillGap_elsewhere p c d i last short hji] at at_j
      refine (owned.owned j pfd at_j).imp_right ?_
      rintro ⟨e, he, hj⟩
      have hed : e ≠ d := by
        rintro rfl
        omega
      exact ⟨e, owned.entry_kept inj he (by omega),
        by rw [fillGap_index_other p c d i last hed, hj]⟩

theorem Owned.removeChannel (inj : Function.Injective fd) (owned : Owned fd p) {c : C}
    (h : p.removeChannel c = .ok q) : Owned fd q := by
  rcases removeChannel_cases h with ⟨atEnd, rfl⟩ | ⟨i, last, d, hi, inner, hlast, hd, rfl⟩
  · exact owned.dropLastSlot inj atEnd
  · exact owned.fillGap inj hi inner hlast hd

theorem Owned.step (inj : Function.Injective fd) (owned : Owned fd p) {a : Op × C}
    (h : p.step a = .ok q) : Owned fd q := by
  obtain ⟨op, c⟩ := a
  by_cases hop : op = .remove
  · subst hop
    exact owned.removeChannel inj (remove_cases h).2
  · rcases update_cases hop h with ⟨_, absent, rfl⟩ | ⟨_, pfd, slot, rfl⟩
    · rw [owned.fds] at absent
      exact owned.register (by rw [Op.interest_fd, owned.fds]) absent
    · exact owned.rewriteSlot (Op.interest_fd _ _) (Op.interest_index _ _) slot

omit [DecidableEq C] in
theorem Owned.empty (fd : C → Nat) : Owned fd (empty fd) :=
  ⟨fun _ => rfl, nofun, fun i pfd at_i => by simp [Poller.empty] at at_i⟩

omit [DecidableEq C] in
theorem Owned.answered (owned : Owned fd p) (revents : List (BitVec 16)) :
    Owned fd (p.answered revents) := by
  refine ⟨owned.fds, owned.keys, fun i pfd at_i => ?_⟩
  obtain ⟨old, r, at_old, _, rfl⟩ := List.getElem?_zipWith_eq_some.mp at_i
  exact owned.owned i old at_old

omit [DecidableEq C] in
/-- Slots with events have different descriptors. -/
theorem Owned.ready_distinct (owned : Owned fd p)
    (ignored : ∀ pfd ∈ p.pollfds, pfd.fd < 0 → pfd.revents = 0) :
    p.ready.Pairwise (fun a b => a.fd ≠ b.fd) := by
  rw [ready, List.pairwise_filter, List.pairwise_iff_getElem]
  intro i j hi hj less first second same
  rcases owned.owned i _ (List.getElem?_eq_getElem hi) with dead | ⟨c, hc, index⟩
  · have quiet := ignored _ (List.getElem_mem hi) (by omega)
    simp [PollFd.hasEvents, quiet] at first
  rcases owned.owned j _ (List.getElem?_eq_getElem hj) with dead | ⟨d, hd, index'⟩
  · have quiet := ignored _ (List.getElem_mem hj) (by omega)
    simp [PollFd.hasEvents, quiet] at second
  rw [same, hd] at hc
  cases hc
  omega

omit [DecidableEq C] in
/-- A slot with events is the slot of its channel. -/
theorem Owned.ready_entry (owned : Owned fd p)
    (ignored : ∀ pfd ∈ p.pollfds, pfd.fd < 0 → pfd.revents = 0) {pfd : PollFd}
    (mem : pfd ∈ p.pollfds) (events : pfd.revents ≠ 0) :
    ∃ c, p.channels pfd.fd = some c ∧ ((p.chan c).fd : Int) = pfd.fd ∧ p.slot? c = some pfd := by
  obtain ⟨i, at_i⟩ := List.mem_iff_getElem?.mp mem
  rcases owned.owned i pfd at_i with dead | ⟨c, hc, index⟩
  · exact absurd (ignored pfd mem (by omega)) events
  · refine ⟨c, hc, ?_, (slot?_of_index index).trans at_i⟩
    rw [owned.fds, owned.keys _ _ hc]

end Owned

/-! ## The loop over the slots -/

/-- `found` are the channels of these slots, in order, and have been told their events. -/
structure Filled (p q : Poller C) (slots : List PollFd) (found : List C) : Prop where
  entries : found.map some = slots.map (fun pfd => p.channels pfd.fd)
  once : found.Nodup
  revents : ∀ pfd ∈ slots, ∀ c, p.channels pfd.fd = some c →
    (q.chan c).revents = pfd.revents.signExtend 32
  others : ∀ c, c ∉ found → q.chan c = p.chan c
  still : ∀ c, q.chan c = { p.chan c with revents := (q.chan c).revents }
  pollfds : q.pollfds = p.pollfds
  channels : q.channels = p.channels

section Fill
variable {p : Poller C}

omit [DecidableEq C] in
theorem Filled.nil (p : Poller C) : Filled p p [] [] :=
  ⟨rfl, List.nodup_nil, nofun, fun _ _ => rfl, fun _ => rfl, rfl, rfl⟩

theorem pos_iff_ne_zero {r : BitVec 16} (nonneg : 0 ≤ r.toInt) : 0 < r.toInt ↔ r ≠ 0 := by
  have zero : r = 0 ↔ r.toInt = 0 := by
    rw [← BitVec.toInt_inj]
    rfl
  rw [Ne, zero]
  omega

theorem setREvent_fd (p : Poller C) (c d : C) (r : BitVec 16) :
    ((p.setREvent c r).chan d).fd = (p.chan d).fd := by
  by_cases h : d = c
  · subst h
    simp [setREvent, Channel.setREvent]
  · simp [setREvent, h]

/-- One slot with events, and then the others. -/
theorem Filled.cons {q : Poller C} {pfd : PollFd} {slots : List PollFd} {found : List C} {c : C}
    (entry : p.channels pfd.fd = some c)
    (fds : ∀ k d, p.channels k = some d → ((p.chan d).fd : Int) = k)
    (distinct : ∀ other ∈ slots, pfd.fd ≠ other.fd)
    (filled : Filled (p.setREvent c pfd.revents) q slots found) :
    Filled p q (pfd :: slots) (c :: found) := by
  have entries : found.map some = slots.map (fun pfd => p.channels pfd.fd) := filled.entries
  have fresh : c ∉ found := by
    intro mem
    have again := List.mem_map_of_mem (f := some) mem
    rw [entries] at again
    obtain ⟨other, hother, same⟩ := List.mem_map.mp again
    exact distinct other hother ((fds _ _ entry).symm.trans (fds _ _ same))
  have told : q.chan c = (p.chan c).setREvent (pfd.revents.signExtend 32) := by
    rw [filled.others c fresh]
    simp [Poller.setREvent]
  constructor
  · simp [entries, entry]
  · exact List.nodup_cons.mpr ⟨fresh, filled.once⟩
  · rintro slot (_ | ⟨_, mem⟩) d hd
    · rw [entry] at hd
      cases hd
      rw [told]
      rfl
    · exact filled.revents slot mem d hd
  · intro d other
    rw [filled.others d (fun mem => other (List.mem_cons_of_mem c mem))]
    have hdc : d ≠ c := fun h => other (h ▸ List.mem_cons_self)
    simp [Poller.setREvent, hdc]
  · intro d
    by_cases hdc : d = c
    · subst hdc
      rw [told]
      rfl
    · rw [filled.still d]
      simp [Poller.setREvent, hdc]
  · exact filled.pollfds
  · exact filled.channels

theorem fillFrom_done (p : Poller C) (acc : List C) (slots : List PollFd) {numEvents : Int}
    (done : ¬ 0 < numEvents) : p.fillFrom acc numEvents slots = .ok (p, acc) := by
  cases slots with
  | nil => rfl
  | cons pfd rest => rw [fillFrom, if_neg done]

/-- The loop stops behind the last slot with events, having met them all. -/
theorem fillFrom_filled (slots : List PollFd) (acc : List C)
    (nonneg : ∀ pfd ∈ slots, 0 ≤ pfd.revents.toInt)
    (fds : ∀ k d, p.channels k = some d → ((p.chan d).fd : Int) = k)
    (entries : ∀ pfd ∈ slots, pfd.revents ≠ 0 → ∃ c, p.channels pfd.fd = some c)
    (distinct : (slots.filter PollFd.hasEvents).Pairwise (fun a b => a.fd ≠ b.fd)) :
    ∃ q found, p.fillFrom acc (slots.filter PollFd.hasEvents).length slots =
        .ok (q, acc ++ found) ∧
      Filled p q (slots.filter PollFd.hasEvents) found := by
  induction slots generalizing p acc with
  | nil => exact ⟨p, [], by simp [fillFrom], .nil p⟩
  | cons pfd rest ih =>
    have positive := pos_iff_ne_zero (nonneg pfd List.mem_cons_self)
    by_cases events : pfd.revents = 0
    · have skip : (pfd :: rest).filter PollFd.hasEvents =
          rest.filter PollFd.hasEvents := by simp [PollFd.hasEvents, events]
      rw [skip] at distinct ⊢
      by_cases more : 0 < ((rest.filter PollFd.hasEvents).length : Int)
      · obtain ⟨q, found, loop, filled⟩ := ih (p := p) acc
          (fun pfd mem => nonneg pfd (List.mem_cons_of_mem _ mem)) fds
          (fun pfd mem => entries pfd (List.mem_cons_of_mem _ mem)) distinct
        refine ⟨q, found, ?_, filled⟩
        rw [fillFrom, if_pos more, if_neg (positive.not.mpr (not_not.mpr events))]
        exact loop
      · have none : rest.filter PollFd.hasEvents = [] :=
          List.length_eq_zero_iff.mp (by omega)
        refine ⟨p, [], ?_, ?_⟩
        · rw [fillFrom_done p acc _ more, List.append_nil]
        · rw [none]
          exact .nil p
    · have meet : (pfd :: rest).filter PollFd.hasEvents =
          pfd :: rest.filter PollFd.hasEvents :=
        List.filter_cons_of_pos (decide_eq_true events)
      rw [meet] at distinct ⊢
      obtain ⟨first, later⟩ := List.pairwise_cons.mp distinct
      obtain ⟨c, entry⟩ := entries pfd List.mem_cons_self events
      obtain ⟨q, found, loop, filled⟩ := ih (p := p.setREvent c pfd.revents) (acc ++ [c])
        (fun pfd mem => nonneg pfd (List.mem_cons_of_mem _ mem))
        (fun k d hd => by rw [setREvent_fd]; exact fds k d hd)
        (fun pfd mem => entries pfd (List.mem_cons_of_mem _ mem)) later
      refine ⟨q, c :: found, ?_, .cons entry fds first filled⟩
      have more : (0 : Int) < ((pfd :: rest.filter PollFd.hasEvents).length : Int) := by
        simp only [List.length_cons]
        omega
      have rest_count : ((pfd :: rest.filter PollFd.hasEvents).length : Int) - 1 =
          (rest.filter PollFd.hasEvents).length := by
        simp only [List.length_cons]
        omega
      rw [fillFrom, if_pos more, if_pos (positive.mpr events), rest_count]
      simp only [entry, fds _ _ entry, ne_eq, not_true_eq_false, if_false, loop,
        List.append_assoc, List.singleton_append]

end Fill

/-- Whatever channels were updated and removed, if nothing failed: for every answer that
`::poll` may give, no assertion of `fillActiveChannels` fails, and it appends the channels
of the slots with events, each once and in their order, each with its own slot's events. -/
theorem fillActiveChannels_exact {fd : C → Nat} (inj : Function.Injective fd) {p : Poller C}
    (reached : Reaches step (empty fd) p) {numEvents : Int} {revents : List (BitVec 16)}
    (answers : p.Answers numEvents revents) (activeChannels : List C) :
    ∃ q found, (p.answered revents).fillActiveChannels numEvents activeChannels =
        .ok (q, activeChannels ++ found) ∧
      p.poll numEvents revents activeChannels = .ok (q, activeChannels ++ found) ∧
      Filled (p.answered revents) q (p.answered revents).ready found ∧
      ∀ c ∈ found, ∃ pfd ∈ (p.answered revents).ready, q.slot? c = some pfd ∧
        pfd.fd = (q.chan c).fd ∧ (q.chan c).revents = pfd.revents.signExtend 32 := by
  have owned : Owned fd (p.answered revents) :=
    (Reaches.keeps (fun _ _ _ owned h => Owned.step inj owned h) reached
      (.empty fd)).answered revents
  have nonneg : ∀ pfd ∈ (p.answered revents).pollfds, 0 ≤ pfd.revents.toInt := by
    intro pfd mem
    obtain ⟨i, at_i⟩ := List.mem_iff_getElem?.mp mem
    obtain ⟨old, r, _, at_r, rfl⟩ := List.getElem?_zipWith_eq_some.mp at_i
    exact answers.nonneg r (List.mem_of_getElem? at_r)
  have entry : ∀ pfd ∈ (p.answered revents).pollfds, pfd.revents ≠ 0 →
      ∃ c, (p.answered revents).channels pfd.fd = some c := by
    intro pfd mem events
    obtain ⟨c, hc, _⟩ := owned.ready_entry answers.ignored mem events
    exact ⟨c, hc⟩
  obtain ⟨q, found, loop, filled⟩ := fillFrom_filled _ activeChannels nonneg
    (fun k d hd => by rw [owned.fds, owned.keys k d hd]) entry
    (owned.ready_distinct answers.ignored)
  have fill : (p.answered revents).fillActiveChannels numEvents activeChannels =
      .ok (q, activeChannels ++ found) := by
    rw [fillActiveChannels, answers.count]
    exact loop
  refine ⟨q, found, fill, ?_, filled, ?_⟩
  · rw [Poller.poll]
    split
    · exact fill
    · rename_i quiet
      rw [← fill, fillActiveChannels, fillFrom_done _ _ _ quiet]
  · intro c mem
    have listed := List.mem_map_of_mem (f := some) mem
    rw [filled.entries] at listed
    obtain ⟨pfd, hpfd, entry⟩ := List.mem_map.mp listed
    obtain ⟨inside, events⟩ := List.mem_filter.mp hpfd
    obtain ⟨d, hd, hfd, slot⟩ :=
      owned.ready_entry answers.ignored inside (of_decide_eq_true events)
    rw [entry] at hd
    cases hd
    refine ⟨pfd, hpfd, ?_, ?_, filled.revents pfd hpfd c entry⟩
    · simp only [slot?, filled.pollfds]
      rw [filled.still c]
      exact slot
    · rw [filled.still c]
      exact hfd.symm

/-- Two channels have events, a third is disabled between them. -/
theorem fillActiveChannels_exact_three :
    ∃ p q, run step (empty fun c : Fin 3 => 7 + c.val)
        [(.enableReading, 0), (.enableReading, 1), (.enableWriteing, 2), (.disableAll, 1)] =
          .ok p ∧
      (p.answered [1, 0, 4]).fillActiveChannels 2 [] = .ok (q, [0, 2]) ∧
      (q.chan 0).revents = 1 ∧ (q.chan 2).revents = 4 := by
  have inj : Function.Injective (fun c : Fin 3 => 7 + c.val) := by
    intro a b same
    exact Fin.ext (by simpa using same)
  obtain ⟨p, ran, slots, first, third⟩ :
      ∃ p, run step (empty fun c : Fin 3 => 7 + c.val)
          [(.enableReading, 0), (.enableReading, 1), (.enableWriteing, 2), (.disableAll, 1)] =
            .ok p ∧
        p.pollfds = [⟨7, 3, 0⟩, ⟨-1, 0, 0⟩, ⟨9, 4, 0⟩] ∧
        p.channels 7 = some 0 ∧ p.channels 9 = some 2 := ⟨_, rfl, rfl, rfl, rfl⟩
  have written : (p.answered [1, 0, 4]).pollfds = [⟨7, 3, 1⟩, ⟨-1, 0, 0⟩, ⟨9, 4, 4⟩] := by
    simp [answered, slots]
  have events : (p.answered [1, 0, 4]).ready = [⟨7, 3, 1⟩, ⟨9, 4, 4⟩] := by
    rw [ready, written]
    rfl
  have answers : p.Answers 2 [1, 0, 4] := by
    refine ⟨by simp [slots], fun r mem => ?_, fun pfd mem dead => ?_, ?_⟩
    · simp only [List.mem_cons, List.not_mem_nil, or_false] at mem
      rcases mem with rfl | rfl | rfl <;> decide
    · rw [written] at mem
      simp only [List.mem_cons, List.not_mem_nil, or_false] at mem
      rcases mem with rfl | rfl | rfl
      · exact absurd dead (by decide)
      · rfl
      · exact absurd dead (by decide)
    · rw [events]
      rfl
  obtain ⟨q, found, fill, _, filled, _⟩ := fillActiveChannels_exact inj ⟨_, ran⟩ answers []
  have entries := filled.entries
  rw [events] at filled entries
  have both : found = [0, 2] := by
    apply List.map_injective_iff.mpr (fun _ _ => Option.some.inj)
    rw [entries]
    simp [answered, first, third]
  rw [both] at fill
  refine ⟨p, q, ran, fill, ?_, ?_⟩
  · rw [filled.revents ⟨7, 3, 1⟩ (by simp) 0 first]
    rfl
  · rw [filled.revents ⟨9, 4, 4⟩ (by simp) 2 third]
    rfl

end Poller

end ZDQ
