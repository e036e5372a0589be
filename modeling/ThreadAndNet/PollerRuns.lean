import ThreadAndNet.Poller

/-!
# Runs of the poller

Each registered channel owns one slot of `pollfds_` and each slot has an owner.
The invariant is carried through every run in which only registered channels
are removed. In the states reached, removing a channel touches nothing else
exactly when no disabled slot has to be moved into the gap.
-/

namespace ZDQ.Poller

open Machine
variable {C : Type*}

/-- The representation invariant tying `pollfds_`, `channels_` and `index_`. -/
structure WF (fd : C → Nat) (p : Poller C) : Prop where
  fds : ∀ c, (p.chan c).fd = fd c
  keys : ∀ k c, p.channels k = some c → k = fd c
  slots : ∀ c, p.Registered c → ∃ (i : Nat) (pfd : PollFd),
    (p.chan c).index = i ∧ p.pollfds[i]? = some pfd ∧
    (pfd.fd = fd c ∨ pfd.fd = -1) ∧ pfd.events = (p.chan c).events.setWidth 16
  owners : ∀ i, i < p.pollfds.length → ∃ c, p.Registered c ∧ (p.chan c).index = i
  distinct : ∀ c d, p.Registered c → p.Registered d →
    (p.chan c).index = (p.chan d).index → c = d

/-- A removal that takes away `c`'s slot and `c`'s entry and nothing else: every
other registered channel keeps its entry and its slot's contents, and each
remaining slot still has exactly one owner. -/
structure RemovesExactly [DecidableEq C] (p q : Poller C) (c : C) : Prop where
  entry : q.channels = Function.update p.channels (p.chan c).fd none
  length : q.pollfds.length + 1 = p.pollfds.length
  kept : ∀ d, d ≠ c → p.Registered d →
    q.Registered d ∧ q.slot? d = p.slot? d ∧ (q.slot? d).isSome
  objects : ∀ d, (q.chan d).fd = (p.chan d).fd ∧ (q.chan d).events = (p.chan d).events
  owners : ∀ i, i < q.pollfds.length → ∃ d, q.Registered d ∧ (q.chan d).index = i
  distinct : ∀ d e, q.Registered d → q.Registered e →
    (q.chan d).index = (q.chan e).index → d = e

/-- The removal of `c` moves no slot, or the slot it moves still carries a fd. -/
def MovesLiveSlot (p : Poller C) (c : C) : Prop :=
  (p.chan c).index = (p.pollfds.length : Int) - 1 ∨
    ∀ last, p.pollfds.getLast? = some last → last.fd ≠ -1

/-- The caller's side of `removeChannel`: only a registered channel is removed. -/
def RemovesRegistered (p : Poller C) (a : Op × C) : Prop :=
  a.1 = .remove → p.Registered a.2

/-! ## One removal -/

theorem dropLast_set_last {α : Type*} (l : List α) (a : α) :
    (l.set (l.length - 1) a).dropLast = l.dropLast := by
  apply List.ext_getElem?
  intro i
  simp only [List.getElem?_dropLast, List.length_set]
  by_cases hi : i < l.length - 1
  · simp only [hi, if_true]
    rw [List.getElem?_set_ne (by omega)]
  · simp only [hi, if_false]

theorem WF.registered_iff {fd : C → Nat} {p : Poller C} (wf : WF fd p) (c : C) :
    p.Registered c ↔ p.channels (fd c) = some c := by
  rw [Registered, wf.fds c]

/-- A slot overwritten with -1 is the key of no registered channel. -/
theorem WF.no_negative_key {fd : C → Nat} {p : Poller C} (wf : WF fd p) :
    p.channels (-1) = none := by
  cases h : p.channels (-1) with
  | none => rfl
  | some c =>
    have key := wf.keys _ _ h
    omega

theorem WF.last_slot {fd : C → Nat} {p : Poller C} (wf : WF fd p)
    (slots : 0 < p.pollfds.length) : ∃ last d, p.pollfds.getLast? = some last ∧
      p.Registered d ∧ (p.chan d).index = ((p.pollfds.length - 1 : Nat) : Int) ∧
      (last.fd = fd d ∨ last.fd = -1) := by
  obtain ⟨d, hd, hdi⟩ := wf.owners (p.pollfds.length - 1) (by omega)
  obtain ⟨j, last, hj, hlast, hfd, _⟩ := wf.slots d hd
  have same : j = p.pollfds.length - 1 := by omega
  subst same
  exact ⟨last, d, by rw [List.getLast?_eq_getElem?]; exact hlast, hd, hj, hfd⟩

variable [DecidableEq C]

/-- What is left once `c` gave up the last slot. -/
def dropLastSlot (p : Poller C) (c : C) : Poller C where
  pollfds := p.pollfds.dropLast
  channels := Function.update p.channels (p.chan c).fd none
  chan := p.chan

theorem removeChannel_last {p : Poller C} {c : C}
    (hi : (p.chan c).index = (p.pollfds.length : Int) - 1) (slots : p.pollfds ≠ []) :
    p.removeChannel c = .ok (p.dropLastSlot c) := by
  simp only [removeChannel, hi, if_true, slots, if_false, dropLastSlot]

theorem removeChannel_swap {p : Poller C} {c : C} {i : Nat} {pfd last : PollFd}
    (hi : (p.chan c).index = i) (inner : i + 1 < p.pollfds.length)
    (hpfd : p.pollfds[i]? = some pfd) (hlast : p.pollfds.getLast? = some last) :
    p.removeChannel c = setIndexAt
      { pollfds := (p.pollfds.set i last).dropLast
        channels := Function.update p.channels (p.chan c).fd none
        chan := p.chan } last.fd i := by
  have notLast : ¬ ((i : Int) = (p.pollfds.length : Int) - 1) := by omega
  have nonneg : ¬ ((i : Int) < 0) := by omega
  have length : p.pollfds.length = (p.pollfds.set i last).length := by simp
  simp only [removeChannel, hi, notLast, if_false, nonneg, Int.toNat_natCast, hpfd, hlast]
  rw [length, dropLast_set_last]

/-- What is left once `c`'s slot `i` has been filled with `d`'s, the last one. -/
def fillGap (p : Poller C) (c d : C) (i : Nat) (last : PollFd) : Poller C where
  pollfds := (p.pollfds.set i last).dropLast
  channels := Function.update p.channels (p.chan c).fd none
  chan := Function.update p.chan d ((p.chan d).setIndex i)

section FillGap
variable (p : Poller C) (c d : C) (i : Nat) (last : PollFd)

@[simp] theorem fillGap_chan_self :
    (p.fillGap c d i last).chan d = (p.chan d).setIndex i :=
  Function.update_self _ _ _

theorem fillGap_chan_other {e : C} (he : e ≠ d) :
    (p.fillGap c d i last).chan e = p.chan e :=
  Function.update_of_ne he _ _

theorem fillGap_objects (e : C) :
    ((p.fillGap c d i last).chan e).fd = (p.chan e).fd ∧
      ((p.fillGap c d i last).chan e).events = (p.chan e).events := by
  by_cases he : e = d
  · subst he
    rw [fillGap_chan_self]
    exact ⟨rfl, rfl⟩
  · rw [fillGap_chan_other p c d i last he]
    exact ⟨rfl, rfl⟩

theorem fillGap_length (slots : 0 < p.pollfds.length) :
    (p.fillGap c d i last).pollfds.length + 1 = p.pollfds.length := by
  simp only [fillGap, List.length_dropLast, List.length_set]
  omega

theorem fillGap_gap (inner : i + 1 < p.pollfds.length) :
    (p.fillGap c d i last).pollfds[i]? = some last := by
  simp only [fillGap]
  rw [List.getElem?_dropLast, List.length_set, if_pos (by omega),
    List.getElem?_set_self (by omega)]

theorem fillGap_elsewhere {k : Nat} (hk : k < p.pollfds.length - 1) (hki : k ≠ i) :
    (p.fillGap c d i last).pollfds[k]? = p.pollfds[k]? := by
  simp only [fillGap]
  rw [List.getElem?_dropLast, List.length_set, if_pos hk,
    List.getElem?_set_ne (by omega)]

theorem fillGap_index_self : ((p.fillGap c d i last).chan d).index = i := by
  rw [fillGap_chan_self]
  rfl

theorem fillGap_index_other {e : C} (he : e ≠ d) :
    ((p.fillGap c d i last).chan e).index = (p.chan e).index := by
  rw [fillGap_chan_other p c d i last he]

end FillGap

/-- Erasing the entry of `c` unregisters `c` and nobody else. -/
theorem WF.registered_erase {fd : C → Nat} (inj : Function.Injective fd)
    {p q : Poller C} (wf : WF fd p) {c : C}
    (entry : q.channels = Function.update p.channels (p.chan c).fd none)
    (objects : ∀ e, (q.chan e).fd = (p.chan e).fd) (e : C) :
    q.Registered e ↔ e ≠ c ∧ p.Registered e := by
  rw [Registered, objects, entry]
  by_cases he : e = c
  · subst he
    simp
  · have key : ((p.chan e).fd : Int) ≠ (p.chan c).fd := by
      rw [wf.fds, wf.fds]
      intro h
      exact he (inj (by exact_mod_cast h))
    rw [Function.update_of_ne key]
    exact ⟨fun h => ⟨he, h⟩, fun h => h.2⟩

/-- A channel other than `c` and `d` owns a slot that is neither moved nor dropped. -/
theorem WF.fillGap_stays {fd : C → Nat} {p : Poller C} (wf : WF fd p) {c d : C}
    (hc : p.Registered c) (hd : p.Registered d) {i : Nat} (hi : (p.chan c).index = i)
    (hdi : (p.chan d).index = ((p.pollfds.length - 1 : Nat) : Int)) (last : PollFd) {e : C}
    (hec : e ≠ c) (hed : e ≠ d) (he : p.Registered e) :
    ∃ (k : Nat) (pfd : PollFd), (p.chan e).index = k ∧ p.pollfds[k]? = some pfd ∧
      (p.fillGap c d i last).pollfds[k]? = some pfd := by
  obtain ⟨k, pfd, hk, hpfd, _⟩ := wf.slots e he
  obtain ⟨hlt, _⟩ := List.getElem?_eq_some_iff.mp hpfd
  have notLast : k ≠ p.pollfds.length - 1 := fun h =>
    hed (wf.distinct e d he hd (by rw [hk, hdi, h]))
  have notGap : k ≠ i := fun h => hec (wf.distinct e c he hc (by rw [hk, hi, h]))
  refine ⟨k, pfd, hk, hpfd, ?_⟩
  rw [fillGap_elsewhere p c d i last (by omega) notGap]
  exact hpfd

/-- The owner of the last slot is the only channel whose index the swap rewrites. -/
theorem WF.fillGap_exact {fd : C → Nat} (inj : Function.Injective fd)
    {p : Poller C} (wf : WF fd p) {c d : C} (hc : p.Registered c) (hd : p.Registered d)
    {i : Nat} (hi : (p.chan c).index = i) (inner : i + 1 < p.pollfds.length)
    (hdi : (p.chan d).index = ((p.pollfds.length - 1 : Nat) : Int))
    {last : PollFd} (hlast : p.pollfds.getLast? = some last) :
    RemovesExactly p (p.fillGap c d i last) c := by
  have hdc : d ≠ c := by
    intro h
    subst h
    omega
  have reg := wf.registered_erase inj (q := p.fillGap c d i last) rfl
    (fun e => (fillGap_objects p c d i last e).1)
  have indexD := fillGap_index_self p c d i last
  have indexOf : ∀ e, e ≠ d →
      ((p.fillGap c d i last).chan e).index = (p.chan e).index :=
    fun e => fillGap_index_other p c d i last
  constructor
  · rfl
  · exact fillGap_length p c d i last (by omega)
  · intro e hec he
    refine ⟨(reg e).mpr ⟨hec, he⟩, ?_⟩
    by_cases hed : e = d
    · subst hed
      have old : p.slot? e = some last := by
        rw [slot?_of_index hdi, ← List.getLast?_eq_getElem?]
        exact hlast
      have new : (p.fillGap c e i last).slot? e = some last := by
        rw [slot?_of_index indexD]
        exact fillGap_gap p c e i last inner
      exact ⟨new.trans old.symm, by rw [new]; rfl⟩
    · obtain ⟨k, pfd, hk, hpfd, hnew⟩ := wf.fillGap_stays hc hd hi hdi last hec hed he
      have hkq : ((p.fillGap c d i last).chan e).index = k := by rw [indexOf e hed, hk]
      rw [slot?_of_index hk, slot?_of_index hkq, hnew, hpfd]
      exact ⟨rfl, rfl⟩
  · exact fillGap_objects p c d i last
  · intro k hk
    have length := fillGap_length p c d i last (by omega)
    by_cases hki : k = i
    · exact ⟨d, (reg d).mpr ⟨hdc, hd⟩, by rw [indexD, hki]⟩
    · obtain ⟨e, he, hek⟩ := wf.owners k (by omega)
      have hed : e ≠ d := by
        intro h
        subst h
        omega
      have hec : e ≠ c := by
        intro h
        subst h
        omega
      exact ⟨e, (reg e).mpr ⟨hec, he⟩, by rw [indexOf e hed, hek]⟩
  · intro e f hqe hqf same
    obtain ⟨hec, he⟩ := (reg e).mp hqe
    obtain ⟨hfc, hf⟩ := (reg f).mp hqf
    by_cases hed : e = d <;> by_cases hfd : f = d
    · rw [hed, hfd]
    · subst hed
      rw [indexD, indexOf f hfd] at same
      exact False.elim (hfc (wf.distinct f c hf hc (by rw [← same, hi])))
    · subst hfd
      rw [indexD, indexOf e hed] at same
      exact False.elim (hec (wf.distinct e c he hc (by rw [same, hi])))
    · rw [indexOf e hed, indexOf f hfd] at same
      exact wf.distinct e f he hf same

/-- Removing the owner of the last slot only shortens the vector. -/
theorem WF.dropLastSlot_exact {fd : C → Nat} (inj : Function.Injective fd)
    {p : Poller C} (wf : WF fd p) {c : C} (hc : p.Registered c)
    (hi : (p.chan c).index = (p.pollfds.length : Int) - 1) :
    RemovesExactly p (p.dropLastSlot c) c := by
  obtain ⟨i, pfd, hci, hpfd, _⟩ := wf.slots c hc
  obtain ⟨hlt, _⟩ := List.getElem?_eq_some_iff.mp hpfd
  have reg := wf.registered_erase inj (q := p.dropLastSlot c) rfl (fun _ => rfl)
  constructor
  · rfl
  · simp only [dropLastSlot, List.length_dropLast]
    omega
  · intro e hec he
    obtain ⟨k, pfd', hk, hpfd', _⟩ := wf.slots e he
    obtain ⟨hklt, _⟩ := List.getElem?_eq_some_iff.mp hpfd'
    have notLast : k ≠ i := fun h => hec (wf.distinct e c he hc (by rw [hk, hci, h]))
    have new : (p.dropLastSlot c).pollfds[k]? = some pfd' := by
      simp only [dropLastSlot]
      rw [List.getElem?_dropLast, if_pos (by omega)]
      exact hpfd'
    have hkq : ((p.dropLastSlot c).chan e).index = k := hk
    refine ⟨(reg e).mpr ⟨hec, he⟩, ?_⟩
    rw [slot?_of_index hk, slot?_of_index hkq, new, hpfd']
    exact ⟨rfl, rfl⟩
  · exact fun _ => ⟨rfl, rfl⟩
  · intro k hk
    simp only [dropLastSlot, List.length_dropLast] at hk
    obtain ⟨e, he, hek⟩ := wf.owners k (by omega)
    have hec : e ≠ c := by
      intro h
      subst h
      omega
    exact ⟨e, (reg e).mpr ⟨hec, he⟩, hek⟩
  · intro e f hqe hqf same
    exact wf.distinct e f ((reg e).mp hqe).2 ((reg f).mp hqf).2 same

theorem RemovesExactly.wf {fd : C → Nat} (inj : Function.Injective fd) {p q : Poller C}
    {c : C} (exact : RemovesExactly p q c) (wf : WF fd p) : WF fd q := by
  have reg := wf.registered_erase inj exact.entry (fun e => (exact.objects e).1)
  constructor
  · intro e
    rw [(exact.objects e).1, wf.fds]
  · intro k e hk
    rw [exact.entry] at hk
    by_cases hkc : k = (p.chan c).fd
    · subst hkc
      simp at hk
    · rw [Function.update_of_ne hkc] at hk
      exact wf.keys k e hk
  · intro e hqe
    obtain ⟨hec, he⟩ := (reg e).mp hqe
    obtain ⟨k, pfd, hk, hpfd, hfd, hev⟩ := wf.slots e he
    have same := (exact.kept e hec he).2.1
    rw [slot?_of_index hk, hpfd] at same
    obtain ⟨j, hj, hjq⟩ := index_of_slot? same
    exact ⟨j, pfd, hj, hjq, hfd, by rw [hev, (exact.objects e).2]⟩
  · exact exact.owners
  · exact exact.distinct

/-- A slot overwritten with -1 cannot be moved: its channel is looked up under -1. -/
theorem WF.removeChannel_dead {fd : C → Nat} {p : Poller C} (wf : WF fd p) {c : C}
    (hc : p.Registered c) (dead : ¬ p.MovesLiveSlot c) :
    p.removeChannel c = .error .undefined := by
  obtain ⟨i, pfd, hi, hpfd, _⟩ := wf.slots c hc
  have hlt := (List.getElem?_eq_some_iff.mp hpfd).1
  obtain ⟨notEnd, dead⟩ := not_or.mp dead
  obtain ⟨last, dead⟩ := not_forall.mp dead
  obtain ⟨hlast, dead⟩ := Classical.not_imp.mp dead
  have notKey : ((p.chan c).fd : Int) ≠ -1 := by omega
  have missing : Function.update p.channels (p.chan c).fd none (-1) = none := by
    rw [Function.update_of_ne notKey.symm]
    exact wf.no_negative_key
  rw [removeChannel_swap hi (by omega) hpfd hlast, not_not.mp dead]
  simp only [setIndexAt, missing]

/-- Exactly when a registered channel can be removed without touching another. -/
theorem WF.removeChannel_exact_iff {fd : C → Nat} (inj : Function.Injective fd)
    {p : Poller C} (wf : WF fd p) {c : C} (hc : p.Registered c) :
    (∃ q, p.removeChannel c = .ok q ∧ RemovesExactly p q c) ↔ p.MovesLiveSlot c := by
  constructor
  · rintro ⟨q, hq, _⟩
    by_contra dead
    cases hq.symm.trans (wf.removeChannel_dead hc dead)
  intro moves
  obtain ⟨i, pfd, hi, hpfd, _⟩ := wf.slots c hc
  obtain ⟨hlt, _⟩ := List.getElem?_eq_some_iff.mp hpfd
  by_cases atEnd : (p.chan c).index = (p.pollfds.length : Int) - 1
  · have slots : p.pollfds ≠ [] := List.ne_nil_of_length_pos (by omega)
    exact ⟨_, removeChannel_last atEnd slots, wf.dropLastSlot_exact inj hc atEnd⟩
  obtain ⟨last, d, hlast, hd, hdi, hfd⟩ := wf.last_slot (by omega)
  have live : last.fd = fd d := hfd.resolve_right (moves.resolve_left atEnd last hlast)
  have inner : i + 1 < p.pollfds.length := by omega
  have hdc : d ≠ c := by
    intro h
    subst h
    omega
  have reg := wf.registered_erase inj
    (q := ⟨p.pollfds, Function.update p.channels (p.chan c).fd none, p.chan⟩)
    rfl (fun _ => rfl)
  have entry : Function.update p.channels (p.chan c).fd none last.fd = some d := by
    have h := (reg d).mpr ⟨hdc, hd⟩
    rw [Registered] at h
    simpa only [live, wf.fds] using h
  have ok : p.removeChannel c = .ok (p.fillGap c d i last) := by
    rw [removeChannel_swap hi inner hpfd hlast]
    simp only [setIndexAt, entry]
    rfl
  exact ⟨_, ok, wf.fillGap_exact inj hc hd hi inner hdi hlast⟩

/-! ## Whole runs -/

/-- The state after a first registration. -/
def register (p : Poller C) (c : C) (ch : Channel) : Poller C where
  pollfds := p.pollfds ++ [⟨ch.fd, ch.events.setWidth 16, 0⟩]
  channels := Function.update p.channels ch.fd (some c)
  chan := Function.update p.chan c (ch.setIndex p.pollfds.length)

/-- The state after the slot of a registered channel was rewritten. -/
def rewriteSlot (p : Poller C) (c : C) (ch : Channel) (pfd : PollFd) : Poller C where
  pollfds := p.pollfds.set ch.index.toNat
    ⟨if ch.isNoneEvent then -1 else pfd.fd, ch.events.setWidth 16, 0⟩
  channels := p.channels
  chan := Function.update p.chan c ch

section UpdateChannel
variable {p q : Poller C} {c : C} {ch : Channel}

/-- What `updateChannel` can do once the channel asks for other events: register, or rewrite
its slot. -/
theorem updateChannel_cases (hfd : ch.fd = (p.chan c).fd) (hidx : ch.index = (p.chan c).index)
    (h : ({ p with chan := Function.update p.chan c ch } : Poller C).updateChannel c = .ok q) :
    ((p.chan c).index < 0 ∧ p.channels (p.chan c).fd = none ∧ q = p.register c ch) ∨
    (p.Registered c ∧ ∃ pfd, p.slot? c = some pfd ∧ q = p.rewriteSlot c ch pfd) := by
  simp only [updateChannel, Function.update_self, hidx, hfd, Function.update_idem] at h
  split at h
  · rename_i neg
    split at h
    · cases h
    · rename_i absent
      left
      refine ⟨neg, not_not.mp absent, ?_⟩
      rw [← Except.ok.inj h]
      simp only [register, hfd]
  · rename_i notNeg
    split at h
    · cases h
    · rename_i present
      split at h
      · cases h
      · rename_i pfd hpfd
        right
        refine ⟨not_not.mp present, pfd, ?_, ?_⟩
        · simp only [slot?, notNeg, if_false, hpfd]
        · rw [← Except.ok.inj h]
          simp only [rewriteSlot, hidx]

/-- The other half of `updateChannel_cases`. -/
theorem updateChannel_ok (hfd : ch.fd = (p.chan c).fd) (hidx : ch.index = (p.chan c).index)
    (h : (p.chan c).index < 0 ∧ p.channels (p.chan c).fd = none ∨
      p.Registered c ∧ ∃ pfd, p.slot? c = some pfd) :
    ∃ q, ({ p with chan := Function.update p.chan c ch } : Poller C).updateChannel c = .ok q := by
  simp only [updateChannel, Function.update_self, hidx, hfd]
  rcases h with ⟨neg, absent⟩ | ⟨registered, pfd, slot⟩
  · simp [neg, absent]
  · obtain ⟨i, hi, at_i⟩ := index_of_slot? slot
    have present : p.channels (p.chan c).fd = some c := registered
    have nonneg : ¬ ((i : Int) < 0) := by omega
    simp [hi, nonneg, present, at_i]

theorem step_update {op : Op} (hop : op ≠ .remove) : p.step (op, c) =
    ({ p with chan := Function.update p.chan c (op.interest (p.chan c)) } :
      Poller C).updateChannel c := by
  cases op <;> first | exact absurd rfl hop | rfl

/-- What an operation other than `remove` can do. -/
theorem update_cases {op : Op} (hop : op ≠ .remove) (h : step p (op, c) = .ok q) :
    ((p.chan c).index < 0 ∧ p.channels (p.chan c).fd = none ∧
      q = p.register c (op.interest (p.chan c))) ∨
    (p.Registered c ∧ ∃ pfd, p.slot? c = some pfd ∧
      q = p.rewriteSlot c (op.interest (p.chan c)) pfd) := by
  rw [step_update hop] at h
  exact updateChannel_cases (Op.interest_fd _ _) (Op.interest_index _ _) h

/-- The other half of `update_cases`. -/
theorem update_ok {op : Op} (hop : op ≠ .remove)
    (h : (p.chan c).index < 0 ∧ p.channels (p.chan c).fd = none ∨
      p.Registered c ∧ ∃ pfd, p.slot? c = some pfd) : ∃ q, p.step (op, c) = .ok q := by
  rw [step_update hop]
  exact updateChannel_ok (Op.interest_fd _ _) (Op.interest_index _ _) h

end UpdateChannel

omit [DecidableEq C] in
/-- With distinct descriptors, the entry of a channel is its own or missing. -/
theorem WF.absent_of_unregistered {fd : C → Nat} (inj : Function.Injective fd) {p : Poller C}
    (wf : WF fd p) {c : C} (unregistered : ¬ p.Registered c) :
    p.channels (p.chan c).fd = none := by
  cases key : p.channels (p.chan c).fd with
  | none => rfl
  | some d =>
    have same := wf.keys _ _ key
    rw [wf.fds] at same
    have hcd : c = d := inj (by exact_mod_cast same)
    subst hcd
    exact absurd key unregistered

section Register
variable (p : Poller C) (c : C) (ch : Channel)

theorem register_index_self : ((p.register c ch).chan c).index = p.pollfds.length := by
  simp [register, Channel.setIndex]

theorem register_chan_other {e : C} (he : e ≠ c) : (p.register c ch).chan e = p.chan e :=
  Function.update_of_ne he _ _

end Register

theorem register_fds {fd : C → Nat} {p : Poller C} (fds : ∀ e, (p.chan e).fd = fd e) {c : C}
    {ch : Channel} (hfd : ch.fd = fd c) (e : C) : ((p.register c ch).chan e).fd = fd e := by
  by_cases hec : e = c
  · subst hec
    simpa [Poller.register, Channel.setIndex] using hfd
  · rw [register_chan_other p c ch hec, fds]

theorem register_keys {fd : C → Nat} {p : Poller C}
    (keys : ∀ k e, p.channels k = some e → k = fd e) {c : C} {ch : Channel}
    (hfd : ch.fd = fd c) (k : Int) (e : C) (hk : (p.register c ch).channels k = some e) :
    k = fd e := by
  by_cases hkc : k = ch.fd
  · subst hkc
    have hce : c = e := by simpa [Poller.register] using hk
    rw [hfd, hce]
  · exact keys k e (by simpa [Poller.register, hkc] using hk)

/-- A first registration registers `c` and nobody else. -/
theorem WF.registered_register {fd : C → Nat} (inj : Function.Injective fd) {p : Poller C}
    (wf : WF fd p) {c : C} {ch : Channel} (hfd : ch.fd = fd c) (e : C) :
    (p.register c ch).Registered e ↔ e = c ∨ p.Registered e := by
  rw [Registered, register_fds wf.fds hfd, wf.registered_iff]
  by_cases hec : e = c
  · subst hec
    simp [Poller.register, hfd]
  · have key : (fd e : Int) ≠ ch.fd := by
      rw [hfd]
      intro h
      exact hec (inj (by exact_mod_cast h))
    simp [Poller.register, Function.update_of_ne key, hec]

theorem WF.register {fd : C → Nat} (inj : Function.Injective fd) {p : Poller C}
    (wf : WF fd p) {c : C} {ch : Channel} (hfd : ch.fd = fd c)
    (absent : p.channels (fd c) = none) : WF fd (p.register c ch) := by
  have fresh : ¬ p.Registered c := by
    rw [wf.registered_iff, absent]
    intro h
    cases h
  have reg := wf.registered_register inj hfd
  have indexC := register_index_self p c ch
  have chanOf : ∀ e, e ≠ c → (p.register c ch).chan e = p.chan e :=
    fun e => register_chan_other p c ch
  have other : ∀ e, p.Registered e → e ≠ c := fun e he h => fresh (h ▸ he)
  have old : ∀ e, p.Registered e → ∃ k : Nat, (p.chan e).index = k ∧
      k < p.pollfds.length := by
    intro e he
    obtain ⟨k, pfd, hk, hpfd, _⟩ := wf.slots e he
    exact ⟨k, hk, (List.getElem?_eq_some_iff.mp hpfd).1⟩
  constructor
  · exact register_fds wf.fds hfd
  · exact register_keys wf.keys hfd
  · intro e he
    rcases (reg e).mp he with hec | he
    · subst hec
      refine ⟨p.pollfds.length, ⟨ch.fd, ch.events.setWidth 16, 0⟩, indexC, ?_,
        Or.inl (by rw [hfd]), ?_⟩
      · simp [Poller.register]
      · simp [Poller.register, Channel.setIndex]
    · obtain ⟨k, pfd, hk, hpfd, hrest⟩ := wf.slots e he
      have hlt := (List.getElem?_eq_some_iff.mp hpfd).1
      refine ⟨k, pfd, ?_, ?_, ?_⟩
      · rw [chanOf e (other e he), hk]
      · simp only [Poller.register]
        rw [List.getElem?_append_left hlt]
        exact hpfd
      · rw [chanOf e (other e he)]
        exact hrest
  · intro i hi
    simp only [Poller.register, List.length_append, List.length_singleton] at hi
    by_cases hlast : i = p.pollfds.length
    · exact ⟨c, (reg c).mpr (Or.inl rfl), by rw [indexC, hlast]⟩
    · obtain ⟨e, he, hei⟩ := wf.owners i (by omega)
      exact ⟨e, (reg e).mpr (Or.inr he), by rw [chanOf e (other e he), hei]⟩
  · intro e f he hf same
    rcases (reg e).mp he with hec | he <;> rcases (reg f).mp hf with hfc | hf
    · rw [hec, hfc]
    · obtain ⟨k, hk, hlt⟩ := old f hf
      rw [hec, indexC, chanOf f (other f hf)] at same
      omega
    · obtain ⟨k, hk, hlt⟩ := old e he
      rw [hfc, indexC, chanOf e (other e he)] at same
      omega
    · rw [chanOf e (other e he), chanOf f (other f hf)] at same
      exact wf.distinct e f he hf same

theorem rewriteSlot_fd {p : Poller C} {c : C} {ch : Channel} (hfd : ch.fd = (p.chan c).fd)
    (pfd : PollFd) (e : C) : ((p.rewriteSlot c ch pfd).chan e).fd = (p.chan e).fd := by
  by_cases hec : e = c
  · subst hec
    simpa [Poller.rewriteSlot] using hfd
  · simp [Poller.rewriteSlot, hec]

theorem rewriteSlot_index {p : Poller C} {c : C} {ch : Channel}
    (hidx : ch.index = (p.chan c).index) (pfd : PollFd) (e : C) :
    ((p.rewriteSlot c ch pfd).chan e).index = (p.chan e).index := by
  by_cases hec : e = c
  · subst hec
    simpa [Poller.rewriteSlot] using hidx
  · simp [Poller.rewriteSlot, hec]

theorem WF.rewriteSlot {fd : C → Nat} {p : Poller C} (wf : WF fd p) {c : C}
    {ch : Channel} (hfd : ch.fd = (p.chan c).fd) (hidx : ch.index = (p.chan c).index)
    (hc : p.Registered c) {pfd : PollFd} (hslot : p.slot? c = some pfd) :
    WF fd (p.rewriteSlot c ch pfd) := by
  have indexOf := rewriteSlot_index hidx pfd
  have fds : ∀ e, ((p.rewriteSlot c ch pfd).chan e).fd = fd e :=
    fun e => (rewriteSlot_fd hfd pfd e).trans (wf.fds e)
  have reg : ∀ e, (p.rewriteSlot c ch pfd).Registered e ↔ p.Registered e := by
    intro e
    rw [Registered, fds, wf.registered_iff]
    rfl
  obtain ⟨i, hi, hpfd⟩ := index_of_slot? hslot
  have hlt := (List.getElem?_eq_some_iff.mp hpfd).1
  have position : ch.index.toNat = i := by omega
  constructor
  · exact fds
  · exact wf.keys
  · intro e he
    obtain ⟨k, pfd', hk, hpfd', hfd', hev⟩ := wf.slots e ((reg e).mp he)
    by_cases hec : e = c
    · subst hec
      have hki : k = i := by omega
      subst hki
      cases hpfd.symm.trans hpfd'
      refine ⟨k, ⟨if ch.isNoneEvent then -1 else pfd.fd, ch.events.setWidth 16, 0⟩,
        by rw [indexOf, hk], ?_, ?_, ?_⟩
      · simp only [Poller.rewriteSlot, position]
        rw [List.getElem?_set_self hlt]
      · split
        · exact Or.inr rfl
        · exact hfd'
      · simp [Poller.rewriteSlot]
    · have hki : i ≠ k := fun h =>
        hec (wf.distinct e c ((reg e).mp he) hc (by rw [hk, hi, h]))
      refine ⟨k, pfd', by rw [indexOf, hk], ?_, hfd', ?_⟩
      · simp only [Poller.rewriteSlot, position]
        rw [List.getElem?_set_ne hki]
        exact hpfd'
      · simpa [Poller.rewriteSlot, hec] using hev
  · intro k hk
    simp only [Poller.rewriteSlot, List.length_set] at hk
    obtain ⟨e, he, hek⟩ := wf.owners k hk
    exact ⟨e, (reg e).mpr he, by rw [indexOf, hek]⟩
  · intro e f he hf same
    rw [indexOf, indexOf] at same
    exact wf.distinct e f ((reg e).mp he) ((reg f).mp hf) same

theorem remove_cases {p q : Poller C} {c : C} (h : step p (.remove, c) = .ok q) :
    (p.chan c).isNoneEvent ∧ p.removeChannel c = .ok q := by
  simp only [step] at h
  split at h
  · rename_i none
    exact ⟨none, h⟩
  · cases h

/-- A removal that does not crash moved a live slot, so it was exact. -/
theorem WF.remove_exact {fd : C → Nat} (inj : Function.Injective fd) {p q : Poller C}
    (wf : WF fd p) {c : C} (hc : p.Registered c) (h : p.removeChannel c = .ok q) :
    RemovesExactly p q c := by
  have live : p.MovesLiveSlot c := by
    by_contra dead
    cases h.symm.trans (wf.removeChannel_dead hc dead)
  obtain ⟨r, hr, exact⟩ := (wf.removeChannel_exact_iff inj hc).mpr live
  cases h.symm.trans hr
  exact exact

theorem WF.updateChannel {fd : C → Nat} (inj : Function.Injective fd) {p q : Poller C}
    (wf : WF fd p) {c : C} {ch : Channel} (hfd : ch.fd = (p.chan c).fd)
    (hidx : ch.index = (p.chan c).index)
    (h : ({ p with chan := Function.update p.chan c ch } : Poller C).updateChannel c = .ok q) :
    WF fd q := by
  rcases updateChannel_cases hfd hidx h with ⟨_, absent, rfl⟩ | ⟨hc, pfd, hslot, rfl⟩
  · rw [wf.fds] at absent
    exact wf.register inj (by rw [hfd, wf.fds]) absent
  · exact wf.rewriteSlot hfd hidx hc hslot

theorem WF.step {fd : C → Nat} (inj : Function.Injective fd) {p q : Poller C}
    (wf : WF fd p) {a : Op × C} (caller : p.RemovesRegistered a)
    (h : p.step a = .ok q) : WF fd q := by
  obtain ⟨op, c⟩ := a
  by_cases hop : op = .remove
  · subst hop
    exact (wf.remove_exact inj (caller rfl) (remove_cases h).2).wf inj wf
  · rw [step_update hop] at h
    exact wf.updateChannel inj (Op.interest_fd _ _) (Op.interest_index _ _) h

omit [DecidableEq C] in
theorem WF.empty (fd : C → Nat) : WF fd (Poller.empty fd) := by
  constructor
  · exact fun _ => rfl
  · intro k c h
    cases h
  · intro c h
    cases h
  · intro i h
    simp [Poller.empty] at h
  · intro c d h
    cases h

/-- In every state reached by a run that removes registered channels only, a
registered channel is removed without touching any other exactly when its own
slot is the last one or the last slot has not been overwritten with -1. -/
theorem removeChannel_exact_in_runs {fd : C → Nat} (inj : Function.Injective fd)
    {p : Poller C} (reached : ReachesBy step RemovesRegistered (Poller.empty fd) p)
    {c : C} (hc : p.Registered c) :
    (∃ q, p.removeChannel c = .ok q ∧ RemovesExactly p q c) ↔ p.MovesLiveSlot c := by
  have wf : WF fd p :=
    reached.keeps (fun _ _ _ wf caller h => wf.step inj caller h) (WF.empty fd)
  exact wf.removeChannel_exact_iff inj hc

/-- Two channels closed in one iteration, removed newest first. -/
theorem removeChannel_exact_in_runs_newest_first :
    ∃ p : Poller Bool, (∃ q, p.removeChannel true = .ok q ∧ RemovesExactly p q true) ∧
      p.pollfds = [⟨-1, 0, 0⟩, ⟨-1, 0, 0⟩] := by
  have inj : Function.Injective (fun c : Bool => if c then 8 else 7) := by
    intro a b
    cases a <;> cases b <;> simp
  refine ⟨_, (removeChannel_exact_in_runs inj
    ⟨[(.enableReading, false), (.enableReading, true), (.disableAll, false),
      (.disableAll, true)], ?_, rfl⟩ ?_).mpr ?_, ?_⟩
  · apply along_of_mem
    intro a ha p remove
    simp only [List.mem_cons, List.not_mem_nil, or_false] at ha
    rcases ha with rfl | rfl | rfl | rfl <;> cases remove
  · rfl
  · exact Or.inl rfl
  · rfl

/-- Two channels closed in one iteration, removed oldest first: the last slot
holds -1 and the missing entry is looked up. -/
theorem removeChannel_two_closed_crashes :
    ∃ p : Poller Bool, run step (Poller.empty fun c => if c then 8 else 7)
        [(.enableReading, false), (.enableReading, true), (.disableAll, false),
          (.disableAll, true)] = .ok p ∧
      p.Registered false ∧ p.Registered true ∧ (p.chan false).isNoneEvent ∧
      ¬ ∃ q, p.removeChannel false = .ok q ∧ RemovesExactly p q false := by
  refine ⟨_, rfl, rfl, rfl, rfl, ?_⟩
  rintro ⟨q, hq, _⟩
  cases hq

end ZDQ.Poller
