import ThreadAndNet.PollerRuns

/-!
# The poller as one channel sees it

What `poll` is told about a channel is a function of that channel's own history:
its updates and its removal, whatever other channels do meanwhile. This is the
view the connections of a server are modelled over; the poller refines it in
every run that removes registered channels only.
-/

namespace ZDQ

/-- The poller's record of one channel: whether its `index_` was ever set, and
the contents of its slot while it has one. -/
structure Registration where
  indexed : Bool
  slot : Option PollFd
deriving DecidableEq

namespace Registration

def fresh : Registration := ⟨false, none⟩

/-- `Poller::updateChannel` on this channel. -/
def update (r : Registration) (ch : Channel) : Except Failure Registration :=
  if r.indexed then
    match r.slot with
    | none => .error .assertion
    | some pfd => .ok ⟨true, some
        ⟨if ch.isNoneEvent then -1 else pfd.fd, ch.events.setWidth 16, 0⟩⟩
  else .ok ⟨true, some ⟨ch.fd, ch.events.setWidth 16, 0⟩⟩

/-- `Poller::removeChannel` on this channel. Where another channel is disabled and in the last
slot, the call looks up `channels_[-1]` and crashes; a channel on its own does not show that,
the pollers of a whole server do. -/
def remove (r : Registration) : Except Failure Registration :=
  match r.slot with
  | none => .error .undefined
  | some _ => .ok { r with slot := none }

/-- `poll` looks at a slot only while its descriptor is not negative. -/
def Watched (r : Registration) : Prop := ∃ pfd, r.slot = some pfd ∧ 0 ≤ pfd.fd

instance (r : Registration) : Decidable r.Watched :=
  match h : r.slot with
  | none => .isFalse (by simp [Watched, h])
  | some pfd => decidable_of_iff (0 ≤ pfd.fd) (by simp [Watched, h])

/-- An unwatched channel with an index stays unwatched whatever is enabled on it. -/
theorem update_unwatched {r s : Registration} {ch : Channel} (h : r.update ch = .ok s)
    (indexed : r.indexed) (unwatched : ¬ r.Watched) : s.indexed ∧ ¬ s.Watched := by
  simp only [update, indexed, if_true] at h
  split at h
  · cases h
  · rename_i pfd hslot
    cases h
    refine ⟨rfl, ?_⟩
    rintro ⟨pfd', hpfd', live⟩
    cases hpfd'
    apply unwatched
    refine ⟨pfd, hslot, ?_⟩
    dsimp only at live
    split at live
    · omega
    · exact live

theorem update_indexed {r s : Registration} {ch : Channel} (h : r.update ch = .ok s) :
    s.indexed := by
  simp only [update] at h
  split at h
  · split at h
    · cases h
    · cases h
      rfl
  · cases h
    rfl

/-- Disabling a channel that is registered takes its slot out of the poll set. -/
theorem update_none_unwatched {r s : Registration} {ch : Channel}
    (h : r.update ch = .ok s) (indexed : r.indexed) (none : ch.isNoneEvent) :
    ¬ s.Watched := by
  simp only [update, indexed, if_true, none] at h
  split at h
  · cases h
  · cases h
    rintro ⟨pfd', hpfd', live⟩
    cases hpfd'
    dsimp only at live
    omega

theorem remove_cases {r s : Registration} (h : r.remove = .ok s) :
    s.indexed = r.indexed ∧ s.slot = none := by
  simp only [remove] at h
  split at h
  · cases h
  · cases h
    exact ⟨rfl, rfl⟩

end Registration

namespace Poller
variable {C : Type*} [DecidableEq C]

def registration (p : Poller C) (c : C) : Registration where
  indexed := 0 ≤ (p.chan c).index
  slot := if p.Registered c then p.slot? c else none

theorem WF.registration_self {fd : C → Nat} {p : Poller C} (wf : WF fd p) {c : C}
    (hc : p.Registered c) :
    ∃ pfd, p.slot? c = some pfd ∧ p.registration c = ⟨true, some pfd⟩ := by
  obtain ⟨i, pfd, hi, hpfd, _⟩ := wf.slots c hc
  have slot := (slot?_of_index hi).trans hpfd
  have nonneg : 0 ≤ (p.chan c).index := by omega
  exact ⟨pfd, slot, by simp [registration, hc, slot, nonneg]⟩

/-- Two states agree on a channel that keeps its index, its entry and its slot. -/
theorem registration_congr {p q : Poller C} {d : C}
    (sign : 0 ≤ (q.chan d).index ↔ 0 ≤ (p.chan d).index)
    (reg : q.Registered d ↔ p.Registered d)
    (slot : p.Registered d → q.slot? d = p.slot? d) :
    q.registration d = p.registration d := by
  by_cases hd : p.Registered d
  · simp [registration, sign, reg, hd, slot hd]
  · simp [registration, sign, reg, hd]

theorem RemovesExactly.registration {fd : C → Nat} (inj : Function.Injective fd)
    {p q : Poller C} (wf : WF fd p) {c : C} (hc : p.Registered c)
    (exact : RemovesExactly p q c)
    (untouched : ∀ d, ¬ p.Registered d ∨ d = c → (q.chan d).index = (p.chan d).index) :
    (p.registration c).remove = .ok (q.registration c) ∧
      ∀ d, d ≠ c → q.registration d = p.registration d := by
  have reg := wf.registered_erase inj exact.entry (fun e => (exact.objects e).1)
  obtain ⟨pfd, _, hreg⟩ := wf.registration_self hc
  constructor
  · have gone : ¬ q.Registered c := fun h => ((reg c).mp h).1 rfl
    obtain ⟨i, _, hi, _⟩ := wf.slots c hc
    have nonneg : 0 ≤ (q.chan c).index := by
      rw [untouched c (Or.inr rfl)]
      omega
    rw [hreg]
    simp [Registration.remove, Poller.registration, gone, nonneg]
  · intro d hdc
    by_cases hd : p.Registered d
    · obtain ⟨hqd, same, isSome⟩ := exact.kept d hdc hd
      obtain ⟨pfd', hslot⟩ := Option.isSome_iff_exists.mp isSome
      obtain ⟨i, hi, _⟩ := index_of_slot? hslot
      obtain ⟨j, hj, _⟩ := index_of_slot? (same.symm.trans hslot)
      exact registration_congr (by omega) (by simp [hqd, hd]) (fun _ => same)
    · exact registration_congr (by rw [untouched d (Or.inl hd)])
        (by simp [reg, hd]) (fun h => absurd h hd)

theorem removeChannel_untouched {fd : C → Nat} (inj : Function.Injective fd)
    {p q : Poller C} (wf : WF fd p) {c : C} (hc : p.Registered c)
    (h : p.removeChannel c = .ok q) (d : C) (hd : ¬ p.Registered d ∨ d = c) :
    (q.chan d).index = (p.chan d).index := by
  obtain ⟨i, pfd, hi, hpfd, _⟩ := wf.slots c hc
  have hlt := (List.getElem?_eq_some_iff.mp hpfd).1
  by_cases atEnd : (p.chan c).index = (p.pollfds.length : Int) - 1
  · rw [removeChannel_last atEnd (List.ne_nil_of_length_pos (by omega))] at h
    cases h
    rfl
  · obtain ⟨last, e, hlast, _⟩ := wf.last_slot (by omega)
    rw [removeChannel_swap hi (by omega) hpfd hlast] at h
    simp only [setIndexAt] at h
    split at h
    · cases h
    · rename_i f hf
      cases h
      have reg := wf.registered_erase inj
        (q := ⟨p.pollfds, Function.update p.channels (p.chan c).fd none, p.chan⟩)
        rfl (fun _ => rfl)
      have other : d ≠ f := by
        intro hdf
        subst hdf
        have key : last.fd = fd d := by
          by_cases hk : last.fd = (p.chan c).fd
          · rw [hk] at hf
            simp at hf
          · rw [Function.update_of_ne hk] at hf
            exact wf.keys _ _ hf
        have : (⟨p.pollfds, Function.update p.channels (p.chan c).fd none, p.chan⟩ :
            Poller C).Registered d := by
          rw [Registered]
          simpa only [wf.fds, ← key] using hf
        obtain ⟨hdc, hreg⟩ := (reg d).mp this
        exact hd.elim (fun h => h hreg) hdc
      simp [other]

/-- A first registration, as the registered channel and as the others see it. -/
theorem WF.register_registration {fd : C → Nat} (inj : Function.Injective fd) {p : Poller C}
    (wf : WF fd p) {c : C} {ch : Channel} (hfd : ch.fd = fd c) (neg : (p.chan c).index < 0) :
    (p.registration c).update ch = .ok ((p.register c ch).registration c) ∧
      ∀ d, d ≠ c → (p.register c ch).registration d = p.registration d := by
  have reg := wf.registered_register inj hfd
  constructor
  · have notIndexed : ¬ 0 ≤ (p.chan c).index := by omega
    have hidx := register_index_self p c ch
    have hslot : (p.register c ch).slot? c = some ⟨ch.fd, ch.events.setWidth 16, 0⟩ := by
      rw [slot?_of_index hidx]
      simp [Poller.register]
    simp [registration, Registration.update, notIndexed, reg, hidx, hslot]
  · intro d hdc
    have same := register_chan_other p c ch hdc
    apply registration_congr
    · rw [same]
    · rw [reg]
      exact or_iff_right hdc
    · intro hd
      obtain ⟨i, pfd, hi, hpfd, _⟩ := wf.slots d hd
      have hlt := (List.getElem?_eq_some_iff.mp hpfd).1
      have hi' : ((p.register c ch).chan d).index = i := by rw [same, hi]
      rw [slot?_of_index hi, slot?_of_index hi']
      simp only [Poller.register]
      exact List.getElem?_append_left hlt

/-- A rewritten slot, as its owner and as the others see it. -/
theorem WF.rewriteSlot_registration {fd : C → Nat} {p : Poller C} (wf : WF fd p) {c : C}
    {ch : Channel} (hfd : ch.fd = (p.chan c).fd) (hidx : ch.index = (p.chan c).index)
    (hc : p.Registered c) {pfd : PollFd} (hslot : p.slot? c = some pfd) :
    (p.registration c).update ch = .ok ((p.rewriteSlot c ch pfd).registration c) ∧
      ∀ d, d ≠ c → (p.rewriteSlot c ch pfd).registration d = p.registration d := by
  obtain ⟨i, hi, hpfd⟩ := index_of_slot? hslot
  have hlt := (List.getElem?_eq_some_iff.mp hpfd).1
  have position : ch.index.toNat = i := by omega
  obtain ⟨pfd', hslot', hreg⟩ := wf.registration_self hc
  cases hslot.symm.trans hslot'
  constructor
  · have hc' : (p.rewriteSlot c ch pfd).Registered c := by
      simpa [Registered, Poller.rewriteSlot, hfd] using hc
    have hi' : ((p.rewriteSlot c ch pfd).chan c).index = i := by
      simp [Poller.rewriteSlot, hidx, hi]
    have hnew : (p.rewriteSlot c ch pfd).slot? c =
        some ⟨if ch.isNoneEvent then -1 else pfd.fd, ch.events.setWidth 16, 0⟩ := by
      rw [slot?_of_index hi']
      simp [Poller.rewriteSlot, position, hlt]
    rw [hreg]
    simp [registration, Registration.update, hc', hi', hnew]
  · intro d hdc
    apply registration_congr
    · simp [Poller.rewriteSlot, hdc]
    · simp [Registered, Poller.rewriteSlot, hdc]
    · intro hd
      obtain ⟨k, pfd', hk, _⟩ := wf.slots d hd
      have hk' : ((p.rewriteSlot c ch pfd).chan d).index = k := by
        simp [Poller.rewriteSlot, hdc, hk]
      have hki : i ≠ k := fun h => hdc (wf.distinct d c hd hc (by rw [hk, hi, h]))
      rw [slot?_of_index hk, slot?_of_index hk']
      simp [Poller.rewriteSlot, position, List.getElem?_set_ne hki]

/-- `updateChannel`, as the channel and as the others see it. -/
theorem WF.updateChannel_registration {fd : C → Nat} (inj : Function.Injective fd)
    {p q : Poller C} (wf : WF fd p) {c : C} {ch : Channel} (hfd : ch.fd = (p.chan c).fd)
    (hidx : ch.index = (p.chan c).index)
    (h : ({ p with chan := Function.update p.chan c ch } : Poller C).updateChannel c = .ok q) :
    (p.registration c).update ch = .ok (q.registration c) ∧
    ∀ d, d ≠ c → q.registration d = p.registration d := by
  rcases updateChannel_cases hfd hidx h with ⟨neg, _, rfl⟩ | ⟨hc, pfd, hslot, rfl⟩
  · exact wf.register_registration inj (by rw [hfd, wf.fds]) neg
  · exact wf.rewriteSlot_registration hfd hidx hc hslot

/-- `removeChannel`, as the channel and as the others see it. -/
theorem WF.removeChannel_registration {fd : C → Nat} (inj : Function.Injective fd)
    {p q : Poller C} (wf : WF fd p) {c : C} (hc : p.Registered c)
    (h : p.removeChannel c = .ok q) :
    (p.registration c).remove = .ok (q.registration c) ∧
    ∀ d, d ≠ c → q.registration d = p.registration d :=
  (wf.remove_exact inj hc h).registration inj wf hc (removeChannel_untouched inj wf hc h)

/-- The poller refines every channel's own view of it. -/
theorem WF.step_registration {fd : C → Nat} (inj : Function.Injective fd)
    {p q : Poller C} (wf : WF fd p) {op : Op} {c : C}
    (caller : p.RemovesRegistered (op, c)) (h : p.step (op, c) = .ok q) :
    (if op = .remove then (p.registration c).remove
      else (p.registration c).update (op.interest (p.chan c))) = .ok (q.registration c) ∧
    ∀ d, d ≠ c → q.registration d = p.registration d := by
  by_cases hop : op = .remove
  · subst hop
    rw [if_pos rfl]
    exact wf.removeChannel_registration inj (caller rfl) (remove_cases h).2
  · rw [if_neg hop]
    rw [step_update hop] at h
    exact wf.updateChannel_registration inj (Op.interest_fd _ _) (Op.interest_index _ _) h

end Poller

end ZDQ
