import ThreadAndNet.Registration

/-!
# The index of a channel that is not registered

`updateChannel` takes a channel with an index for one that `channels_` has, and one without
for one that it has not. `removeChannel` takes the channel out of `channels_` and leaves its
index.
-/

namespace ZDQ.Poller

open Machine
variable {C : Type*}

/-- The channels with an index are the registered ones. -/
def Indexed (p : Poller C) : Prop := ∀ c, 0 ≤ (p.chan c).index ↔ p.Registered c

variable [DecidableEq C]

/-- A call on a channel that is not registered registers it, and changes nothing else. -/
def RegistersAfresh (p : Poller C) : Prop :=
  ∀ c op, ¬ p.Registered c → op ≠ .remove →
    p.step (op, c) = .ok (p.register c (op.interest (p.chan c)))

section Steps
variable {fd : C → Nat} {p q : Poller C}

theorem registersAfresh (inj : Function.Injective fd) (wf : WF fd p) (indexed : p.Indexed) :
    p.RegistersAfresh := by
  intro c op unregistered hop
  have neg : (p.chan c).index < 0 := Int.not_le.mp ((indexed c).not.mpr unregistered)
  have absent := wf.absent_of_unregistered inj unregistered
  obtain ⟨q, hq⟩ := update_ok hop (.inl ⟨neg, absent⟩)
  rcases update_cases hop hq with ⟨_, _, rfl⟩ | ⟨registered, _⟩
  · exact hq
  · exact absurd registered unregistered

theorem Indexed.update (inj : Function.Injective fd) (wf : WF fd p) (indexed : p.Indexed)
    {op : Op} (hop : op ≠ .remove) {c : C} (h : p.step (op, c) = .ok q) : q.Indexed := by
  intro d
  rcases update_cases hop h with ⟨_, _, rfl⟩ | ⟨registered, pfd, _, rfl⟩
  · have hfd : (op.interest (p.chan c)).fd = fd c := by rw [Op.interest_fd, wf.fds]
    rw [wf.registered_register inj hfd]
    by_cases hd : d = c
    · subst hd
      rw [register_index_self]
      simp
    · rw [register_chan_other _ _ _ hd, indexed d]
      exact (or_iff_right hd).symm
  · by_cases hd : d = c
    · subst hd
      simpa [rewriteSlot, Registered] using indexed d
    · simpa [rewriteSlot, Registered, hd] using indexed d

/-- Without an index there is no slot to take out. -/
theorem removeChannel_negative {c : C} (neg : (p.chan c).index < 0) :
    p.removeChannel c = .error .undefined := by
  simp only [removeChannel]
  split
  · rename_i last
    have none : p.pollfds = [] := List.length_eq_zero_iff.mp (by omega)
    rw [if_pos none]
  · rfl

/-- What is removed keeps its index. -/
theorem not_indexed_of_remove (inj : Function.Injective fd) (wf : WF fd p)
    (indexed : p.Indexed) {c : C} (h : p.step (.remove, c) = .ok q) : ¬ q.Indexed := by
  have removed := (remove_cases h).2
  have registered : p.Registered c := by
    by_contra unregistered
    have neg : (p.chan c).index < 0 := Int.not_le.mp ((indexed c).not.mpr unregistered)
    rw [removeChannel_negative neg] at removed
    cases removed
  have exact := wf.remove_exact inj registered removed
  have same := removeChannel_untouched inj wf registered removed c (.inr rfl)
  have gone := wf.registered_erase inj exact.entry (fun e => (exact.objects e).1) c
  intro indexed'
  have kept := (indexed c).mpr registered
  rw [← same] at kept
  exact (gone.mp ((indexed' c).mp kept)).1 rfl

theorem Indexed.step_ok (inj : Function.Injective fd) (wf : WF fd p) (indexed : p.Indexed)
    {op : Op} (hop : op ≠ .remove) (c : C) : ∃ q, p.step (op, c) = .ok q := by
  by_cases registered : p.Registered c
  · obtain ⟨pfd, slot, _⟩ := wf.registration_self registered
    exact update_ok hop (.inr ⟨registered, pfd, slot⟩)
  · exact ⟨_, registersAfresh inj wf indexed c op registered hop⟩

/-- As long as no channel is removed, every call returns, and leaves the other channels. -/
theorem Indexed.run_ok (inj : Function.Injective fd) (wf : WF fd p) (indexed : p.Indexed)
    {ops : List (Op × C)} (hop : ∀ a ∈ ops, a.1 ≠ .remove) : ∃ q, run step p ops = .ok q ∧
      WF fd q ∧ ∀ d, (∀ a ∈ ops, a.2 ≠ d) → q.registration d = p.registration d := by
  induction ops generalizing p with
  | nil => exact ⟨p, rfl, wf, fun _ _ => rfl⟩
  | cons a rest ih =>
    obtain ⟨op, c⟩ := a
    have first : op ≠ .remove := hop _ List.mem_cons_self
    obtain ⟨m, hm⟩ := indexed.step_ok inj wf first c
    have caller : p.RemovesRegistered (op, c) := fun remove => absurd remove first
    obtain ⟨q, hq, wf', others⟩ := ih (wf.step inj caller hm) (indexed.update inj wf first hm)
      fun a mem => hop a (List.mem_cons_of_mem _ mem)
    rw [run_cons_ok hm]
    refine ⟨q, hq, wf', fun d other => ?_⟩
    have apart : d ≠ c := fun same => other _ List.mem_cons_self same.symm
    rw [others d fun a mem => other a (List.mem_cons_of_mem _ mem)]
    exact (wf.step_registration inj caller hm).2 d apart

omit [DecidableEq C] in
theorem empty_indexed (fd : C → Nat) : (empty fd).Indexed := by
  intro c
  simp [empty, Registered, Channel.new]

end Steps

/-- In every state of a run, the channels with an index are the registered ones and any
other registers afresh when it is called, exactly if the run removes no channel. -/
theorem indexed_iff_no_removal {fd : C → Nat} (inj : Function.Injective fd) {p : Poller C}
    {ops : List (Op × C)} (h : run step (empty fd) ops = .ok p) :
    Throughout step (fun p => p.Indexed ∧ p.RegistersAfresh) (empty fd) ops ↔
      ∀ a ∈ ops, a.1 ≠ .remove := by
  have keep : ∀ p (a : Op × C) q, WF fd p ∧ p.Indexed → a.1 ≠ .remove → p.step a = .ok q →
      WF fd q ∧ q.Indexed := by
    rintro p ⟨op, c⟩ q ⟨wf, indexed⟩ hop hstep
    exact ⟨wf.step inj (fun remove => absurd remove hop) hstep, indexed.update inj wf hop hstep⟩
  have start : WF fd (empty fd) ∧ (empty fd).Indexed := ⟨WF.empty fd, empty_indexed fd⟩
  rw [← along_iff_mem h]
  refine throughout_iff_along keep ?_ ?_ start h
  · rintro p ⟨wf, indexed⟩
    exact ⟨indexed, registersAfresh inj wf indexed⟩
  · rintro p ⟨op, c⟩ q ⟨wf, indexed⟩ hop hstep ⟨indexed', _⟩
    obtain rfl : op = .remove := Decidable.not_not.mp hop
    exact not_indexed_of_remove inj wf indexed hstep indexed'

theorem indexed_iff_no_removal_two_channels :
    ∃ p, run step (empty fun c : Bool => if c then 8 else 7)
        [(.enableReading, false), (.enableWriteing, true), (.disableAll, false)] = .ok p ∧
      Throughout step (fun p => p.Indexed ∧ p.RegistersAfresh)
        (empty fun c : Bool => if c then 8 else 7)
        [(.enableReading, false), (.enableWriteing, true), (.disableAll, false)] := by
  have inj : Function.Injective (fun c : Bool => if c then 8 else 7) := by
    intro a b
    cases a <;> cases b <;> simp
  exact ⟨_, rfl, (indexed_iff_no_removal inj rfl).mpr (by decide)⟩

/-- A channel that was removed still has an index, and cannot be enabled again. -/
theorem removed_keeps_index :
    ∃ p, run step (empty fun _ : Unit => 7)
        [(.enableReading, ()), (.disableAll, ()), (.remove, ())] = .ok p ∧
      0 ≤ (p.chan ()).index ∧ ¬ p.Registered () ∧ ¬ p.Indexed ∧
      p.step (.enableReading, ()) = .error .assertion := by
  refine ⟨_, rfl, by decide, by decide, fun indexed => ?_, rfl⟩
  exact absurd ((indexed ()).mp (by decide)) (by decide)

end ZDQ.Poller
