import ThreadAndNet.Registration
import Mathlib.Data.List.Induction

/-!
# What `::poll` is made to watch

A channel's `events_` lives twice, in the channel and in the slot. The slot loses its
descriptor once a call leaves the channel without interest, and no later call brings it
back; only the first call of a channel, which makes the slot, does not ask.
-/

namespace ZDQ.Poller

open Machine
variable {C : Type*} [DecidableEq C]

/-- Every channel with an interest has one slot, with its descriptor and its events, and all
other slots are ignored by `::poll`. -/
structure Watches (p : Poller C) : Prop where
  watched : ∀ c, (p.chan c).events ≠ 0 → ∃ (i : Nat) (pfd : PollFd),
    p.pollfds[i]? = some pfd ∧ pfd.fd = (p.chan c).fd ∧
    pfd.events.setWidth 32 = (p.chan c).events ∧
    ∀ (j : Nat) (other : PollFd), p.pollfds[j]? = some other →
      other.fd = (p.chan c).fd → j = i
  others : ∀ pfd ∈ p.pollfds, (∀ c, (p.chan c).events ≠ 0 → pfd.fd ≠ (p.chan c).fd) →
    pfd.fd < 0

/-! ## The history of one channel -/

/-- What an operation makes of `events_`. -/
def Op.onEvents (op : Op) (e : BitVec 32) : BitVec 32 :=
  (op.interest { Channel.new 0 with events := e }).events

/-- `events_` after each of the operations. -/
def eventsAfter (e : BitVec 32) : List Op → List (BitVec 32)
  | [] => []
  | op :: rest => op.onEvents e :: eventsAfter (op.onEvents e) rest

/-- `events_` of the channel `c` after each of the calls made on it. -/
def history (c : C) (calls : List (Op × C)) : List (BitVec 32) :=
  eventsAfter 0 ((calls.filter (fun a => a.2 = c)).map Prod.fst)

/-- A channel with an interest has had one after every call from its second on, and a
channel without one has had two calls at least, if any. -/
def Steady : List (BitVec 32) → Prop
  | [] => True
  | first :: later =>
    (later.getLastD first ≠ 0 → 0 ∉ later) ∧ (later.getLastD first = 0 → later ≠ [])

/-- What the poller has of a channel with this history. -/
def view (fd : Nat) : List (BitVec 32) → Registration
  | [] => .fresh
  | first :: later =>
    ⟨true, some ⟨if 0 ∈ later then -1 else fd, (later.getLastD first).setWidth 16, 0⟩⟩

theorem view_update {fd : Nat} {ch : Channel} (hfd : ch.fd = fd) (es : List (BitVec 32)) :
    (view fd es).update ch = .ok (view fd (es ++ [ch.events])) := by
  cases es with
  | nil => simp [view, Registration.fresh, Registration.update, hfd]
  | cons first later =>
    simp only [view, Registration.update, List.cons_append, if_true]
    by_cases none : ch.events = 0
    · simp [Channel.isNoneEvent, Channel.kNoneEvent, none]
    · have kept : ¬ ch.events = 0#32 := none
      simp [Channel.isNoneEvent, Channel.kNoneEvent, kept, eq_comm (a := 0#32)]

/-! ## Only four interests -/

/-- The values `events_` can take. -/
def Interest (e : BitVec 32) : Prop := e = 0 ∨ e = 3 ∨ e = 4 ∨ e = 7

theorem Interest.round_trip {e : BitVec 32} (h : Interest e) :
    (e.setWidth 16).setWidth 32 = e := by
  rcases h with rfl | rfl | rfl | rfl <;> rfl

instance (e : BitVec 32) : Decidable (Interest e) := inferInstanceAs (Decidable (_ ∨ _))

theorem Interest.onEvents {e : BitVec 32} (h : Interest e) (op : Op) :
    Interest (op.onEvents e) := by
  rcases h with rfl | rfl | rfl | rfl <;> cases op <;> decide

/-! ## What the poller has of every channel -/

/-- `calls` have led from the empty poller to `p`. -/
structure Tracks (fd : C → Nat) (calls : List (Op × C)) (p : Poller C) : Prop where
  wf : WF fd p
  events : ∀ c, (p.chan c).events = (history c calls).getLastD 0
  interest : ∀ c, Interest (p.chan c).events
  view : ∀ c, p.registration c = view (fd c) (history c calls)

omit [DecidableEq C] in
theorem interest_events (op : Op) (ch : Channel) :
    (op.interest ch).events = op.onEvents ch.events := by
  cases op <;> rfl

theorem eventsAfter_snoc (e : BitVec 32) (ops : List Op) (op : Op) :
    eventsAfter e (ops ++ [op]) =
      eventsAfter e ops ++ [op.onEvents ((eventsAfter e ops).getLastD e)] := by
  induction ops generalizing e with
  | nil => rfl
  | cons first rest ih =>
    rw [List.cons_append, eventsAfter, ih, eventsAfter, List.cons_append, List.getLastD_cons]

theorem history_self (c : C) (calls : List (Op × C)) (op : Op) :
    history c (calls ++ [(op, c)]) =
      history c calls ++ [op.onEvents ((history c calls).getLastD 0)] := by
  simp only [history, List.filter_append, List.map_append]
  simpa using eventsAfter_snoc 0 _ op

theorem history_other {c d : C} (h : d ≠ c) (calls : List (Op × C)) (op : Op) :
    history c (calls ++ [(op, d)]) = history c calls := by
  simp [history, h]

/-- An update changes the interest of its own channel only. -/
theorem update_events {p q : Poller C} {op : Op} {c : C} (hop : op ≠ .remove)
    (h : p.step (op, c) = .ok q) :
    (q.chan c).events = op.onEvents (p.chan c).events ∧
      ∀ d, d ≠ c → (q.chan d).events = (p.chan d).events := by
  rcases update_cases hop h with ⟨_, _, rfl⟩ | ⟨_, pfd, _, rfl⟩
  · refine ⟨by simp [register, Channel.setIndex, interest_events], fun d hd => ?_⟩
    rw [register_chan_other _ _ _ hd]
  · refine ⟨by simp [rewriteSlot, interest_events], fun d hd => ?_⟩
    simp [rewriteSlot, hd]

theorem slot_of_registration {p : Poller C} {c : C} {pfd : PollFd}
    (h : p.registration c = ⟨true, some pfd⟩) :
    p.Registered c ∧ p.slot? c = some pfd := by
  simp only [registration, Registration.mk.injEq] at h
  split at h
  · rename_i registered
    exact ⟨registered, h.2⟩
  · cases h.2

/-- A channel without history has no index and no entry. -/
theorem WF.absent_of_registration {fd : C → Nat} (inj : Function.Injective fd) {p : Poller C}
    (wf : WF fd p) {c : C} (h : p.registration c = .fresh) :
    (p.chan c).index < 0 ∧ p.channels (p.chan c).fd = none := by
  have neg : ¬ 0 ≤ (p.chan c).index := by
    simpa [registration, Registration.fresh] using congrArg Registration.indexed h
  refine ⟨by omega, wf.absent_of_unregistered inj fun registered => ?_⟩
  obtain ⟨i, _, hi, _⟩ := wf.slots c registered
  omega

/-- No call fails, and each has the effect it has on its own channel. -/
theorem Tracks.call {fd : C → Nat} (inj : Function.Injective fd) {calls : List (Op × C)}
    {p : Poller C} (tracks : Tracks fd calls p) {op : Op} (hop : op ≠ .remove) (c : C) :
    ∃ q, p.step (op, c) = .ok q ∧ Tracks fd (calls ++ [(op, c)]) q := by
  have possible : ∃ q, p.step (op, c) = .ok q := by
    apply update_ok hop
    have view := tracks.view c
    cases past : history c calls with
    | nil =>
      rw [past] at view
      exact .inl (tracks.wf.absent_of_registration inj view)
    | cons first later =>
      rw [past] at view
      obtain ⟨registered, slot⟩ := slot_of_registration view
      exact .inr ⟨registered, _, slot⟩
  obtain ⟨q, hq⟩ := possible
  have caller : p.RemovesRegistered (op, c) := fun h => absurd h hop
  obtain ⟨own, others⟩ := update_events hop hq
  obtain ⟨updated, kept⟩ := tracks.wf.step_registration inj caller hq
  rw [if_neg hop, tracks.view c, view_update (by rw [Op.interest_fd, tracks.wf.fds])] at updated
  refine ⟨q, hq, tracks.wf.step inj caller hq, fun d => ?_, fun d => ?_, fun d => ?_⟩
  · by_cases hd : d = c
    · subst hd
      rw [own, history_self, List.getLastD_concat, tracks.events]
    · rw [others d hd, history_other (Ne.symm hd), tracks.events]
  · by_cases hd : d = c
    · subst hd
      rw [own]
      exact (tracks.interest d).onEvents op
    · rw [others d hd]
      exact tracks.interest d
  · by_cases hd : d = c
    · subst hd
      rw [history_self, ← Except.ok.inj updated, interest_events, tracks.events]
    · rw [kept d hd, history_other (Ne.symm hd), tracks.view]

/-- No run of calls that remove nothing fails. -/
theorem tracks_calls {fd : C → Nat} (inj : Function.Injective fd) (calls : List (Op × C))
    (updates : ∀ a ∈ calls, a.1 ≠ .remove) :
    ∃ p, run step (empty fd) calls = .ok p ∧ Tracks fd calls p := by
  induction calls using List.reverseRecOn with
  | nil =>
    refine ⟨_, rfl, WF.empty fd, fun _ => rfl, fun _ => .inl rfl, fun c => ?_⟩
    simp [registration, empty, Registered, history, eventsAfter, view, Registration.fresh,
      Channel.new]
  | append_singleton before last ih =>
    obtain ⟨p, hp, tracks⟩ := ih (fun a ha => updates a (List.mem_append_left _ ha))
    obtain ⟨op, c⟩ := last
    obtain ⟨q, hq, tracks'⟩ := tracks.call inj (updates (op, c) (by simp)) c
    refine ⟨q, ?_, tracks'⟩
    rw [run_append, hp]
    exact run_cons_ok hq []

/-! ## What is watched -/

section Watched
variable {fd : C → Nat} {calls : List (Op × C)} {p : Poller C}

/-- The slot of a channel that has been called. -/
theorem Tracks.slot (tracks : Tracks fd calls p) {c : C} {first : BitVec 32}
    {later : List (BitVec 32)} (past : history c calls = first :: later) :
    (p.chan c).events = later.getLastD first ∧ ∃ i : Nat, (p.chan c).index = i ∧
      p.pollfds[i]? = some ⟨if 0 ∈ later then -1 else fd c,
        (later.getLastD first).setWidth 16, 0⟩ := by
  have view := tracks.view c
  rw [past] at view
  obtain ⟨_, slot⟩ := slot_of_registration view
  refine ⟨?_, index_of_slot? slot⟩
  rw [tracks.events, past, List.getLastD_cons]

/-- Whose slot it is. -/
theorem Tracks.owner (tracks : Tracks fd calls p) {i : Nat} {pfd : PollFd}
    (at_i : p.pollfds[i]? = some pfd) : ∃ c first later, (p.chan c).index = i ∧
      history c calls = first :: later ∧ pfd.fd = if 0 ∈ later then -1 else (fd c : Int) := by
  obtain ⟨inside, _⟩ := List.getElem?_eq_some_iff.mp at_i
  obtain ⟨c, registered, hi⟩ := tracks.wf.owners i inside
  have slot := (slot?_of_index hi).trans at_i
  have view := tracks.view c
  have nonneg : 0 ≤ (p.chan c).index := by omega
  cases past : history c calls with
  | nil =>
    rw [past] at view
    simp [registration, registered, slot, Poller.view, Registration.fresh] at view
  | cons first later =>
    rw [past] at view
    simp only [registration, registered, slot, Poller.view, if_true, Registration.mk.injEq,
      Option.some.injEq] at view
    exact ⟨c, first, later, hi, past, by rw [view.2]⟩

/-- A slot that carries a descriptor is its channel's. -/
theorem Tracks.slot_unique (inj : Function.Injective fd) (tracks : Tracks fd calls p) {i : Nat}
    {pfd : PollFd} (at_i : p.pollfds[i]? = some pfd) {c : C} (hfd : pfd.fd = fd c) :
    (p.chan c).index = i ∧ ∀ first later, history c calls = first :: later → 0 ∉ later := by
  obtain ⟨d, first, later, hi, past, carries⟩ := tracks.owner at_i
  rw [hfd] at carries
  split at carries
  · omega
  · rename_i kept
    have hcd : c = d := inj (by exact_mod_cast carries)
    subst hcd
    refine ⟨hi, fun first' later' past' => ?_⟩
    cases past.symm.trans past'
    exact kept

theorem Tracks.steady (inj : Function.Injective fd) (tracks : Tracks fd calls p)
    (watches : p.Watches) (c : C) : Steady (history c calls) := by
  cases past : history c calls with
  | nil => trivial
  | cons first later =>
    obtain ⟨events, i, hi, at_i⟩ := tracks.slot past
    constructor
    · intro interested
      obtain ⟨j, pfd, at_j, hfd, _⟩ := watches.watched c (events ▸ interested)
      rw [tracks.wf.fds] at hfd
      exact (tracks.slot_unique inj at_j hfd).2 first later past
    · rintro indifferent rfl
      have watched := watches.others _ (List.mem_of_getElem? at_i)
      simp only [List.not_mem_nil, if_false] at watched
      refine absurd (watched fun d interested same => ?_) (by omega)
      rw [tracks.wf.fds] at same
      have hcd : c = d := inj (by exact_mod_cast same)
      subst hcd
      exact interested (events.trans indifferent)

theorem Tracks.watched (inj : Function.Injective fd) (tracks : Tracks fd calls p) {c : C}
    (steady : Steady (history c calls)) (interested : (p.chan c).events ≠ 0) :
    ∃ (i : Nat) (pfd : PollFd), p.pollfds[i]? = some pfd ∧ pfd.fd = (p.chan c).fd ∧
      pfd.events.setWidth 32 = (p.chan c).events ∧
      ∀ (j : Nat) (other : PollFd), p.pollfds[j]? = some other →
        other.fd = (p.chan c).fd → j = i := by
  cases past : history c calls with
  | nil =>
    rw [tracks.events, past] at interested
    exact absurd rfl interested
  | cons first later =>
    obtain ⟨events, i, hi, at_i⟩ := tracks.slot past
    rw [past] at steady
    rw [if_neg (steady.1 (events ▸ interested)), ← events] at at_i
    refine ⟨i, _, at_i, by rw [tracks.wf.fds], (tracks.interest c).round_trip, ?_⟩
    intro j other at_j hfd
    rw [tracks.wf.fds] at hfd
    have hj := (tracks.slot_unique inj at_j hfd).1
    omega

theorem Tracks.ignored (tracks : Tracks fd calls p) (steady : ∀ c, Steady (history c calls))
    {pfd : PollFd} (mem : pfd ∈ p.pollfds)
    (unwatched : ∀ c, (p.chan c).events ≠ 0 → pfd.fd ≠ (p.chan c).fd) : pfd.fd < 0 := by
  obtain ⟨i, at_i⟩ := List.mem_iff_getElem?.mp mem
  obtain ⟨c, first, later, hi, past, hfd⟩ := tracks.owner at_i
  obtain ⟨events, _⟩ := tracks.slot past
  have kept := steady c
  rw [past] at kept
  by_cases lost : 0 ∈ later
  · rw [hfd, if_pos lost]
    decide
  · rw [if_neg lost] at hfd
    have indifferent : later.getLastD first = 0 := by
      by_contra interested
      exact unwatched c (events ▸ interested) (by rw [tracks.wf.fds, hfd])
    obtain ⟨second, rest, rfl⟩ := List.exists_cons_of_ne_nil (kept.2 indifferent)
    rw [List.getLastD_cons] at indifferent
    have last : rest.getLastD second ∈ second :: rest := List.getLastD_mem_cons
    exact absurd (indifferent ▸ last) lost

theorem Tracks.watches_iff (inj : Function.Injective fd) (tracks : Tracks fd calls p) :
    p.Watches ↔ ∀ c, Steady (history c calls) := by
  constructor
  · exact tracks.steady inj
  · intro steady
    exact ⟨fun c => tracks.watched inj (steady c), fun pfd => tracks.ignored steady⟩

end Watched

/-- Whatever calls are made on any channels, short of removing one, none fails, and
`::poll` watches what the channels ask for exactly if every channel's history is steady. -/
theorem watches_iff_steady {fd : C → Nat} (inj : Function.Injective fd)
    {calls : List (Op × C)} (updates : ∀ a ∈ calls, a.1 ≠ .remove) :
    ∃ p, run step (empty fd) calls = .ok p ∧
      (p.Watches ↔ ∀ c, Steady (history c calls)) := by
  obtain ⟨p, hp, tracks⟩ := tracks_calls inj calls updates
  exact ⟨p, hp, tracks.watches_iff inj⟩

/-- The first channel turns from reading to writing, the second gives up for good. -/
def turned : List (Op × Bool) :=
  [(.enableReading, false), (.enableWriteing, true), (.enableWriteing, false),
    (.disableReading, false), (.disableAll, true)]

theorem watches_iff_steady_turned :
    ∃ p, run step (empty fun c : Bool => if c then 8 else 7) turned = .ok p ∧
      p.pollfds = [⟨7, 4, 0⟩, ⟨-1, 0, 0⟩] ∧ p.Watches := by
  have inj : Function.Injective (fun c : Bool => if c then 8 else 7) := by
    intro a b
    cases a <;> cases b <;> simp
  have updates : ∀ a ∈ turned, a.1 ≠ .remove := by decide
  obtain ⟨p, ran, iff⟩ := watches_iff_steady inj updates
  refine ⟨p, ran, ?_, iff.mpr fun c => ?_⟩
  · cases ran
    rfl
  · cases c <;> exact ⟨by decide, by decide⟩

/-- A channel that is enabled once more after it was disabled keeps a slot without its
descriptor. -/
theorem unwatched_enabled_again :
    ∃ p, run step (empty fun _ : Unit => 7)
        [(.enableReading, ()), (.disableAll, ()), (.enableReading, ())] = .ok p ∧
      (p.chan ()).events = 3 ∧ p.pollfds = [⟨-1, 3, 0⟩] ∧ ¬ p.Watches := by
  refine ⟨_, rfl, rfl, rfl, ?_⟩
  intro watches
  obtain ⟨i, pfd, at_i, hfd, _⟩ := watches.watched () (by decide)
  have mem : pfd ∈ [(⟨-1, 3, 0⟩ : PollFd)] := List.mem_of_getElem? at_i
  obtain rfl := List.mem_singleton.mp mem
  exact absurd hfd (by decide)

end ZDQ.Poller
