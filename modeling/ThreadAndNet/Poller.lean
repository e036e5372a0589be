import ThreadAndNet.Channel
import Mathlib.Data.List.Nodup

/-!
# The poller: `pollfds_`, `channels_` and the channels' own `index_`

`C` names the `Channel` objects (the pointers of the source) and `chan` is the
memory they point to. Both maps change together with each channel's `index_`,
so the state keeps all three. Every call is made on the loop's thread.
-/

namespace ZDQ

/-- `struct pollfd`; the two sets of bits are shorts. -/
structure PollFd where
  fd : Int
  events : BitVec 16
  revents : BitVec 16
deriving DecidableEq

structure Poller (C : Type*) where
  pollfds : List PollFd
  channels : Int → Option C
  chan : C → Channel

namespace Poller
variable {C : Type*} [DecidableEq C]

/-- No channel registered, and every channel as its constructor leaves it. -/
def empty (fd : C → Nat) : Poller C :=
  ⟨[], fun _ => none, fun c => Channel.new (fd c)⟩

def updateChannel (p : Poller C) (c : C) : Except Failure (Poller C) :=
  let ch := p.chan c
  if ch.index < 0 then
    if p.channels ch.fd ≠ none then .error .assertion
    else .ok
      { pollfds := p.pollfds ++ [⟨ch.fd, ch.events.setWidth 16, 0⟩]
        channels := Function.update p.channels ch.fd (some c)
        chan := Function.update p.chan c (ch.setIndex p.pollfds.length) }
  else if p.channels ch.fd ≠ some c then .error .assertion
  else
    match p.pollfds[ch.index.toNat]? with
    | none => .error .assertion
    | some pfd =>
      let fd := if ch.isNoneEvent then -1 else pfd.fd
      .ok { p with
        pollfds := p.pollfds.set ch.index.toNat ⟨fd, ch.events.setWidth 16, 0⟩ }

/-- `channels_[fd]->setIndex(idx)`: the lookup of a missing key inserts a null
pointer, which is then written through. -/
def setIndexAt (p : Poller C) (fd idx : Int) : Except Failure (Poller C) :=
  match p.channels fd with
  | none => .error .undefined
  | some d => .ok { p with chan := Function.update p.chan d ((p.chan d).setIndex idx) }

def removeChannel (p : Poller C) (c : C) : Except Failure (Poller C) :=
  let idx := (p.chan c).index
  let erased := { p with channels := Function.update p.channels (p.chan c).fd none }
  if idx = (p.pollfds.length : Int) - 1 then
    -- an empty vector has size() - 1 == -1 as well, and cannot be popped
    if p.pollfds = [] then .error .undefined
    else .ok { erased with pollfds := p.pollfds.dropLast }
  else if idx < 0 then .error .undefined
  else
    match p.pollfds[idx.toNat]?, p.pollfds.getLast? with
    | some pfd, some last =>
      let swapped := (p.pollfds.set idx.toNat last).set (p.pollfds.length - 1) pfd
      setIndexAt { erased with pollfds := swapped.dropLast } last.fd idx
    | _, _ => .error .undefined

/-- The operations of `Channel` that reach the poller. -/
inductive Op where
  | enableReading
  | disableReading
  | enableWriteing
  | disableWriteing
  | disableAll
  | remove
deriving DecidableEq

/-- The change of `events_` an operation makes before it calls the poller. -/
def Op.interest : Op → Channel → Channel
  | .enableReading => Channel.enableReading
  | .disableReading => Channel.disableReading
  | .enableWriteing => Channel.enableWriteing
  | .disableWriteing => Channel.disableWriteing
  | .disableAll => Channel.disableAll
  | .remove => id

@[simp] theorem Op.interest_fd (op : Op) (ch : Channel) : (op.interest ch).fd = ch.fd := by
  cases op <;> rfl

@[simp] theorem Op.interest_index (op : Op) (ch : Channel) :
    (op.interest ch).index = ch.index := by
  cases op <;> rfl

/-- One operation on the channel `c`. `Channel::remove` asserts that the channel
is interested in nothing. -/
def step (p : Poller C) : Op × C → Except Failure (Poller C)
  | (.remove, c) => if (p.chan c).isNoneEvent then p.removeChannel c else .error .assertion
  | (op, c) =>
    ({ p with chan := Function.update p.chan c (op.interest (p.chan c)) }).updateChannel c

def Registered (p : Poller C) (c : C) : Prop := p.channels (p.chan c).fd = some c

instance (p : Poller C) (c : C) : Decidable (p.Registered c) :=
  inferInstanceAs (Decidable (_ = _))

/-- The slot a channel's `index_` names. -/
def slot? (p : Poller C) (c : C) : Option PollFd :=
  if (p.chan c).index < 0 then none else p.pollfds[(p.chan c).index.toNat]?

omit [DecidableEq C] in
theorem slot?_of_index {p : Poller C} {c : C} {i : Nat} (hi : (p.chan c).index = i) :
    p.slot? c = p.pollfds[i]? := by
  have notNeg : ¬ ((i : Int) < 0) := by omega
  simp only [slot?, hi, notNeg, if_false, Int.toNat_natCast]

omit [DecidableEq C] in
theorem index_of_slot? {p : Poller C} {c : C} {pfd : PollFd} (h : p.slot? c = some pfd) :
    ∃ i : Nat, (p.chan c).index = i ∧ p.pollfds[i]? = some pfd := by
  by_cases neg : (p.chan c).index < 0
  · simp [slot?, neg] at h
  · have hi : (p.chan c).index = ((p.chan c).index.toNat : Int) := by omega
    exact ⟨_, hi, (slot?_of_index hi).symm.trans h⟩

end Poller

end ZDQ
