import ThreadAndNet.Failure
import Mathlib.Algebra.Group.Nat.Defs

/-!
# What the kernel may answer

The answers are labels of the machines: nothing is assumed about their order.
-/

namespace ZDQ

inductive Errno where
  | EINPROGRESS | EINTR | EISCONN
  | EAGAIN | EADDRINUSE | EADDRNOTAVAIL | ECONNREFUSED | ENETUNREACH
  | EACCES | EPERM | EAFNOSUPPORT | EALREADY | EBADF | EFAULT | ENOTSOCK
  | EPIPE | ECONNRESET | ENOTCONN | other
deriving DecidableEq, Repr

/-- A call that returns 0, or -1 and an errno. -/
abbrev Status := Option Errno

/-- One transfer never exceeds what an `int` can count. -/
def maxTransfer : Nat := 2 ^ 31 - 1

/-- `::write`: -1, or a number of bytes taken from the front of what was offered. -/
inductive WriteResult where
  | failed (e : Errno)
  | accepted (count : Nat)

/-- The return value; the kernel accepts no more than it is offered. -/
def WriteResult.returned (w : WriteResult) (offered : List UInt8) : Int :=
  match w with
  | .failed _ => -1
  | .accepted count => (min count (min offered.length maxTransfer) : Nat)

theorem WriteResult.returned_range (w : WriteResult) (offered : List UInt8) :
    w.returned offered = -1 ∨
      ∃ k : Nat, w.returned offered = k ∧ k ≤ offered.length ∧ k < 2 ^ 31 := by
  cases w with
  | failed e => exact Or.inl rfl
  | accepted count =>
    right
    refine ⟨_, rfl, ?_, ?_⟩
    · omega
    · rw [maxTransfer]
      omega

end ZDQ
