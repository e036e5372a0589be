import ThreadAndNet.Failure
import Mathlib.Algebra.Group.Int.Defs
import Mathlib.Algebra.Group.Nat.Defs
import Mathlib.Data.List.TakeDrop

/-!
# The I/O buffer

A vector with a read and a write index. The two invariants of the indexes are
fields, so a buffer whose readable range leaves the vector cannot be built.
Sizes are natural numbers (allocation always succeeds); a length that passed
through `int` is an integer, and a negative one is, compared as `size_t`, larger
than any vector.
-/

namespace ZDQ

/-- The conversion of a `size_t` or `ssize_t` to `int`. -/
def narrow (n : Int) : Int := n.bmod (2 ^ 32)

theorem narrow_of_lt {n : Int} (nonneg : 0 ≤ n) (small : n < 2 ^ 31) : narrow n = n := by
  rw [narrow, Int.bmod_eq_of_le] <;> omega

theorem narrow_natCast {n : Nat} (small : n < 2 ^ 31) : narrow n = n :=
  narrow_of_lt (by omega) (by omega)

theorem narrow_range (n : Int) : -2 ^ 31 ≤ narrow n ∧ narrow n < 2 ^ 31 := by
  have low := Int.le_bmod (x := n) (m := 2 ^ 32) (by omega)
  have high := Int.bmod_lt (x := n) (m := 2 ^ 32) (by omega)
  rw [narrow]
  omega

structure Buffer where
  v_buff : List UInt8
  readIndex : Nat
  writeIndex : Nat
  ordered : readIndex ≤ writeIndex
  inside : writeIndex ≤ v_buff.length
deriving DecidableEq

namespace Buffer

def defaultSize : Nat := 1024
def move_line : Nat := 1024

def new (initSize : Nat) : Buffer where
  v_buff := List.replicate initSize 0
  readIndex := 0
  writeIndex := 0
  ordered := Nat.le_refl 0
  inside := Nat.zero_le _

def readBuffSize (b : Buffer) : Nat := b.writeIndex - b.readIndex

def writeBuffSize (b : Buffer) : Nat := b.v_buff.length - b.writeIndex

/-- The bytes from `peek()` on, `readBuffSize()` of them. -/
def readable (b : Buffer) : List UInt8 := (b.v_buff.take b.writeIndex).drop b.readIndex

/-- The loop of `movetohead`: `count` more bytes from `r` down to `i`. -/
def copyDown (v : List UInt8) : (count i r : Nat) → List UInt8
  | 0, _, _ => v
  | count + 1, i, r => copyDown (v.set i (v.getD r 0)) count (i + 1) (r + 1)

@[simp] theorem length_copyDown (v : List UInt8) (count i r : Nat) :
    (copyDown v count i r).length = v.length := by
  induction count generalizing v i r with
  | zero => rfl
  | succ count ih => rw [copyDown, ih, List.length_set]

def movetohead (b : Buffer) : Buffer where
  v_buff := copyDown b.v_buff (b.writeIndex - b.readIndex) 0 b.readIndex
  readIndex := 0
  writeIndex := b.writeIndex - b.readIndex
  ordered := Nat.zero_le _
  inside := by
    have := b.inside
    rw [length_copyDown]
    omega

/-- `readIndex_ += len` for a length that is readable. -/
def advance (b : Buffer) (len : Nat) (h : len ≤ b.readBuffSize) : Buffer :=
  { b with
    readIndex := b.readIndex + len
    ordered := by
      have := b.ordered
      rw [readBuffSize] at h
      omega }

/-- `readIndex_ = writeIndex_ = 0`. -/
def clear (b : Buffer) : Buffer :=
  { b with
    readIndex := 0
    writeIndex := 0
    ordered := Nat.le_refl 0
    inside := Nat.zero_le _ }

def retrieve (b : Buffer) (len : Int) : Except Failure Buffer :=
  if h : 0 ≤ len ∧ len ≤ b.readBuffSize then
    if len < b.readBuffSize then
      let moved := b.advance len.toNat (by omega)
      .ok (if move_line < moved.readIndex then moved.movetohead else moved)
    else .ok b.clear
  else .error .assertion

/-- `v_buff_.resize(size)`. -/
def resize (v : List UInt8) (size : Nat) : List UInt8 :=
  v.take size ++ List.replicate (size - v.length) 0

/-- The vector with `data` copied to the positions from `i` on. -/
def overwrite (v : List UInt8) (i : Nat) (data : List UInt8) : List UInt8 :=
  v.take i ++ data ++ v.drop (i + data.length)

@[simp] theorem length_resize (v : List UInt8) (size : Nat) :
    (resize v size).length = size := by
  simp only [resize, List.length_append, List.length_take, List.length_replicate]
  omega

theorem length_overwrite {v data : List UInt8} {i : Nat} (h : i + data.length ≤ v.length) :
    (overwrite v i data).length = v.length := by
  simp only [overwrite, List.length_append, List.length_take, List.length_drop]
  omega

/-- The vector `append` copies into. -/
def reserve (b : Buffer) (len : Nat) : List UInt8 :=
  if b.writeBuffSize < len then resize b.v_buff (len + b.writeIndex) else b.v_buff

theorem length_reserve (b : Buffer) (len : Nat) :
    b.writeIndex + len ≤ (b.reserve len).length := by
  have := b.inside
  rw [reserve]
  split
  · rw [length_resize]
    omega
  · rename_i fits
    rw [writeBuffSize] at fits
    omega

/-- Write `data` behind the readable bytes, in a vector with room for it. -/
def put (b : Buffer) (v : List UInt8) (data : List UInt8)
    (room : b.writeIndex + data.length ≤ v.length) : Buffer where
  v_buff := overwrite v b.writeIndex data
  readIndex := b.readIndex
  writeIndex := b.writeIndex + data.length
  ordered := Nat.le_trans b.ordered (Nat.le_add_right _ _)
  inside := by rwa [length_overwrite room]

/-- `append(buf, len)`. For a negative `len` the requested size wraps around and
`std::copy` is given a reversed range; past the end of `buf` it reads memory that
is not part of it. -/
def append (b : Buffer) (buf : List UInt8) (len : Int) : Except Failure Buffer :=
  if h : 0 ≤ len ∧ len ≤ buf.length then
    .ok (b.put (b.reserve len.toNat) (buf.take len.toNat) (by
      have := b.length_reserve len.toNat
      rw [List.length_take]
      omega))
  else .error .undefined

/-- `retrieveAsString(len)`: the string and the buffer left. -/
def retrieveAsString (b : Buffer) (len : Nat) : Except Failure (List UInt8 × Buffer) :=
  if len ≤ b.readBuffSize then
    match b.retrieve (narrow len) with
    | .ok rest => .ok (b.readable.take len, rest)
    | .error e => .error e
  else .error .assertion

def retrieveAllAsString (b : Buffer) : Except Failure (List UInt8 × Buffer) :=
  b.retrieveAsString b.readBuffSize

/-- sizeof extrabuf -/
def extraSize : Nat := 65536

/-- What `readv` finds: an error, or the bytes that are there for it. It takes as many of
them as there is space for. -/
inductive Readv where
  | failed
  | read (bytes : List UInt8)

/-- How many bytes the iovecs of `readFd` can take. -/
def iovecSpace (b : Buffer) : Nat :=
  b.writeBuffSize + if b.writeBuffSize < extraSize then extraSize else 0

/-- The kernel's write into the vector: as much of `got` as the free tail holds. -/
def fillTail (b : Buffer) (got : List UInt8) : Buffer :=
  b.put b.v_buff (got.take b.writeBuffSize) (by
    have := b.inside
    rw [List.length_take, writeBuffSize]
    omega)

/-- `readFd`: the returned count and the buffer. The free tail is filled first
and `extrabuf` takes the rest. -/
def readFd (b : Buffer) : Readv → Except Failure (Int × Buffer)
  | .failed => .ok (-1, b)
  | .read bytes =>
    let got := bytes.take b.iovecSpace
    if got.length ≤ b.writeBuffSize then .ok (got.length, b.fillTail got)
    else
      match (b.fillTail got).append (got.drop b.writeBuffSize)
          (narrow ((got.length : Int) - b.writeBuffSize)) with
      | .ok full => .ok (got.length, full)
      | .error e => .error e

end Buffer

end ZDQ
