import ThreadAndNet.ConnectionFrame
import ThreadAndNet.ConnectionOutput

/-!
# Lengths that do not fit in an `int`

`retrieveAsString` and `sendInLoop` count in `size_t` and hand their lengths to
`retrieve` and `append`, which take an `int`. From 2^31 on another length arrives
there, and never one that does what was asked for.
-/

namespace ZDQ

open Machine

namespace Buffer

/-- `retrieve` succeeds for the lengths its assertion lets pass. -/
theorem retrieve_cases {b r : Buffer} {len : Int} (h : b.retrieve len = .ok r) :
    0 ≤ len ∧ len ≤ b.readBuffSize ∧ r.readable = b.readable.drop len.toNat := by
  by_cases inside : 0 ≤ len ∧ len ≤ b.readBuffSize
  · obtain ⟨nonneg, some⟩ := inside
    obtain ⟨n, rfl⟩ := Int.eq_ofNat_of_zero_le nonneg
    have some : n ≤ b.readBuffSize := by omega
    obtain ⟨r', hr, left⟩ := b.retrieve_spec some
    rw [h] at hr
    cases hr
    exact ⟨nonneg, by omega, left⟩
  · rw [retrieve, dif_neg inside] at h
    cases h

theorem append_cases {b r : Buffer} {buf : List UInt8} {len : Int}
    (h : b.append buf len = .ok r) :
    0 ≤ len ∧ len ≤ buf.length ∧ r.readable = b.readable ++ buf.take len.toNat := by
  by_cases inside : 0 ≤ len ∧ len ≤ buf.length
  · obtain ⟨r', hr, grown⟩ := b.append_take_spec inside.1 inside.2
    rw [h] at hr
    cases hr
    exact ⟨inside.1, inside.2, grown⟩
  · rw [append, dif_neg inside] at h
    cases h

/-- `retrieveAsString(len)` returns the first `len` bytes and leaves the rest. -/
def TakesFront (b : Buffer) (len : Nat) : Prop :=
  ∃ rest, b.retrieveAsString len = .ok (b.readable.take len, rest) ∧
    rest.readable = b.readable.drop len

def TakesAll (b : Buffer) : Prop :=
  ∃ rest, b.retrieveAllAsString = .ok (b.readable, rest) ∧ rest.readable = []

theorem takesFront_iff {b : Buffer} {len : Nat} (some : len ≤ b.readBuffSize) :
    b.TakesFront len ↔ len < 2 ^ 31 := by
  constructor
  · rintro ⟨rest, took, left⟩
    rw [retrieveAsString, if_pos some] at took
    split at took
    · rename_i retrieved
      cases took
      obtain ⟨nonneg, inside, left'⟩ := retrieve_cases retrieved
      have small := (narrow_range len).2
      have length := congrArg List.length (left.symm.trans left')
      rw [List.length_drop, List.length_drop, length_readable] at length
      omega
    · cases took
  · exact fun short => b.retrieveAsString_spec short some

theorem takesAll_iff (b : Buffer) : b.TakesAll ↔ b.readBuffSize < 2 ^ 31 := by
  rw [← takesFront_iff (Nat.le_refl _), TakesAll, TakesFront, retrieveAllAsString,
    ← length_readable, List.take_length, List.drop_length]

end Buffer

namespace TcpConnection

/-- What a message has left after the direct `::write`, if there is one. -/
def unsent (c : TcpConnection) (message : List UInt8) (w : WriteResult) : List UInt8 :=
  message.drop (if c.channel.isWriteing = false ∧ c.outputBuf.readBuffSize = 0
    then (w.returned message).toNat else 0)

/-- `sendInLoop` puts exactly that behind the pending bytes. -/
def KeepsUnsent (c : TcpConnection) (message : List UInt8) (w : WriteResult) : Prop :=
  ∃ d calls, c.sendInLoop message w = .ok (d, calls) ∧
    d.outputBuf.readable = c.outputBuf.readable ++ c.unsent message w

theorem keepUnsent_short {c d : TcpConnection} {message : List UInt8} {k : Nat}
    {calls : List Call} (h : c.keepUnsent message k = .ok (d, calls))
    (kept : d.outputBuf.readable = c.outputBuf.readable ++ message.drop k) :
    (message.drop k).length < 2 ^ 31 := by
  have appended : ∀ {out : Buffer} {n : Int},
      c.outputBuf.append (message.drop k) (narrow n) = .ok out →
      out.readable = c.outputBuf.readable ++ message.drop k →
      (message.drop k).length < 2 ^ 31 := by
    intro out n happend same
    obtain ⟨_, _, grown⟩ := Buffer.append_cases happend
    have all := List.append_cancel_left (same.symm.trans grown)
    have length := congrArg List.length all
    have small := (narrow_range n).2
    rw [List.length_take] at length
    omega
  unfold keepUnsent at h
  split at h
  · split at h
    · cases h
    · rename_i happend
      dsimp only at h
      split at h
      · cases h
        exact appended happend kept
      · cases h
        exact appended happend kept
  · rename_i all
    rw [List.length_drop]
    omega

/-- A direct `::write` that fails ends the program; otherwise the unsent bytes are kept
exactly if an `int` can count them. -/
theorem keepsUnsent_iff {c : TcpConnection} {message : List UInt8} {w : WriteResult}
    (written : c.channel.isWriteing = false ∧ c.outputBuf.readBuffSize = 0 →
      w.returned message ≠ -1) :
    c.KeepsUnsent message w ↔ (c.unsent message w).length < 2 ^ 31 := by
  by_cases direct : c.channel.isWriteing = false ∧ c.outputBuf.readBuffSize = 0
  · rw [KeepsUnsent, unsent, if_pos direct]
    constructor
    · rintro ⟨d, calls, sent, kept⟩
      rcases sendInLoop_cases sent with ⟨_, _, _, more, hkeep, _⟩ | ⟨buffered, _⟩
      · exact keepUnsent_short hkeep kept
      · exact absurd direct buffered
    · intro short
      obtain ⟨d, calls, hkeep, kept, _⟩ := c.keepUnsent_spec _ short
      refine ⟨d, [.write message (w.returned message)] ++ calls, ?_, kept⟩
      rw [sendInLoop, if_pos direct, if_neg (written direct)]
      simp only [andThen, hkeep]
  · rw [KeepsUnsent, unsent, if_neg direct]
    constructor
    · rintro ⟨d, calls, sent, kept⟩
      rcases sendInLoop_cases sent with ⟨idle, empty, _⟩ | ⟨_, hkeep⟩
      · exact absurd ⟨idle, empty⟩ direct
      · exact keepUnsent_short hkeep kept
    · intro short
      obtain ⟨d, calls, hkeep, kept, _⟩ := c.keepUnsent_spec 0 short
      exact ⟨d, calls, by rw [sendInLoop, if_neg direct, hkeep], kept⟩

end TcpConnection

/-- The three functions do with a length what they say exactly if it fits in an `int`. -/
theorem narrowing_iff {b : Buffer} {len : Nat} (some : len ≤ b.readBuffSize)
    {c : TcpConnection} {message : List UInt8} {w : WriteResult}
    (written : c.channel.isWriteing = false ∧ c.outputBuf.readBuffSize = 0 →
      w.returned message ≠ -1) :
    (b.TakesFront len ↔ len < 2 ^ 31) ∧
      (b.TakesAll ↔ b.readBuffSize < 2 ^ 31) ∧
      (c.KeepsUnsent message w ↔ (c.unsent message w).length < 2 ^ 31) :=
  ⟨Buffer.takesFront_iff some, b.takesAll_iff, TcpConnection.keepsUnsent_iff written⟩

/-- A vector full of readable bytes. -/
def Buffer.full (size : Nat) : Buffer where
  v_buff := List.replicate size 0
  readIndex := 0
  writeIndex := size
  ordered := Nat.zero_le _
  inside := Nat.le_of_eq List.length_replicate.symm

theorem narrowing_iff_small :
    ((Buffer.full 3).TakesFront 2 ↔ 2 < 2 ^ 31) ∧
      ((Buffer.full 3).TakesAll ↔ (Buffer.full 3).readBuffSize < 2 ^ 31) ∧
      ((TcpConnection.new 5 true).KeepsUnsent [1, 2] (.accepted 1) ↔
        ((TcpConnection.new 5 true).unsent [1, 2] (.accepted 1)).length < 2 ^ 31) :=
  narrowing_iff (by decide) (by decide)

/-- A buffer with 2^31 readable bytes, and all of them asked for. -/
theorem not_takesFront_full :
    2 ^ 31 ≤ (Buffer.full (2 ^ 31)).readBuffSize ∧
      (Buffer.full (2 ^ 31)).retrieveAsString (2 ^ 31) = .error .assertion ∧
      ¬ (Buffer.full (2 ^ 31)).TakesFront (2 ^ 31) ∧ ¬ (Buffer.full (2 ^ 31)).TakesAll := by
  have size : (Buffer.full (2 ^ 31)).readBuffSize = 2 ^ 31 := Nat.sub_zero _
  have negative : narrow (2 ^ 31 : Nat) = -2 ^ 31 := by decide
  refine ⟨Nat.le_of_eq size.symm, ?_, ?_, ?_⟩
  · rw [Buffer.retrieveAsString, if_pos (Nat.le_of_eq size.symm), negative, Buffer.retrieve,
      dif_neg (by omega)]
  · rw [Buffer.takesFront_iff (Nat.le_of_eq size.symm)]
    exact Nat.lt_irrefl _
  · rw [Buffer.takesAll_iff, size]
    exact Nat.lt_irrefl _

end ZDQ
