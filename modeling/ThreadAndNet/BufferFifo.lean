import ThreadAndNet.Buffer
import ThreadAndNet.Machine

/-!
# The buffer as a queue of bytes

Each operation is described by what it does to `readable`, wherever compaction,
the reset to the front or a resize leaves the bytes. Runs of these operations are
runs of a queue that knows all bytes that ever came in and how many went out.
-/

namespace ZDQ.Buffer

theorem length_readable (b : Buffer) : b.readable.length = b.readBuffSize := by
  have := b.inside
  simp only [readable, readBuffSize, List.length_drop, List.length_take]
  omega

theorem readBuffSize_eq_zero_iff (b : Buffer) : b.readBuffSize = 0 ↔ b.readable = [] := by
  rw [← length_readable, List.length_eq_zero_iff]

@[simp] theorem readable_new (initSize : Nat) : (new initSize).readable = [] := by
  simp [readable, new]

@[simp] theorem readable_clear (b : Buffer) : b.clear.readable = [] := by
  simp [readable, clear]

theorem readable_advance (b : Buffer) (len : Nat) (h : len ≤ b.readBuffSize) :
    (b.advance len h).readable = b.readable.drop len := by
  simp only [readable, advance, List.drop_drop]

/-- Copying down element by element never overwrites a byte still to be copied. -/
theorem getElem?_copyDown (v : List UInt8) (count i r k : Nat) (down : i ≤ r)
    (source : r + count ≤ v.length) :
    (copyDown v count i r)[k]? =
      if i ≤ k ∧ k < i + count then v[k + (r - i)]? else v[k]? := by
  induction count generalizing v i r with
  | zero =>
    rw [copyDown, if_neg (by omega)]
  | succ count ih =>
    rw [copyDown, ih _ (i + 1) (r + 1) (by omega) (by rw [List.length_set]; omega)]
    have head : v.getD r 0 = v[r] := by
      rw [List.getD_eq_getElem?_getD, List.getElem?_eq_getElem (by omega), Option.getD_some]
    by_cases hk : k = i
    · subst hk
      rw [if_neg (by omega), if_pos (by omega), List.getElem?_set_self (by omega), head,
        ← List.getElem?_eq_getElem (by omega)]
      congr 1
      omega
    · by_cases range : i + 1 ≤ k ∧ k < i + 1 + count
      · rw [if_pos range, if_pos (by omega), List.getElem?_set_ne (by omega)]
        congr 1
        omega
      · rw [if_neg range, if_neg (by omega), List.getElem?_set_ne (by omega)]

theorem readable_movetohead (b : Buffer) : b.movetohead.readable = b.readable := by
  have hb := b.ordered
  have hi := b.inside
  apply List.ext_getElem?
  intro k
  simp only [readable, movetohead, List.drop_zero, List.getElem?_drop, List.getElem?_take]
  rw [getElem?_copyDown _ _ _ _ _ (Nat.zero_le _) (by omega)]
  by_cases hk : k < b.writeIndex - b.readIndex
  · rw [if_pos hk, if_pos (by omega), if_pos (by omega)]
    congr 1
    omega
  · rw [if_neg hk, if_neg (by omega)]

/-- `retrieve` of a readable length drops that many bytes from the front. -/
theorem retrieve_spec (b : Buffer) {len : Nat} (h : len ≤ b.readBuffSize) :
    ∃ r, b.retrieve len = .ok r ∧ r.readable = b.readable.drop len := by
  have int : (0 : Int) ≤ len ∧ (len : Int) ≤ b.readBuffSize := by omega
  rw [retrieve, dif_pos int]
  by_cases part : (len : Int) < b.readBuffSize
  · rw [if_pos part]
    refine ⟨_, rfl, ?_⟩
    split
    · rw [readable_movetohead, readable_advance, Int.toNat_natCast]
    · rw [readable_advance, Int.toNat_natCast]
  · rw [if_neg part]
    refine ⟨_, rfl, ?_⟩
    have all : b.readable.length ≤ len := by
      rw [length_readable]
      omega
    rw [readable_clear, List.drop_eq_nil_of_le all]

theorem take_reserve (b : Buffer) (len : Nat) :
    (b.reserve len).take b.writeIndex = b.v_buff.take b.writeIndex := by
  have := b.inside
  rw [reserve]
  split
  · rw [resize, List.take_append_of_le_length (by rw [List.length_take]; omega),
      List.take_take]
    congr 1
    omega
  · rfl

theorem readable_put (b : Buffer) {v data : List UInt8}
    (room : b.writeIndex + data.length ≤ v.length)
    (same : v.take b.writeIndex = b.v_buff.take b.writeIndex) :
    (b.put v data room).readable = b.readable ++ data := by
  have ho := b.ordered
  have hi := b.inside
  have front : (overwrite v b.writeIndex data).take (b.writeIndex + data.length) =
      v.take b.writeIndex ++ data := by
    rw [overwrite, List.take_left' (by
      rw [List.length_append, List.length_take]
      omega)]
  rw [readable, put]
  dsimp only
  rw [front, same, List.drop_append_of_le_length (by rw [List.length_take]; omega)]
  rfl

/-- `append` of all of `buf` puts it behind the readable bytes. -/
theorem append_spec (b : Buffer) {buf : List UInt8} (short : buf.length < 2 ^ 31) :
    ∃ r, b.append buf (narrow buf.length) = .ok r ∧ r.readable = b.readable ++ buf := by
  rw [narrow_of_lt (by omega) (by omega), append, dif_pos (by omega)]
  refine ⟨_, rfl, ?_⟩
  rw [readable_put _ _ (take_reserve _ _), Int.toNat_natCast, List.take_length]

theorem readable_fillTail (b : Buffer) (got : List UInt8) :
    (b.fillTail got).readable = b.readable ++ got.take b.writeBuffSize :=
  readable_put _ _ rfl

theorem length_take_iovecSpace (b : Buffer) (bytes : List UInt8) :
    (bytes.take b.iovecSpace).length ≤ b.writeBuffSize + extraSize := by
  rw [List.length_take, iovecSpace]
  split <;> omega

/-- `readFd` never fails, and adds exactly the bytes `readv` took, in order. -/
theorem readFd_spec (b : Buffer) (bytes : List UInt8) :
    ∃ r, b.readFd (.read bytes) = .ok (((bytes.take b.iovecSpace).length : Nat), r) ∧
      r.readable = b.readable ++ bytes.take b.iovecSpace := by
  have space := b.length_take_iovecSpace bytes
  rw [readFd]
  generalize bytes.take b.iovecSpace = got at *
  by_cases fits : got.length ≤ b.writeBuffSize
  · refine ⟨b.fillTail got, by rw [if_pos fits], ?_⟩
    rw [readable_fillTail, List.take_of_length_le fits]
  · have size : (got.length : Int) - b.writeBuffSize =
        ((got.drop b.writeBuffSize).length : Nat) := by
      rw [List.length_drop]
      omega
    have short : (got.drop b.writeBuffSize).length < 2 ^ 31 := by
      rw [List.length_drop]
      rw [extraSize] at space
      omega
    obtain ⟨full, hfull, hread⟩ := (b.fillTail got).append_spec short
    refine ⟨full, by rw [if_neg fits, size, hfull], ?_⟩
    rw [hread, readable_fillTail, List.append_assoc, List.take_append_drop]

theorem retrieveAsString_spec (b : Buffer) {len : Nat} (short : len < 2 ^ 31)
    (h : len ≤ b.readBuffSize) : ∃ r, b.retrieveAsString len = .ok (b.readable.take len, r) ∧
      r.readable = b.readable.drop len := by
  obtain ⟨r, hr, left⟩ := b.retrieve_spec h
  refine ⟨r, ?_, left⟩
  rw [retrieveAsString, if_pos h, narrow_of_lt (by omega) (by omega), hr]

/-- `append` of the first `len` bytes at `buf`. -/
theorem append_take_spec (b : Buffer) {buf : List UInt8} {len : Int} (nonneg : 0 ≤ len)
    (inside : len ≤ buf.length) :
    ∃ r, b.append buf len = .ok r ∧ r.readable = b.readable ++ buf.take len.toNat := by
  rw [append, dif_pos ⟨nonneg, inside⟩]
  exact ⟨_, rfl, readable_put _ _ (take_reserve _ _)⟩

/-! ## Runs -/

open Machine

inductive Op where
  | append (buf : List UInt8) (len : Int)
  | retrieve (len : Int)
  | retrieveAsString (len : Nat)
  | retrieveAllAsString
  | readFd (readv : Readv)

/-- What a call returns. -/
inductive Returned where
  | nothing
  | string (bytes : List UInt8)
  | count (n : Int)
deriving DecidableEq

def call (b : Buffer) : Op → Except Failure (Returned × Buffer)
  | .append buf len => (b.append buf len).map (fun b => (.nothing, b))
  | .retrieve len => (b.retrieve len).map (fun b => (.nothing, b))
  | .retrieveAsString len => (b.retrieveAsString len).map (fun r => (.string r.1, r.2))
  | .retrieveAllAsString => b.retrieveAllAsString.map (fun r => (.string r.1, r.2))
  | .readFd readv => (b.readFd readv).map (fun r => (.count r.1, r.2))

/-- Lengths fit in `int`, are lengths of what is passed, and meet the assertion. -/
def Fits (b : Buffer) : Op → Prop
  | .append buf len => 0 ≤ len ∧ len < 2 ^ 31 ∧ len ≤ buf.length
  | .retrieve len => 0 ≤ len ∧ len < 2 ^ 31 ∧ len ≤ b.readBuffSize
  | .retrieveAsString len => len < 2 ^ 31 ∧ len ≤ b.readBuffSize
  | .retrieveAllAsString => b.readBuffSize < 2 ^ 31
  | .readFd _ => True

/-- The calls of one buffer with all they returned, in order. -/
def step (s : Buffer × List Returned) (op : Op) : Except Failure (Buffer × List Returned) :=
  (s.1.call op).map (fun r => (r.2, s.2 ++ [r.1]))

end ZDQ.Buffer

namespace ZDQ

/-- All bytes that ever came in, and how many of them have gone out again. -/
structure ByteQueue where
  entered : List UInt8
  removed : Nat

namespace ByteQueue

open Buffer

def empty : ByteQueue := ⟨[], 0⟩

def contents (q : ByteQueue) : List UInt8 := q.entered.drop q.removed

def enter (q : ByteQueue) (bytes : List UInt8) : ByteQueue :=
  { q with entered := q.entered ++ bytes }

def remove (q : ByteQueue) (n : Nat) : ByteQueue := { q with removed := q.removed + n }

/-- What each call means for the queue, with what it returns. `readv` takes as many of the
bytes that are there to be read as it is given `space` for. -/
inductive Does (space : Nat) (q : ByteQueue) : Op → Returned → ByteQueue → Prop where
  | append (buf : List UInt8) (len : Nat) : len ≤ buf.length →
      Does space q (.append buf len) .nothing (q.enter (buf.take len))
  | retrieve (len : Nat) : len ≤ q.contents.length →
      Does space q (.retrieve len) .nothing (q.remove len)
  | retrieveAsString (len : Nat) : len ≤ q.contents.length →
      Does space q (.retrieveAsString len) (.string (q.contents.take len)) (q.remove len)
  | retrieveAllAsString :
      Does space q .retrieveAllAsString (.string q.contents) (q.remove q.contents.length)
  | readNothing : Does space q (.readFd .failed) (.count (-1)) q
  | read (bytes : List UInt8) :
      Does space q (.readFd (.read bytes)) (.count (min space bytes.length : Nat))
        (q.enter (bytes.take space))

/-- A run of the queue beside a run of a buffer, whose iovecs are the space for each read. -/
inductive Runs : Buffer → ByteQueue → List Op → List Returned → Buffer → ByteQueue → Prop where
  | nil (b : Buffer) (q : ByteQueue) : Runs b q [] [] b q
  | cons {b c d : Buffer} {q r t : ByteQueue} {op : Op} {ops : List Op} {x : Returned}
      {xs : List Returned} : b.call op = .ok (x, c) → Does b.iovecSpace q op x r →
      Runs c r ops xs d t → Runs b q (op :: ops) (x :: xs) d t

theorem contents_enter {q : ByteQueue} (fits : q.removed ≤ q.entered.length)
    (bytes : List UInt8) : (q.enter bytes).contents = q.contents ++ bytes := by
  rw [contents, enter, List.drop_append_of_le_length fits]
  rfl

theorem contents_remove (q : ByteQueue) (n : Nat) :
    (q.remove n).contents = q.contents.drop n := by
  rw [contents, remove, contents, List.drop_drop]

/-- The buffer holds what is in the queue. -/
structure Holds (b : Buffer) (q : ByteQueue) : Prop where
  readable : b.readable = q.contents
  removed : q.removed ≤ q.entered.length

theorem Holds.length {b : Buffer} {q : ByteQueue} (h : Holds b q) :
    b.readBuffSize = q.contents.length := by
  rw [← h.readable, Buffer.length_readable]

theorem Holds.enter {b r : Buffer} {q : ByteQueue} (h : Holds b q) {bytes : List UInt8}
    (grown : r.readable = b.readable ++ bytes) : Holds r (q.enter bytes) := by
  constructor
  · rw [grown, contents_enter h.removed, h.readable]
  · show q.removed ≤ (q.entered ++ bytes).length
    have := h.removed
    rw [List.length_append]
    omega

theorem Holds.remove {b r : Buffer} {q : ByteQueue} (h : Holds b q) {n : Nat}
    (some : n ≤ q.contents.length) (left : r.readable = b.readable.drop n) :
    Holds r (q.remove n) := by
  constructor
  · rw [left, contents_remove, h.readable]
  · have := h.removed
    rw [contents, List.length_drop] at some
    show q.removed + n ≤ q.entered.length
    omega

end ByteQueue

namespace Buffer

open Machine ByteQueue

/-- Every admissible call succeeds and does to the buffer what it means for the queue. -/
theorem call_does {b : Buffer} {q : ByteQueue} (h : Holds b q) {op : Op} (fits : b.Fits op) :
    ∃ x r q', b.call op = .ok (x, r) ∧ Does b.iovecSpace q op x q' ∧ Holds r q' := by
  cases op with
  | append buf len =>
    obtain ⟨nonneg, _, inside⟩ := fits
    obtain ⟨r, hr, grown⟩ := b.append_take_spec nonneg inside
    obtain ⟨n, rfl⟩ := Int.eq_ofNat_of_zero_le nonneg
    refine ⟨.nothing, r, _, ?_, .append buf n (by omega), h.enter grown⟩
    simp only [call, hr, Except.map]
  | retrieve len =>
    obtain ⟨nonneg, _, some⟩ := fits
    obtain ⟨n, rfl⟩ := Int.eq_ofNat_of_zero_le nonneg
    have enough : n ≤ b.readBuffSize := by omega
    obtain ⟨r, hr, left⟩ := b.retrieve_spec enough
    have length := h.length
    refine ⟨.nothing, r, _, ?_, .retrieve n (by omega), h.remove (by omega) left⟩
    simp only [call, hr, Except.map]
  | retrieveAsString len =>
    obtain ⟨short, some⟩ := fits
    obtain ⟨r, hr, left⟩ := b.retrieveAsString_spec short some
    rw [h.length] at some
    rw [h.readable] at hr
    refine ⟨_, r, _, ?_, .retrieveAsString len some, h.remove some left⟩
    simp only [call, hr, Except.map]
  | retrieveAllAsString =>
    obtain ⟨r, hr, left⟩ := b.retrieveAsString_spec fits (Nat.le_refl _)
    rw [h.length] at left hr
    rw [h.readable, List.take_length] at hr
    refine ⟨_, r, _, ?_, .retrieveAllAsString, h.remove (Nat.le_refl _) left⟩
    simp only [call, retrieveAllAsString, h.length, hr, Except.map]
  | readFd readv =>
    cases readv with
    | failed => exact ⟨.count (-1), b, q, rfl, .readNothing, h⟩
    | read bytes =>
      obtain ⟨r, hr, grown⟩ := b.readFd_spec bytes
      rw [List.length_take] at hr
      refine ⟨_, r, _, ?_, .read bytes, h.enter grown⟩
      simp only [call, hr, Except.map]

theorem run_does {ops : List Op} {b : Buffer} {q : ByteQueue} (h : Holds b q)
    {sofar : List Returned} (fits : Along step (fun s op => s.1.Fits op) (b, sofar) ops) :
    ∃ xs r q', run step (b, sofar) ops = .ok (r, sofar ++ xs) ∧ Runs b q ops xs r q' ∧
      Holds r q' := by
  induction ops generalizing b q sofar with
  | nil => exact ⟨[], b, q, by simp, .nil b q, h⟩
  | cons op rest ih =>
    obtain ⟨x, r, q', hcall, does, holds⟩ := call_does h fits.1
    have hstep : step (b, sofar) op = .ok (r, sofar ++ [x]) := by
      simp only [step, hcall, Except.map]
    obtain ⟨xs, t, q'', hrun, runs, last⟩ := ih holds ((along_cons_ok hstep).mp fits).2
    refine ⟨x :: xs, t, q'', ?_, .cons hcall does runs, last⟩
    rw [run_cons_ok hstep, hrun, List.append_assoc, List.singleton_append]

/-- Whatever is called in whatever order, the buffer is a queue of bytes: it holds all
that came in but what went out, and what it hands out is what it removes. -/
theorem refines_byteQueue (initSize : Nat) {ops : List Op}
    (fits : Along step (fun s op => s.1.Fits op) (new initSize, []) ops) :
    ∃ b xs q, run step (new initSize, []) ops = .ok (b, xs) ∧
      Runs (new initSize) .empty ops xs b q ∧
      b.readable = q.entered.drop q.removed ∧ q.removed ≤ q.entered.length := by
  have start : Holds (new initSize) .empty := ⟨by simp [contents, ByteQueue.empty], Nat.le_refl 0⟩
  obtain ⟨xs, b, q, hrun, runs, holds⟩ := run_does start fits
  exact ⟨b, xs, q, hrun, runs, holds.readable, holds.removed⟩

/-- A vector of two bytes: the third goes through `extrabuf`, and two are taken out. -/
def threeBytes : List Op := [.readFd (.read [1, 2, 3]), .retrieveAsString 2, .append [4, 5] 1]

theorem refines_byteQueue_threeBytes :
    ∃ b q, run step (new 2, []) threeBytes =
        .ok (b, [.count 3, .string [1, 2], .nothing]) ∧
      Runs (new 2) .empty threeBytes [.count 3, .string [1, 2], .nothing] b q ∧
      b.readable = [3, 4] ∧ b.readable = q.entered.drop q.removed ∧
      q.removed ≤ q.entered.length := by
  have fits : Along step (fun s op => s.1.Fits op) (new 2, []) threeBytes :=
    ⟨trivial, ⟨by decide, by decide⟩, ⟨by decide, by decide, by decide⟩, trivial⟩
  obtain ⟨b, xs, q, ran, runs, readable, removed⟩ := refines_byteQueue 2 fits
  have evaluated : (run step (new 2, []) threeBytes).toOption.map
      (fun s => (s.2, s.1.readable)) =
        some ([.count 3, .string [1, 2], .nothing], [3, 4]) := by decide
  rw [ran] at evaluated
  obtain ⟨rfl, left⟩ := Prod.mk.inj (Option.some.inj evaluated)
  exact ⟨b, q, ran, runs, left, readable, removed⟩

end Buffer

end ZDQ
