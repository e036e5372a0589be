import ThreadAndNet.BufferFifo

/-!
# How large a buffer gets

The free space in front of the readable bytes is never more than `move_line`, so
the vector grows for the bytes that are waiting only: its size is bounded by what
was waiting at most, however much went through.
-/

namespace ZDQ.Buffer

open Machine

/-- The indexes stay near the front, and the vector is not larger than it had to be for a
backlog of `peak` bytes. -/
structure Compact (initSize peak : Nat) (b : Buffer) : Prop where
  front : b.readIndex ≤ move_line
  reset : b.readIndex = b.writeIndex → b.readIndex = 0
  size : b.v_buff.length ≤ max initSize (move_line + peak)

/-- Bytes were added, in a vector that is as large as before or just large enough. -/
structure Grows (b r : Buffer) : Prop where
  readIndex : r.readIndex = b.readIndex
  writeIndex : b.writeIndex ≤ r.writeIndex
  size : r.v_buff.length ≤ max b.v_buff.length r.writeIndex

/-- Bytes were taken out or moved within the vector. -/
structure Settles (b r : Buffer) : Prop where
  front : r.readIndex ≤ move_line
  reset : r.readIndex = r.writeIndex → r.readIndex = 0
  size : r.v_buff.length = b.v_buff.length

variable {b r t : Buffer}

theorem Grows.refl (b : Buffer) : Grows b b := ⟨rfl, Nat.le_refl _, Nat.le_max_left _ _⟩

theorem Grows.trans (h : Grows b r) (h' : Grows r t) : Grows b t := by
  obtain ⟨read, write, size⟩ := h
  obtain ⟨read', write', size'⟩ := h'
  exact ⟨read'.trans read, Nat.le_trans write write', by omega⟩

theorem put_grows {v data : List UInt8} (room : b.writeIndex + data.length ≤ v.length)
    (fits : v.length ≤ max b.v_buff.length (b.writeIndex + data.length)) :
    Grows b (b.put v data room) := by
  refine ⟨rfl, Nat.le_add_right _ _, ?_⟩
  show (overwrite v b.writeIndex data).length ≤ _
  rw [length_overwrite room]
  exact fits

/-- The vector is resized to exactly what is needed, and only if it is too small. -/
theorem length_reserve_le (b : Buffer) (len : Nat) :
    (b.reserve len).length ≤ max b.v_buff.length (b.writeIndex + len) := by
  rw [reserve]
  split
  · rw [length_resize]
    omega
  · exact Nat.le_max_left _ _

theorem append_grows {buf : List UInt8} {len : Int} (h : b.append buf len = .ok r) :
    Grows b r := by
  unfold append at h
  split at h
  · rename_i inside
    cases h
    have length : (buf.take len.toNat).length = len.toNat := by
      rw [List.length_take]
      omega
    apply put_grows
    rw [length]
    exact b.length_reserve_le len.toNat
  · cases h

theorem fillTail_grows (b : Buffer) (got : List UInt8) : Grows b (b.fillTail got) :=
  put_grows _ (Nat.le_max_left _ _)

theorem readFd_grows {readv : Readv} {n : Int} (h : b.readFd readv = .ok (n, r)) :
    Grows b r := by
  cases readv with
  | failed =>
    cases h
    exact .refl b
  | read bytes =>
    unfold readFd at h
    dsimp only at h
    split at h
    · cases h
      exact b.fillTail_grows _
    · split at h
      · rename_i appended
        cases h
        exact (b.fillTail_grows _).trans (append_grows appended)
      · cases h

theorem movetohead_settles (b : Buffer) : Settles b b.movetohead :=
  ⟨Nat.zero_le _, fun _ => rfl, length_copyDown ..⟩

theorem clear_settles (b : Buffer) : Settles b b.clear := ⟨Nat.zero_le _, fun _ => rfl, rfl⟩

/-- What is left is moved to the front as soon as `move_line` is passed. -/
theorem retrieve_settles {len : Int} (h : b.retrieve len = .ok r) : Settles b r := by
  unfold retrieve at h
  split at h
  · rename_i readable
    split at h
    · rename_i part
      dsimp only at h
      split at h
      · cases h
        obtain ⟨front, reset, size⟩ := movetohead_settles (b.advance len.toNat (by omega))
        exact ⟨front, reset, size⟩
      · rename_i near
        cases h
        refine ⟨Nat.le_of_not_lt near, fun same => ?_, rfl⟩
        have same : b.readIndex + len.toNat = b.writeIndex := same
        rw [readBuffSize] at part
        omega
    · cases h
      exact b.clear_settles
  · cases h

theorem retrieveAsString_settles {len : Nat} {bytes : List UInt8}
    (h : b.retrieveAsString len = .ok (bytes, r)) : Settles b r := by
  unfold retrieveAsString at h
  split at h
  · split at h
    · rename_i retrieved
      cases h
      exact retrieve_settles retrieved
    · cases h
  · cases h

theorem call_settles_or_grows {op : Op} {x : Returned} (h : b.call op = .ok (x, r)) :
    Settles b r ∨ Grows b r := by
  cases op with
  | append buf len =>
    obtain ⟨r', appended, same⟩ := map_cases h
    cases same
    exact .inr (append_grows appended)
  | retrieve len =>
    obtain ⟨r', retrieved, same⟩ := map_cases h
    cases same
    exact .inl (retrieve_settles retrieved)
  | retrieveAsString len =>
    obtain ⟨⟨bytes, r'⟩, retrieved, same⟩ := map_cases h
    cases same
    exact .inl (retrieveAsString_settles retrieved)
  | retrieveAllAsString =>
    obtain ⟨⟨bytes, r'⟩, retrieved, same⟩ := map_cases h
    cases same
    exact .inl (retrieveAsString_settles retrieved)
  | readFd readv =>
    obtain ⟨⟨n, r'⟩, read, same⟩ := map_cases h
    cases same
    exact .inr (readFd_grows read)

/-! ## Runs -/

/-- The calls of `Op`, and `movetohead`, which is public too. -/
inductive MemoryOp where
  | call (op : Op)
  | movetohead

/-- The buffer, and the most bytes it has held after any call. -/
def memoryStep (s : Buffer × Nat) : MemoryOp → Except Failure (Buffer × Nat)
  | .call op => (s.1.call op).map (fun r => (r.2, max s.2 r.2.readBuffSize))
  | .movetohead => .ok (s.1.movetohead, max s.2 s.1.movetohead.readBuffSize)

def MemoryFits (s : Buffer × Nat) : MemoryOp → Prop
  | .call op => s.1.Fits op
  | .movetohead => True

theorem Compact.settles {initSize peak peak' : Nat} (h : Compact initSize peak b)
    (settles : Settles b r) (grown : peak ≤ peak') : Compact initSize peak' r := by
  obtain ⟨_, _, size⟩ := h
  obtain ⟨front, reset, same⟩ := settles
  exact ⟨front, reset, by omega⟩

theorem Compact.grows {initSize peak peak' : Nat} (h : Compact initSize peak b)
    (grows : Grows b r) (grown : peak ≤ peak') (backlog : r.readBuffSize ≤ peak') :
    Compact initSize peak' r := by
  obtain ⟨front, reset, size⟩ := h
  obtain ⟨read, write, size'⟩ := grows
  have ordered := b.ordered
  rw [readBuffSize] at backlog
  refine ⟨by omega, fun same => ?_, by omega⟩
  rw [read]
  apply reset
  omega

theorem memoryStep_compact {initSize : Nat} {s : Buffer × Nat} {op : MemoryOp}
    {t : Buffer × Nat} (h : Compact initSize s.2 s.1) (stepped : memoryStep s op = .ok t) :
    Compact initSize t.2 t.1 := by
  cases op with
  | call op =>
    obtain ⟨⟨x, r⟩, called, rfl⟩ := map_cases stepped
    rcases call_settles_or_grows called with settles | grows
    · exact h.settles settles (Nat.le_max_left _ _)
    · exact h.grows grows (Nat.le_max_left _ _) (Nat.le_max_right _ _)
  | movetohead =>
    cases stepped
    exact h.settles s.1.movetohead_settles (Nat.le_max_left _ _)

theorem new_compact (initSize : Nat) : Compact initSize 0 (new initSize) := by
  refine ⟨Nat.zero_le _, fun _ => rfl, ?_⟩
  show (List.replicate initSize (0 : UInt8)).length ≤ _
  rw [List.length_replicate]
  exact Nat.le_max_left _ _

/-- A call within its preconditions succeeds. -/
theorem memoryStep_ok {s : Buffer × Nat} {op : MemoryOp} (fits : MemoryFits s op) :
    ∃ t, memoryStep s op = .ok t := by
  cases op with
  | call op =>
    have holds : ByteQueue.Holds s.1 ⟨s.1.readable, 0⟩ := ⟨rfl, Nat.zero_le _⟩
    obtain ⟨x, r, _, called, _, _⟩ := call_does holds fits
    refine ⟨(r, max s.2 r.readBuffSize), ?_⟩
    simp only [memoryStep, called, Except.map]
  | movetohead => exact ⟨_, rfl⟩

theorem run_memory {initSize : Nat} {ops : List MemoryOp} {s : Buffer × Nat}
    (h : Compact initSize s.2 s.1) (fits : Along memoryStep MemoryFits s ops) :
    ∃ t, run memoryStep s ops = .ok t ∧ Compact initSize t.2 t.1 := by
  induction ops generalizing s with
  | nil => exact ⟨s, rfl, h⟩
  | cons op rest ih =>
    obtain ⟨m, hm⟩ := memoryStep_ok fits.1
    obtain ⟨t, hrun, last⟩ := ih (memoryStep_compact h hm) ((along_cons_ok hm).mp fits).2
    exact ⟨t, by rw [run_cons_ok hm, hrun], last⟩

/-- The most bytes held is the most any state of the run holds. -/
theorem peak_le {ops : List MemoryOp} {s t : Buffer × Nat} {bound : Nat} (start : s.2 ≤ bound)
    (backlog : Throughout memoryStep (fun s => s.1.readBuffSize ≤ bound) s ops)
    (ran : run memoryStep s ops = .ok t) : t.2 ≤ bound := by
  induction ops generalizing s with
  | nil =>
    cases ran
    exact start
  | cons op rest ih =>
    obtain ⟨m, hm, hrest⟩ := run_cons_inv ran
    have later := ((throughout_cons_ok hm).mp backlog).2
    have now : m.1.readBuffSize ≤ bound := later.start
    refine ih ?_ later hrest
    cases op with
    | call op =>
      obtain ⟨r, _, rfl⟩ := map_cases hm
      exact Nat.max_le.mpr ⟨start, now⟩
    | movetohead =>
      cases hm
      exact Nat.max_le.mpr ⟨start, now⟩

/-- Whatever passes through a buffer, it is no larger than it was made or than the line and
the most bytes that were waiting in it; a bound on what waits is a bound on its size. -/
theorem memory_bounded (initSize : Nat) {ops : List MemoryOp}
    (fits : Along memoryStep MemoryFits (new initSize, 0) ops) :
    ∃ b peak, run memoryStep (new initSize, 0) ops = .ok (b, peak) ∧
      b.readIndex ≤ b.writeIndex ∧ b.writeIndex ≤ b.v_buff.length ∧
      b.readIndex ≤ move_line ∧
      (b.readIndex = b.writeIndex → b.readIndex = 0 ∧ b.writeIndex = 0) ∧
      b.v_buff.length ≤ max initSize (move_line + peak) ∧
      ∀ bound, Throughout memoryStep (fun s => s.1.readBuffSize ≤ bound) (new initSize, 0) ops →
        b.v_buff.length ≤ max initSize (move_line + bound) := by
  obtain ⟨⟨b, peak⟩, ran, front, reset, size⟩ := run_memory (new_compact initSize) fits
  refine ⟨b, peak, ran, b.ordered, b.inside, front, fun same => ?_, size, fun bound backlog => ?_⟩
  · have zero := reset same
    exact ⟨zero, same ▸ zero⟩
  · have held : peak ≤ bound := peak_le (Nat.zero_le bound) backlog ran
    have size : b.v_buff.length ≤ max initSize (move_line + peak) := size
    omega

/-- A vector of two bytes is moved to the front and grows. -/
def passesThrough : List MemoryOp := [.call (.readFd (.read [1, 2, 3])), .call (.retrieve 2),
  .movetohead, .call (.append [4, 5, 6] 3), .call .retrieveAllAsString]

theorem memory_bounded_passesThrough :
    ∃ b peak, run memoryStep (new 2, 0) passesThrough = .ok (b, peak) ∧
      b.readIndex ≤ b.writeIndex ∧ b.writeIndex ≤ b.v_buff.length ∧
      b.readIndex ≤ move_line ∧
      (b.readIndex = b.writeIndex → b.readIndex = 0 ∧ b.writeIndex = 0) ∧
      b.v_buff.length ≤ max 2 (move_line + peak) ∧
      ∀ bound, Throughout memoryStep (fun s => s.1.readBuffSize ≤ bound) (new 2, 0)
          passesThrough → b.v_buff.length ≤ max 2 (move_line + bound) :=
  memory_bounded 2
    ⟨trivial, ⟨by decide, by decide, by decide⟩, trivial, ⟨by decide, by decide, by decide⟩,
      show readBuffSize _ < 2 ^ 31 by decide, trivial⟩

end ZDQ.Buffer
