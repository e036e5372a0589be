import ThreadAndNet.Buffer
import ThreadAndNet.Printf
import ThreadAndNet.Timestamp

/-!
# The text of a timestamp

`toString` divides the microseconds into two variables of type `int`. Up to the
second 2^31 the text is the number of seconds, a dot and six digits, from which
the timestamp can be read back; from there on the seconds wrap around.
-/

namespace ZDQ.Timestamp

open Printf

def valid (microSeconds : ℤ) : Bool := 0 < microSeconds

/-- What `toString` passes on. The directives are those of `int64_t`, and each `int` is
taken to be read with its value. -/
def textArgs (microSeconds : ℤ) : List Arg :=
  let second := narrow (microSeconds.tdiv kMicroSecondsPerSecond)
  let micro_second := narrow (microSeconds.tmod kMicroSecondsPerSecond)
  [.long second, .long micro_second]

/-- `"%" PRId64 ".%06" PRId64` -/
def textFormat : String := "%ld.%06ld"

/-- `buf` is `char[32]`, and `toString` leaves its last byte alone. -/
def toString (microSeconds : ℤ) : Except Failure String :=
  match snprintf (32 - 1) textFormat (textArgs microSeconds) with
  | none => .error .undefined
  | some buf => .ok (String.ofList buf)

/-- The microseconds for which a text of seconds, a dot and six digits stands. -/
def readText (text : List Char) : Option ℤ :=
  match text.dropWhile (· != '.') with
  | '.' :: micro =>
    if micro.length = 6 then
      match readNat (text.takeWhile (· != '.')), readNat micro with
      | some second, some micro => some ((second * kMicroSecondsPerSecond + micro : ℕ) : ℤ)
      | _, _ => none
    else none
  | _ => none

/-- The text of the timestamp is whole, the number of seconds with six digits behind the
dot, and can be read back. -/
structure Prints (m : ℤ) : Prop where
  fits : ∃ text, format textFormat (textArgs m) = some text ∧ text.length < 32 - 1
  shape : ∃ micro, micro.length = 6 ∧ (∀ c ∈ micro, c.isDigit) ∧
    toString m = .ok (String.ofList
      (Nat.toDigits 10 (m.toNat / kMicroSecondsPerSecond) ++ '.' :: micro))
  back : ∃ text, toString m = .ok text ∧ readText text.toList = some m

/-! ## What is written -/

theorem format_textArgs (second micro_second : ℤ) :
    format textFormat [.long second, .long micro_second] =
      some (number 0 second ++ '.' :: number 6 micro_second) := by
  have directives : parse textFormat.toList = some [.ld 0, .text '.', .ld 6] := by decide
  simp only [format, directives, Option.bind_some, expand_text, expand_ld, expand_nil,
    Option.map_some, List.append_nil]

/-- For a valid timestamp both parts are not negative, and the second is what it should be. -/
theorem textArgs_valid {m : ℤ} (pos : 0 < m) :
    textArgs m = [.long (narrow (m.toNat / kMicroSecondsPerSecond : ℕ)),
      .long (m.toNat % kMicroSecondsPerSecond : ℕ)] := by
  obtain ⟨n, rfl⟩ := Int.eq_ofNat_of_zero_le pos.le
  have small : n % kMicroSecondsPerSecond < 2 ^ 31 := by
    rw [kMicroSecondsPerSecond]
    omega
  have quotient : (n : ℤ).tdiv kMicroSecondsPerSecond = (n / kMicroSecondsPerSecond : ℕ) :=
    (Int.ofNat_tdiv _ _).symm
  have rest : (n : ℤ).tmod kMicroSecondsPerSecond = (n % kMicroSecondsPerSecond : ℕ) :=
    (Int.ofNat_tmod _ _).symm
  simp only [textArgs, quotient, rest, Int.toNat_natCast, narrow_natCast small]

/-- The two parts of the text of a valid timestamp. -/
def textOf (m : ℤ) : List Char :=
  number 0 (narrow (m.toNat / kMicroSecondsPerSecond : ℕ)) ++
    '.' :: padded 6 (m.toNat % kMicroSecondsPerSecond)

theorem format_valid {m : ℤ} (pos : 0 < m) :
    format textFormat (textArgs m) = some (textOf m) := by
  rw [textArgs_valid pos, format_textArgs]
  rfl

theorem microseconds_lt (n : ℕ) : n % kMicroSecondsPerSecond < 10 ^ 6 := by
  rw [kMicroSecondsPerSecond]
  omega

/-- Whatever the seconds wrap around to, the text fits. -/
theorem length_textOf (m : ℤ) : (textOf m).length ≤ 18 := by
  obtain ⟨low, high⟩ := narrow_range (m.toNat / kMicroSecondsPerSecond : ℕ)
  have seconds : (number 0 (narrow (m.toNat / kMicroSecondsPerSecond : ℕ))).length ≤ 11 :=
    length_number_le (by omega) (by omega) (by omega) (Nat.zero_le 10)
  have digits : (padded 6 (m.toNat % kMicroSecondsPerSecond)).length = 6 :=
    length_padded (by omega) (microseconds_lt _)
  rw [textOf, List.length_append, List.length_cons, digits]
  omega

theorem toString_valid {m : ℤ} (pos : 0 < m) :
    toString m = .ok (String.ofList (textOf m)) := by
  have length := length_textOf m
  have written : snprintf (32 - 1) textFormat (textArgs m) = some (textOf m) :=
    snprintf_of_fits (format_valid pos) (by omega)
  rw [toString, written]

theorem dot_notMem_padded (width n : ℕ) : '.' ∉ padded width n := by
  intro h
  have digit := isDigit_of_mem_padded h
  exact absurd digit (by decide)

theorem dot_notMem_number (width : ℕ) (n : ℤ) : '.' ∉ number width n := by
  cases n with
  | ofNat n => exact dot_notMem_padded width n
  | negSucc n =>
    intro h
    rcases List.mem_cons.mp h with minus | h
    · exact absurd minus (by decide)
    · exact dot_notMem_padded (width - 1) (n + 1) h

/-! ## Reading it back -/

theorem readText_append {second micro : List Char} {s u : ℕ}
    (hs : readNat second = some s) (hu : readNat micro = some u) (six : micro.length = 6) :
    readText (second ++ '.' :: micro) = some ((s * kMicroSecondsPerSecond + u : ℕ) : ℤ) := by
  have digits : ∀ c ∈ second, (c != '.') = true := by
    intro c hc
    have digit := isDigit_of_readNat hs c hc
    have other : c ≠ '.' := by
      rintro rfl
      exact absurd digit (by decide)
    exact bne_iff_ne.mpr other
  have rest : (second ++ '.' :: micro).dropWhile (· != '.') = '.' :: micro := by
    rw [List.dropWhile_append_of_pos digits]
    rfl
  have front : (second ++ '.' :: micro).takeWhile (· != '.') = second := by
    rw [List.takeWhile_append_of_pos digits]
    simp
  simp only [readText, rest, front, six, hs, hu, if_true]

theorem seconds_lt {m : ℤ} (early : m < 2 ^ 31 * kMicroSecondsPerSecond) :
    m.toNat / kMicroSecondsPerSecond < 2 ^ 31 := by
  rw [kMicroSecondsPerSecond] at *
  omega

theorem readText_textOf {m : ℤ} (pos : 0 < m) (early : m < 2 ^ 31 * kMicroSecondsPerSecond) :
    readText (textOf m) = some m := by
  have digits : (padded 6 (m.toNat % kMicroSecondsPerSecond)).length = 6 :=
    length_padded (by omega) (microseconds_lt _)
  rw [textOf, narrow_natCast (seconds_lt early), number_natCast,
    readText_append (readNat_padded _ _) (readNat_padded _ _) digits]
  congr 1
  rw [Nat.div_add_mod']
  omega

theorem prints_of_lt {m : ℤ} (pos : 0 < m) (early : m < 2 ^ 31 * kMicroSecondsPerSecond) :
    Prints m := by
  have length := length_textOf m
  refine ⟨⟨textOf m, format_valid pos, by omega⟩, ?_, ?_⟩
  · refine ⟨padded 6 (m.toNat % kMicroSecondsPerSecond),
      length_padded (by omega) (microseconds_lt _), fun c => isDigit_of_mem_padded, ?_⟩
    rw [toString_valid pos, textOf, narrow_natCast (seconds_lt early), number_natCast,
      padded_zero]
  · refine ⟨_, toString_valid pos, ?_⟩
    rw [String.toList_ofList, readText_textOf pos early]

/-- From the second 2^31 on another number of seconds is printed. -/
theorem lt_of_prints {m : ℤ} (pos : 0 < m) (h : Prints m) :
    m < 2 ^ 31 * kMicroSecondsPerSecond := by
  obtain ⟨micro, _, digits, shape⟩ := h.shape
  rw [toString_valid pos] at shape
  have same := String.ofList_injective (Except.ok.inj shape)
  have notMem : '.' ∉ micro := by
    intro dot
    exact absurd (digits _ dot) (by decide)
  rw [textOf, List.append_cons_inj_of_notMem (dot_notMem_number _ _)
    (dot_notMem_padded _ _)] at same
  rw [← padded_zero, ← number_natCast] at same
  have second := number_injective 0 same.1
  have high := (narrow_range (m.toNat / kMicroSecondsPerSecond : ℕ)).2
  rw [second] at high
  rw [kMicroSecondsPerSecond] at *
  omega

/-- Timestamps are printed as they should be, and are told apart by their texts, exactly
up to the second 2^31. -/
theorem toString_prints_iff {m k : ℤ} (mvalid : valid m) (kvalid : valid k) :
    Prints m ∧ Prints k ∧ (m ≠ k → toString m ≠ toString k) ↔
      m < 2 ^ 31 * kMicroSecondsPerSecond ∧ k < 2 ^ 31 * kMicroSecondsPerSecond := by
  have mpos : 0 < m := of_decide_eq_true mvalid
  have kpos : 0 < k := of_decide_eq_true kvalid
  constructor
  · rintro ⟨first, second, _⟩
    exact ⟨lt_of_prints mpos first, lt_of_prints kpos second⟩
  · rintro ⟨mearly, kearly⟩
    refine ⟨prints_of_lt mpos mearly, prints_of_lt kpos kearly, fun other same => ?_⟩
    rw [toString_valid mpos, toString_valid kpos] at same
    have text : textOf m = textOf k := String.ofList_injective (Except.ok.inj same)
    apply other
    have read := readText_textOf mpos mearly
    rw [text, readText_textOf kpos kearly] at read
    exact (Option.some.inj read).symm

theorem toString_prints_now :
    Prints 1470585600000000 ∧ Prints 1 ∧
        ((1470585600000000 : ℤ) ≠ 1 → toString 1470585600000000 ≠ toString 1) ↔
      (1470585600000000 : ℤ) < 2 ^ 31 * kMicroSecondsPerSecond ∧
        (1 : ℤ) < 2 ^ 31 * kMicroSecondsPerSecond :=
  toString_prints_iff (by decide) (by decide)

/-- The first microsecond of the second 2^31. -/
def firstWrapped : ℤ := 2147483648000000

theorem toString_firstWrapped :
    valid firstWrapped ∧ Int64 firstWrapped ∧
      toString firstWrapped = .ok "-2147483648.000000" ∧ ¬ Prints firstWrapped := by
  refine ⟨by decide, by decide, by decide +kernel, fun prints => ?_⟩
  have early := lt_of_prints (by decide) prints
  exact absurd early (by decide)

end ZDQ.Timestamp
