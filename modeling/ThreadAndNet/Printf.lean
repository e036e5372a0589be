import Mathlib.Algebra.Order.Group.Int
import Mathlib.Algebra.Order.Ring.Nat
import Mathlib.Data.List.Basic

/-!
# Formatted output

`snprintf` for `%s` and for `%d` and `%ld`, with or without a zero-padded width.
An argument carries the type it is passed with: a directive takes an argument of
its own type only, and anything else is undefined.
-/

namespace Printf

inductive Arg where
  | int (n : ℤ)
  | long (n : ℤ)
  | string (s : List Char)

inductive Directive where
  | text (c : Char)
  /-- `%s` -/
  | s
  /-- `%d`, or `%0wd` with a width -/
  | d (width : ℕ)
  /-- `%ld`, or `%0wld` with a width -/
  | ld (width : ℕ)
deriving DecidableEq

/-- The directives of a format, with widths of one digit. -/
def parse : List Char → Option (List Directive)
  | [] => some []
  | '%' :: 's' :: rest => (parse rest).map (.s :: ·)
  | '%' :: 'd' :: rest => (parse rest).map (.d 0 :: ·)
  | '%' :: 'l' :: 'd' :: rest => (parse rest).map (.ld 0 :: ·)
  | '%' :: '0' :: w :: 'd' :: rest => (parse rest).map (.d (w.toNat - '0'.toNat) :: ·)
  | '%' :: '0' :: w :: 'l' :: 'd' :: rest =>
    (parse rest).map (.ld (w.toNat - '0'.toNat) :: ·)
  | '%' :: _ => none
  | c :: rest => (parse rest).map (.text c :: ·)

/-- The decimal digits of a number behind as many zeros as the width asks for. -/
def padded (width n : ℕ) : List Char :=
  List.replicate (width - (Nat.toDigits 10 n).length) '0' ++ Nat.toDigits 10 n

/-- A number with its sign, which counts for the width. -/
def number (width : ℕ) : ℤ → List Char
  | .ofNat n => padded width n
  | .negSucc n => '-' :: padded (width - 1) (n + 1)

/-- What the directives write in all; arguments left over are ignored. -/
def expand : List Directive → List Arg → Option (List Char)
  | [], _ => some []
  | .text c :: rest, args => (expand rest args).map (c :: ·)
  | .s :: rest, .string s :: args => (expand rest args).map (s ++ ·)
  | .d w :: rest, .int n :: args => (expand rest args).map (number w n ++ ·)
  | .ld w :: rest, .long n :: args => (expand rest args).map (number w n ++ ·)
  | _ :: _, _ => none

@[simp] theorem expand_nil (args : List Arg) : expand [] args = some [] := rfl

@[simp] theorem expand_text (c : Char) (rest : List Directive) (args : List Arg) :
    expand (.text c :: rest) args = (expand rest args).map (c :: ·) := rfl

@[simp] theorem expand_ld (w : ℕ) (rest : List Directive) (n : ℤ) (args : List Arg) :
    expand (.ld w :: rest) (.long n :: args) = (expand rest args).map (number w n ++ ·) := rfl

/-- A number is no string. -/
@[simp] theorem expand_s_int (rest : List Directive) (n : ℤ) (args : List Arg) :
    expand (.s :: rest) (.int n :: args) = none := rfl

def format (fmt : String) (args : List Arg) : Option (List Char) :=
  (parse fmt.toList).bind (expand · args)

/-- The characters in a buffer of this size before the terminating zero. -/
def snprintf (size : ℕ) (fmt : String) (args : List Arg) : Option (List Char) :=
  (format fmt args).map (List.take (size - 1))

theorem snprintf_of_fits {size : ℕ} {fmt : String} {args : List Arg} {text : List Char}
    (written : format fmt args = some text) (fits : text.length < size) :
    snprintf size fmt args = some text := by
  rw [snprintf, written, Option.map_some, List.take_of_length_le (by omega)]

/-! ## Reading a number back -/

theorem isDigit_of_mem_padded {width n : ℕ} {c : Char} (h : c ∈ padded width n) :
    c.isDigit := by
  rcases List.mem_append.mp h with zero | digit
  · rw [List.eq_of_mem_replicate zero]
    rfl
  · exact Nat.isDigit_of_mem_toDigits (by omega) (by omega) digit

theorem padded_ne_nil (width n : ℕ) : padded width n ≠ [] := by
  simp [padded]

/-- The zeros in front add nothing. -/
theorem ofDigitChars_padded (width n : ℕ) : Nat.ofDigitChars 10 (padded width n) 0 = n := by
  rw [padded, Nat.ofDigitChars_append, Nat.ofDigitChars_replicate_zero, Nat.mul_zero,
    Nat.ofDigitChars_ten_toDigits]

theorem padded_injective {v w n m : ℕ} (same : padded v n = padded w m) : n = m := by
  calc
    n = Nat.ofDigitChars 10 (padded v n) 0 := (ofDigitChars_padded v n).symm
    _ = Nat.ofDigitChars 10 (padded w m) 0 := by rw [same]
    _ = m := ofDigitChars_padded w m

theorem length_toDigits_le {n k : ℕ} (pos : 0 < k) (small : n < 10 ^ k) :
    (Nat.toDigits 10 n).length ≤ k :=
  (Nat.length_toDigits_le_iff (by omega) pos).mpr small

theorem length_padded {n k : ℕ} (pos : 0 < k) (small : n < 10 ^ k) :
    (padded k n).length = k := by
  have := length_toDigits_le pos small
  rw [padded, List.length_append, List.length_replicate]
  omega

theorem length_padded_le {n k width : ℕ} (pos : 0 < k) (small : n < 10 ^ k)
    (narrow : width ≤ k) : (padded width n).length ≤ k := by
  have := length_toDigits_le pos small
  rw [padded, List.length_append, List.length_replicate]
  omega

@[simp] theorem padded_zero (n : ℕ) : padded 0 n = Nat.toDigits 10 n := by
  simp [padded]

@[simp] theorem number_natCast (width n : ℕ) : number width n = padded width n := rfl

theorem length_number_le {n : ℤ} {k width : ℕ} (pos : 0 < k) (low : -10 ^ k < n)
    (high : n < 10 ^ k) (narrow : width ≤ k) : (number width n).length ≤ k + 1 := by
  cases n with
  | ofNat n =>
    have small : n < 10 ^ k := by
      rw [Int.ofNat_eq_natCast] at high
      exact_mod_cast high
    have := length_padded_le pos small narrow
    rw [number]
    omega
  | negSucc n =>
    have small : n + 1 < 10 ^ k := by
      rw [Int.negSucc_eq] at low
      exact_mod_cast neg_lt_neg_iff.mp low
    have := length_padded_le pos small (show width - 1 ≤ k by omega)
    rw [number, List.length_cons]
    omega

/-- A minus sign is no digit. -/
theorem minus_notMem_padded (width n : ℕ) : '-' ∉ padded width n := by
  intro h
  have digit := isDigit_of_mem_padded h
  exact absurd digit (by decide)

theorem number_injective (width : ℕ) : Function.Injective (number width) := by
  intro n m same
  cases n with
  | ofNat n =>
    cases m with
    | ofNat m => rw [padded_injective same]
    | negSucc m =>
      have minus : '-' ∈ padded width n := by
        have : padded width n = '-' :: padded (width - 1) (m + 1) := same
        rw [this]
        exact List.mem_cons_self
      exact absurd minus (minus_notMem_padded width n)
  | negSucc n =>
    cases m with
    | ofNat m =>
      have minus : '-' ∈ padded width m := by
        have : '-' :: padded (width - 1) (n + 1) = padded width m := same
        rw [← this]
        exact List.mem_cons_self
      exact absurd minus (minus_notMem_padded width m)
    | negSucc m =>
      have tail : padded (width - 1) (n + 1) = padded (width - 1) (m + 1) :=
        (List.cons.inj same).2
      have := padded_injective tail
      congr 1
      omega

/-- The value of a text of decimal digits. -/
def readNat (text : List Char) : Option ℕ :=
  if text ≠ [] ∧ text.all Char.isDigit then some (Nat.ofDigitChars 10 text 0) else none

theorem readNat_padded (width n : ℕ) : readNat (padded width n) = some n := by
  have digits : (padded width n).all Char.isDigit := by
    rw [List.all_eq_true]
    exact fun c h => isDigit_of_mem_padded h
  rw [readNat, if_pos ⟨padded_ne_nil width n, digits⟩, ofDigitChars_padded]

theorem isDigit_of_readNat {text : List Char} {n : ℕ} (h : readNat text = some n) :
    ∀ c ∈ text, c.isDigit := by
  rw [readNat] at h
  split at h
  · rename_i digits
    exact List.all_eq_true.mp digits.2
  · cases h

end Printf
