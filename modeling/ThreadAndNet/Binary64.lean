import Mathlib.Data.Nat.Log
import Mathlib.Tactic.Positivity

/-!
# Doubles and the integers they can hold

A finite double is a mantissa of at most 53 bits times a power of two. Exponents are
not bounded: nothing here tells an overflow to infinity from a number that no integer
type can hold.
-/

inductive Binary64 where
  | finite (mantissa exponent : ℤ) (precise : mantissa.natAbs ≤ 2 ^ 53)
  | infinite (negative : Bool)
  | nan
deriving DecidableEq

namespace Binary64

/-- How many low bits do not fit into 53. -/
def excess (a : ℕ) : ℕ := Nat.log 2 a + 1 - 53

/-- The nearest multiple of `2 ^ excess a`, counted in that unit; ties go to even. -/
def quotient (a : ℕ) : ℕ :=
  let unit := 2 ^ excess a
  let q := a / unit
  let r := a % unit
  if unit < 2 * r ∨ 2 * r = unit ∧ q % 2 = 1 then q + 1 else q

theorem lt_unit (a : ℕ) : a < 2 ^ 53 * 2 ^ excess a := by
  have bits : a < 2 ^ (Nat.log 2 a + 1) := Nat.lt_pow_succ_log_self (by decide) a
  refine lt_of_lt_of_le bits ?_
  rw [← pow_add]
  exact Nat.pow_le_pow_right (by decide) (by rw [excess]; omega)

theorem quotient_le (a : ℕ) : quotient a ≤ 2 ^ 53 := by
  have small : a / 2 ^ excess a < 2 ^ 53 :=
    (Nat.div_lt_iff_lt_mul (Nat.two_pow_pos _)).mpr (lt_unit a)
  unfold quotient
  dsimp only
  split <;> omega

theorem signed_quotient_le (n : ℤ) : (n.sign * quotient n.natAbs).natAbs ≤ 2 ^ 53 := by
  have sign : n.sign.natAbs ≤ 1 := by
    rcases Int.sign_trichotomy n with h | h | h <;> rw [h] <;> decide
  rw [Int.natAbs_mul, Int.natAbs_natCast]
  calc n.sign.natAbs * quotient n.natAbs ≤ 1 * quotient n.natAbs :=
        Nat.mul_le_mul_right _ sign
    _ ≤ 2 ^ 53 := by rw [one_mul]; exact quotient_le n.natAbs

/-- The double nearest to `n * 2 ^ e`. -/
def round (n e : ℤ) : Binary64 :=
  .finite (n.sign * quotient n.natAbs) (e + excess n.natAbs) (signed_quotient_le n)

def ofInt (n : ℤ) : Binary64 := round n 0

/-- The product with a positive integer. -/
def scale (x : Binary64) (n : ℕ) : Binary64 :=
  match x with
  | .finite mantissa exponent _ => round (mantissa * n) exponent
  | .infinite negative => .infinite negative
  | .nan => .nan

/-- The quotient of two positive integers that doubles can hold: two bits more than fit,
behind them one that says whether something is left, and then rounded. -/
def ratio (n d : ℕ) : Binary64 :=
  let k := Nat.log 2 d + 56
  round (2 * (n * 2 ^ k / d) + if d ∣ n * 2 ^ k then 0 else 1 : ℕ) (-(k + 1))

def positive : Binary64 → Bool
  | .finite mantissa _ _ => 0 < mantissa
  | .infinite negative => !negative
  | .nan => false

/-- Truncation; there is no integer for infinities and NaN. -/
def toInt? : Binary64 → Option ℤ
  | .finite mantissa exponent _ =>
    if 0 ≤ exponent then some (mantissa * 2 ^ exponent.toNat)
    else some (mantissa.tdiv (2 ^ (-exponent).toNat))
  | .infinite _ => none
  | .nan => none

/-- The integers with at most 53 significant bits. -/
def Representable (n : ℤ) : Prop := ∃ (m : ℤ) (k : ℕ), m.natAbs ≤ 2 ^ 53 ∧ n = m * 2 ^ k

theorem representable_of_le {n : ℤ} (small : n.natAbs ≤ 2 ^ 53) : Representable n :=
  ⟨n, 0, small, by rw [pow_zero, mul_one]⟩

theorem toInt?_ofInt (n : ℤ) :
    (ofInt n).toInt? = some (n.sign * quotient n.natAbs * 2 ^ excess n.natAbs) := by
  simp [ofInt, round, toInt?]

theorem quotient_of_dvd {a : ℕ} (h : 2 ^ excess a ∣ a) :
    quotient a * 2 ^ excess a = a := by
  have unit := Nat.two_pow_pos (excess a)
  have unrounded : quotient a = a / 2 ^ excess a := by
    unfold quotient
    dsimp only
    rw [Nat.mod_eq_zero_of_dvd h, if_neg (by omega)]
  rw [unrounded, Nat.div_mul_cancel h]

/-- Few significant bits are a multiple of the unit. -/
theorem excess_dvd {m k : ℕ} (small : m ≤ 2 ^ 53) : 2 ^ excess (m * 2 ^ k) ∣ m * 2 ^ k := by
  rcases Nat.eq_zero_or_pos m with rfl | pos
  · simp
  rcases Nat.lt_or_ge m (2 ^ 53) with less | same
  · have bits : Nat.log 2 (m * 2 ^ k) < 53 + k := by
      refine Nat.log_lt_of_lt_pow (by positivity) ?_
      rw [pow_add]
      exact Nat.mul_lt_mul_of_pos_right less (Nat.two_pow_pos k)
    refine (Nat.pow_dvd_pow 2 ?_).trans (Nat.dvd_mul_left _ _)
    rw [excess]
    omega
  · obtain rfl : m = 2 ^ 53 := by omega
    rw [← pow_add]
    refine Nat.pow_dvd_pow 2 ?_
    rw [excess, Nat.log_pow (by decide)]
    omega

/-- An integer survives being stored in a double exactly if it has at most 53
significant bits. -/
theorem toInt?_ofInt_eq_iff (n : ℤ) : (ofInt n).toInt? = some n ↔ Representable n := by
  rw [toInt?_ofInt]
  constructor
  · intro h
    exact ⟨_, excess n.natAbs, signed_quotient_le n, (Option.some.inj h).symm⟩
  · rintro ⟨m, k, small, rfl⟩
    have abs : (m * 2 ^ k).natAbs = m.natAbs * 2 ^ k := by
      rw [Int.natAbs_mul, Int.natAbs_pow]
      rfl
    have dvd : 2 ^ excess (m * 2 ^ k).natAbs ∣ (m * 2 ^ k).natAbs := by
      rw [abs]
      exact excess_dvd small
    have whole : (quotient (m * 2 ^ k).natAbs : ℤ) * 2 ^ excess (m * 2 ^ k).natAbs =
        (m * 2 ^ k).natAbs := by
      exact_mod_cast quotient_of_dvd dvd
    rw [mul_assoc, whole, Int.sign_mul_natAbs]

end Binary64
