import ThreadAndNet.Binary64
import ThreadAndNet.Failure

/-!
# Timestamps

A timestamp is its `microSeconds_`, an `int64_t`; the constructor takes a double.
-/

namespace ZDQ

namespace Timestamp

def kMicroSecondsPerSecond : ℕ := 1000 * 1000

/-- What fits into an `int64_t`. -/
def Int64 (n : ℤ) : Prop := -2 ^ 63 ≤ n ∧ n < 2 ^ 63

instance (n : ℤ) : Decidable (Int64 n) := inferInstanceAs (Decidable (_ ∧ _))

/-- An integer result, or a conversion, that has to fit into an `int64_t`. -/
def int64 (n : Option ℤ) : Except Failure ℤ :=
  match n with
  | none => .error .undefined
  | some n => if Int64 n then .ok n else .error .undefined

theorem int64_cases {n m : ℤ} (h : int64 (some n) = .ok m) : Int64 n ∧ n = m := by
  unfold int64 at h
  dsimp only at h
  split at h
  · rename_i fits
    cases h
    exact ⟨fits, rfl⟩
  · cases h

/-- The constructor. -/
def new (ms : Binary64) : Except Failure ℤ := int64 ms.toInt?

def nowAfter (now : ℤ) (seconds : Binary64) : Except Failure ℤ :=
  match int64 (seconds.scale kMicroSecondsPerSecond).toInt? with
  | .error e => .error e
  | .ok delta =>
    match int64 (some (now + delta)) with
    | .error e => .error e
    | .ok sum => new (.ofInt sum)

/-- Adding these microseconds overflows nothing, and the sum has no more significant
bits than a double. -/
def Exact (now delta : ℤ) : Prop :=
  Int64 delta ∧ Int64 (now + delta) ∧ Binary64.Representable (now + delta)

/-- `nowAfter` adds the whole microseconds of its argument only then. -/
theorem nowAfter_eq_iff {now delta : ℤ} {seconds : Binary64}
    (whole : (seconds.scale kMicroSecondsPerSecond).toInt? = some delta) :
    nowAfter now seconds = .ok (now + delta) ↔ Exact now delta := by
  simp only [nowAfter, new, whole, Exact, ← Binary64.toInt?_ofInt_eq_iff]
  constructor
  · intro h
    split at h
    · cases h
    rename_i d hd
    split at h
    · cases h
    rename_i sum hsum
    obtain ⟨small, rfl⟩ := int64_cases hd
    obtain ⟨fits, rfl⟩ := int64_cases hsum
    cases hback : (Binary64.ofInt (now + delta)).toInt? with
    | none =>
      rw [hback] at h
      cases h
    | some n =>
      rw [hback] at h
      obtain ⟨_, rfl⟩ := int64_cases h
      exact ⟨small, fits, rfl⟩
  · rintro ⟨small, fits, back⟩
    simp only [int64, small, fits, back, if_true]

end Timestamp

end ZDQ
