import Mathlib.Tactic.Linarith

/-!
# Signed 64-bit arithmetic

Sums and products are taken over the integers, and `int64` says what 64 bits leave of them.  A
duration is such a number of nanoseconds.
-/

namespace K3sm.Core

/-- `time.Second`. -/
def second : ℕ := 1000000000

variable {value : ℤ}

/-- 64 bits with a sign hold the value. -/
def FitsInt64 (value : ℤ) : Prop := -2 ^ 63 ≤ value ∧ value < 2 ^ 63

instance (value : ℤ) : Decidable (FitsInt64 value) := inferInstanceAs (Decidable (_ ∧ _))

/-- The `int64` that a sum or a product leaves. -/
def int64 (value : ℤ) : ℤ := (value + 2 ^ 63) % 2 ^ 64 - 2 ^ 63

theorem int64_of_fits (hlow : -2 ^ 63 ≤ value) (hhigh : value < 2 ^ 63) : int64 value = value := by
  unfold int64
  omega

/-- Nothing is lost modulo 2^64. -/
theorem int64_emod (value : ℤ) : int64 value % 2 ^ 64 = value % 2 ^ 64 := by
  unfold int64
  omega

end K3sm.Core
