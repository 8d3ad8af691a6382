import Mathlib

/-!
# Decimal numerals

A numeral is a string of the bytes of the ten digits.  It is canonical when it is not empty
and has no zero in front of other digits; a canonical numeral of a length is at least the
power of ten of that length.
-/

namespace K3sm.Core.Decimal

def IsDigit (byte : UInt8) : Prop := 48 ≤ byte.toNat ∧ byte.toNat ≤ 57

instance (byte : UInt8) : Decidable (IsDigit byte) := inferInstanceAs (Decidable (_ ∧ _))

def digit (byte : UInt8) : ℕ := byte.toNat - 48

def numeralFrom (value : ℕ) (text : List UInt8) : ℕ :=
  text.foldl (fun value byte => 10 * value + digit byte) value

def numeral (text : List UInt8) : ℕ := numeralFrom 0 text

/-- A number written without leading zeros. -/
structure Canonical (text : List UInt8) (value : ℕ) : Prop where
  nonempty : text ≠ []
  digits : ∀ byte ∈ text, IsDigit byte
  leading : 1 < text.length → text.head? ≠ some 48
  value : numeral text = value

variable {byte : UInt8} {text rest : List UInt8} {value : ℕ}

theorem digit_le (hdigit : IsDigit byte) : digit byte ≤ 9 :=
  Nat.sub_le_sub_right hdigit.2 48

@[simp]
theorem numeralFrom_nil (value : ℕ) : numeralFrom value [] = value := rfl

@[simp]
theorem numeralFrom_cons (value : ℕ) (byte : UInt8) (rest : List UInt8) :
    numeralFrom value (byte :: rest) = numeralFrom (10 * value + digit byte) rest := by
  rw [numeralFrom, List.foldl_cons, numeralFrom]

theorem numeralFrom_shift (value : ℕ) (text : List UInt8) :
    value * 10 ^ text.length ≤ numeralFrom value text := by
  induction text generalizing value with
  | nil => simp
  | cons byte rest ih =>
    have hrest := ih (10 * value + digit byte)
    calc value * 10 ^ (byte :: rest).length
        = 10 * value * 10 ^ rest.length := by
          rw [List.length_cons, pow_succ]
          ring
      _ ≤ (10 * value + digit byte) * 10 ^ rest.length :=
          Nat.mul_le_mul_right _ (Nat.le_add_right _ _)
      _ ≤ numeralFrom value (byte :: rest) := hrest

theorem le_numeralFrom (value : ℕ) (text : List UInt8) : value ≤ numeralFrom value text :=
  (Nat.le_mul_of_pos_right value (Nat.pow_pos (by norm_num))).trans (numeralFrom_shift value text)

theorem pow_le_numeral (hdigit : IsDigit byte) (hzero : byte ≠ 48) :
    10 ^ rest.length ≤ numeral (byte :: rest) := by
  have hpositive : 1 ≤ digit byte := by
    have hlow := hdigit.1
    have hcode : byte.toNat ≠ 48 := fun hcode => hzero (UInt8.toNat_inj.1 hcode)
    unfold digit
    omega
  calc 10 ^ rest.length
      = 1 * 10 ^ rest.length := (one_mul _).symm
    _ ≤ digit byte * 10 ^ rest.length := Nat.mul_le_mul_right _ hpositive
    _ ≤ numeralFrom (digit byte) rest := numeralFrom_shift _ _
    _ = numeral (byte :: rest) := by simp [numeral]

theorem Canonical.length_le (hcanonical : Canonical text value) {places : ℕ} (hplaces : 0 < places)
    (hvalue : value < 10 ^ places) : text.length ≤ places := by
  cases text with
  | nil => exact absurd rfl hcanonical.nonempty
  | cons byte rest =>
    by_cases hone : rest = []
    · rw [hone]
      exact hplaces
    have hlong : 1 < (byte :: rest).length := by
      have := List.length_pos_iff.2 hone
      simp only [List.length_cons]
      omega
    have hzero : byte ≠ 48 := by
      intro hzero
      exact hcanonical.leading hlong (by rw [hzero]; rfl)
    have hdigit := hcanonical.digits byte List.mem_cons_self
    have hpow : 10 ^ rest.length < 10 ^ places :=
      ((pow_le_numeral hdigit hzero).trans_eq hcanonical.value).trans_lt hvalue
    exact (Nat.pow_lt_pow_iff_right (by norm_num)).1 hpow

end K3sm.Core.Decimal
