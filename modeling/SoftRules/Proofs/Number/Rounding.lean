import SoftRules.Number.Dyadic
import Mathlib.Data.Rat.Floor
import Mathlib.Tactic.FieldSimp
import Mathlib.Tactic.NormNum
import Mathlib.Tactic.Ring

/-!
Rounding of floating point numbers to integers.

A finite floating point number denotes a rational number exactly. The integer that it is rounded to
is the nearest one of this number, a half going away from zero. Numbers beyond `2 ^ 53` are integers
already.
-/

set_option autoImplicit false

namespace SoftRules.Number

/-- The nearest integer, a half going away from zero. -/
def nearestInteger (x : ℚ) : ℤ :=
  if 0 ≤ x then ⌊x + 1 / 2⌋ else ⌈x - 1 / 2⌉

theorem nearestInteger_neg {x : ℚ} (nonneg : 0 ≤ x) : nearestInteger (-x) = -⌊x + 1 / 2⌋ := by
  unfold nearestInteger
  split
  · next zero =>
      have isZero : x = 0 := le_antisymm (neg_nonneg.mp zero) nonneg
      norm_num [isZero]
  · rw [← Int.ceil_neg]
    ring_nf

theorem nearestInteger_intCast (n : ℤ) : nearestInteger n = n := by
  unfold nearestInteger
  split
  · rw [Int.floor_intCast_add]
    norm_num
  · rw [sub_eq_add_neg, Int.ceil_intCast_add]
    norm_num

namespace Dyadic

/-- The absolute value of the number that is denoted. -/
def size (x : Dyadic) : ℚ := x.mantissa * 2 ^ x.exponent

/-- The number that is denoted. -/
def value (x : Dyadic) : ℚ := if x.negative then -x.size else x.size

theorem size_nonneg (x : Dyadic) : 0 ≤ x.size :=
  mul_nonneg (Nat.cast_nonneg _) (zpow_nonneg (by norm_num) _)

theorem roundAbs_eq (x : Dyadic) : (x.roundAbs : ℤ) = ⌊x.size + 1 / 2⌋ := by
  obtain ⟨negative, mantissa, exponent⟩ := x
  cases exponent with
  | ofNat exponent =>
      have whole : size ⟨negative, mantissa, Int.ofNat exponent⟩ =
          ((mantissa * 2 ^ exponent : ℕ) : ℤ) := by
        simp [size]
      rw [whole, Int.floor_intCast_add]
      norm_num [roundAbs]
  | negSucc shift =>
      have scaled : size ⟨negative, mantissa, Int.negSucc shift⟩ + 1 / 2 =
          ((mantissa + 2 ^ shift : ℕ) : ℚ) / ((2 ^ (shift + 1) : ℕ) : ℚ) := by
        simp only [size, zpow_negSucc]
        push_cast
        field_simp
        ring
      rw [scaled, Rat.floor_natCast_div_natCast]
      simp [roundAbs]

/-- Rounding takes the nearest integer. -/
theorem round_eq (x : Dyadic) : x.round = nearestInteger x.value := by
  unfold round value
  split
  · rw [nearestInteger_neg x.size_nonneg, roundAbs_eq]
  · rw [nearestInteger, if_pos x.size_nonneg, roundAbs_eq]

theorem mantissa_ofFloat_lt (x : Float) : (ofFloat x).mantissa < 2 ^ 53 := by
  have fraction : x.toBits.toNat % 2 ^ 52 < 2 ^ 52 := Nat.mod_lt _ (by decide)
  simp only [ofFloat]
  split
  · simp only [Nat.pow_eq]
    omega
  · simp only [Nat.pow_eq]
    omega

/-- Behind the mantissa of a large number there is nothing to be rounded. -/
theorem size_eq_of_large {x : Dyadic} (short : x.mantissa < 2 ^ 53) (large : 2 ^ 53 ≤ x.roundAbs) :
    x.size = x.roundAbs := by
  obtain ⟨negative, mantissa, exponent⟩ := x
  cases exponent with
  | ofNat exponent => simp [size, roundAbs]
  | negSucc shift =>
      have positive : 0 < 2 ^ shift := Nat.two_pow_pos shift
      simp only [roundAbs, Nat.pow_eq] at large short
      rw [Nat.le_div_iff_mul_le (Nat.two_pow_pos (shift + 1)), pow_succ] at large
      omega

theorem value_eq_of_round {x : Dyadic} {bound : ℕ} (short : x.mantissa < 2 ^ 53)
    (large : 2 ^ 53 ≤ bound) (rounded : x.round = bound) : x.value = bound := by
  unfold round at rounded
  split at rounded
  · omega
  · next positive =>
      have isBound : x.roundAbs = bound := by exact_mod_cast rounded
      rw [value, if_neg positive, size_eq_of_large short (isBound ▸ large), isBound]

end Dyadic

end SoftRules.Number
