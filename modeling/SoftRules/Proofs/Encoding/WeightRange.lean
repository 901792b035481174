import SoftRules.Encoding.Penalty
import SoftRules.Proofs.Number.Rounding
import Mathlib.Algebra.Ring.Int.Defs
import Mathlib.Algebra.Ring.Nat

/-!
The range of weights.

A scaled weight that is accepted is at most the floating point number nearest to the greatest
integer of 64 bits, which is one more than this integer. So there is a single weight that is
accepted and cut off when it becomes a term.
-/

set_option autoImplicit false

namespace SoftRules

open SoftRules.Number

namespace Weight

/-- The number that the weight denotes. -/
def exactValue (weight : Weight) : ℚ := (Dyadic.ofFloat weight.value).value

/-- The integer nearest to the weight. -/
def nearest (weight : Weight) : ℤ := nearestInteger weight.exactValue

/-- The nearest integer has 64 bits, and it is the one in the weak constraint and in the atom for
the violation of a rule with this weight. -/
structure IsExact (weight : Weight) : Prop where
  fits : minInt64 ≤ weight.nearest ∧ weight.nearest ≤ maxInt64
  integer : weight.toInteger = weight.nearest
  placed (index : Nat) (profile : Profile) (soft : profile.weight = .soft weight) :
    (Penalty.ofProfile index profile).weight = .number weight.nearest ∧
      (Penalty.ofProfile index profile).mark = .number weight.nearest

variable {raw : Float} {power : Int} {weight : Weight}

/-- The limit is rounded up. -/
theorem roundAbs_limit : (Dyadic.ofFloat limit).roundAbs = 2 ^ 63 := by
  decide +kernel

theorem scale?_eq_some (accepted : scale? raw power = some weight) :
    weight.value = raw * tenTo power ∧ (Dyadic.ofFloat weight.value).roundAbs ≤ 2 ^ 63 := by
  simp only [scale?, roundAbs_limit] at accepted
  split at accepted
  · next within =>
      cases accepted
      exact ⟨rfl, of_decide_eq_true (Bool.and_eq_true_iff.mp within).2⟩
  · cases accepted

theorem round_eq_nearest (weight : Weight) :
    (Dyadic.ofFloat weight.value).round = weight.nearest := Dyadic.round_eq _

theorem nearest_bounds (accepted : scale? raw power = some weight) :
    -2 ^ 63 ≤ weight.nearest ∧ weight.nearest ≤ 2 ^ 63 := by
  have within := (scale?_eq_some accepted).2
  rw [← round_eq_nearest, Dyadic.round]
  split <;> omega

theorem IsExact.of_nearest_le (accepted : scale? raw power = some weight)
    (below : weight.nearest ≤ maxInt64) : weight.IsExact := by
  have above : minInt64 ≤ weight.nearest := (nearest_bounds accepted).1
  have integer : weight.toInteger = weight.nearest := by
    rw [toInteger, round_eq_nearest, min_eq_right below, max_eq_right above]
  refine ⟨⟨above, below⟩, integer, fun index profile soft => ?_⟩
  simp [Penalty.ofProfile, soft, toTerm, integer]

/-- An accepted weight becomes the integer nearest to it, wherever it is placed, exactly if it is
not `2 ^ 63`. -/
theorem isExact_iff_of_scaled (accepted : scale? raw power = some weight) :
    weight.IsExact ↔ weight.exactValue ≠ 2 ^ 63 := by
  constructor
  · intro isExact isLimit
    have isNearest : weight.nearest = 2 ^ 63 := by
      have whole : (2 ^ 63 : ℚ) = (2 ^ 63 : ℤ) := by norm_num
      rw [nearest, isLimit, whole, nearestInteger_intCast]
    have below := isExact.fits.2
    rw [isNearest] at below
    exact absurd below (by decide)
  · intro other
    refine .of_nearest_le accepted (not_lt.mp fun beyond => other ?_)
    have isNearest : weight.nearest = (2 ^ 63 : ℕ) :=
      le_antisymm (nearest_bounds accepted).2 beyond
    rw [← round_eq_nearest] at isNearest
    exact_mod_cast Dyadic.value_eq_of_round (Dyadic.mantissa_ofFloat_lt _) (by decide) isNearest

/-- The greatest weight that is accepted, `2 ^ 63`. -/
def greatest : Float := .ofBits 0x43e0000000000000

/-- The least weight that is accepted, `-2 ^ 63`. -/
def least : Float := .ofBits 0xc3e0000000000000

theorem isExact_least : ∃ weight, scale? least 0 = some weight ∧ weight.IsExact := by
  have isSome : (scale? least 0).isSome = true := by decide +kernel
  obtain ⟨weight, accepted⟩ := Option.isSome_iff_exists.mp isSome
  refine ⟨weight, accepted, (isExact_iff_of_scaled accepted).mpr ?_⟩
  have bits : Dyadic.ofFloat (least * tenTo 0) = ⟨true, 2 ^ 52, 11⟩ := by decide +kernel
  rw [exactValue, (scale?_eq_some accepted).1, bits]
  norm_num [Dyadic.value, Dyadic.size]

/-- The greatest weight is rounded to `2 ^ 63`, which does not fit, and becomes another integer. -/
theorem greatest_cut_off : ∃ weight, scale? greatest 0 = some weight ∧ weight.nearest = 2 ^ 63 ∧
    weight.toInteger = 2 ^ 63 - 1 ∧ ¬ weight.IsExact := by
  have isSome : (scale? greatest 0).isSome = true := by decide +kernel
  obtain ⟨weight, accepted⟩ := Option.isSome_iff_exists.mp isSome
  have bits : Dyadic.ofFloat (greatest * tenTo 0) = ⟨false, 2 ^ 52, 11⟩ := by decide +kernel
  rw [← (scale?_eq_some accepted).1] at bits
  have isNearest : weight.nearest = 2 ^ 63 := by
    rw [← round_eq_nearest, bits]
    decide
  have isInteger : weight.toInteger = 2 ^ 63 - 1 := by
    rw [toInteger, bits]
    decide
  refine ⟨weight, accepted, isNearest, isInteger, fun isExact => ?_⟩
  have same := isExact.integer
  rw [isInteger, isNearest] at same
  exact absurd same (by decide)

end Weight

end SoftRules
