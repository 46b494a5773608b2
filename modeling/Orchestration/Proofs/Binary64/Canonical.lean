import Orchestration.Binary64.Basic

/-!
# One form for each number

In canonical form a number with a greater exponent is greater, whatever the significands are.  So
numbers of one value have one significand and one exponent, and only the zeros are written in two
ways.
-/

set_option autoImplicit false

namespace Orchestration.Finite64

/-- The number without its sign, as a multiple of the least positive number. -/
def magnitude (x : Finite64) : Nat :=
  x.significand * Nat.pow 2 (x.exponent + 1074).toNat

theorem units_eq (x : Finite64) :
    x.units = if x.negative then -(x.magnitude : Int) else x.magnitude :=
  rfl

theorem magnitude_eq_zero_iff (x : Finite64) : x.magnitude = 0 ↔ x.isZero = true := by
  rw [magnitude, isZero, beq_iff_eq]
  have positive : 0 < 2 ^ (x.exponent + 1074).toNat := Nat.two_pow_pos _
  constructor
  · intro zero
    exact (Nat.mul_eq_zero.mp zero).resolve_right (Nat.ne_of_gt positive)
  · intro zero
    rw [zero, Nat.zero_mul]

theorem magnitude_lt (x y : Finite64) (lower : x.exponent < y.exponent) :
    x.magnitude < y.magnitude := by
  obtain ⟨short, least, -, -⟩ := x.canonical
  obtain ⟨-, -, -, full⟩ := y.canonical
  have full : 4503599627370496 ≤ y.significand := full.resolve_right (by omega)
  have doubled : (x.exponent + 1074).toNat + 1 ≤ (y.exponent + 1074).toNat := by omega
  have positive : 0 < 2 ^ (x.exponent + 1074).toNat := Nat.two_pow_pos _
  calc x.magnitude
      < 9007199254740992 * 2 ^ (x.exponent + 1074).toNat :=
        Nat.mul_lt_mul_of_pos_right short positive
    _ = 4503599627370496 * 2 ^ ((x.exponent + 1074).toNat + 1) := by omega
    _ ≤ y.significand * 2 ^ (y.exponent + 1074).toNat :=
        Nat.mul_le_mul full (Nat.pow_le_pow_right (by decide) doubled)

theorem eq_of_magnitude_eq (x y : Finite64) (same : x.magnitude = y.magnitude) :
    x.significand = y.significand ∧ x.exponent = y.exponent := by
  have exponent : x.exponent = y.exponent := by
    rcases Int.lt_trichotomy x.exponent y.exponent with lower | equal | higher
    · exact absurd same (Nat.ne_of_lt (magnitude_lt x y lower))
    · exact equal
    · exact absurd same.symm (Nat.ne_of_lt (magnitude_lt y x higher))
  rw [magnitude, magnitude, exponent] at same
  exact ⟨Nat.eq_of_mul_eq_mul_right (Nat.two_pow_pos _) same, exponent⟩

theorem same_iff (x y : Finite64) :
    x.same y = true ↔ x = y ∨ x.isZero = true ∧ y.isZero = true := by
  rw [same, beq_iff_eq, units_eq, units_eq, ← magnitude_eq_zero_iff, ← magnitude_eq_zero_iff]
  constructor
  · intro equal
    by_cases zero : x.magnitude = 0 ∧ y.magnitude = 0
    · exact .inr zero
    · have signs : x.negative = y.negative ∧ x.magnitude = y.magnitude := by
        revert equal
        cases x.negative <;> cases y.negative <;> simp <;> omega
      have parts := eq_of_magnitude_eq x y signs.2
      cases x
      cases y
      exact .inl ((mk.injEq ..).mpr ⟨signs.1, parts⟩)
  · rintro (rfl | ⟨first, second⟩)
    · rfl
    · rw [first, second]
      simp

end Orchestration.Finite64
