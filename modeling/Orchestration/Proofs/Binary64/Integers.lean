import Orchestration.Binary64.Basic

/-!
# Whole numbers as floating-point numbers

Whole numbers without a sign of at most 53 bits are kept exactly: the significand is shifted left
until it has 53 bits, and nothing is rounded.  So is every whole number that a floating-point number
is.
-/

set_option autoImplicit false

namespace Orchestration.Binary64

theorem roundQuotient_one (n : Nat) : roundQuotient n 1 = n := by
  simp only [roundQuotient, Nat.div_one, Nat.mod_one]
  rfl

theorem binaryOrder_one (n : Nat) (positive : 0 < n) : binaryOrder n 1 = n.log2 := by
  have low : 2 ^ n.log2 ≤ n := Nat.log2_self_le (by omega)
  have guess : (n.log2 : Int) - (Nat.log2 1 : Nat) = n.log2 := by
    rw [show Nat.log2 1 = 0 from rfl]
    omega
  have reached : ¬ n * Nat.pow 2 (-(n.log2 : Int)).toNat < 1 * Nat.pow 2 (n.log2 : Int).toNat := by
    simp only [Int.toNat_neg_natCast, Int.toNat_natCast, Nat.one_mul, Nat.pow_eq, Nat.pow_zero,
      Nat.mul_one]
    omega
  simp only [binaryOrder, guess]
  exact if_neg reached

/-- A positive whole number of at most 53 bits, shifted to 53 of them. -/
theorem shifted_bounds (n : Nat) (positive : 0 < n) (small : n < 9007199254740992) :
    n.log2 ≤ 52 ∧ 4503599627370496 ≤ n * Nat.pow 2 (52 - n.log2) ∧
      n * Nat.pow 2 (52 - n.log2) < 9007199254740992 := by
  simp only [Nat.pow_eq]
  have low : 2 ^ n.log2 ≤ n := Nat.log2_self_le (by omega)
  have high : n < 2 ^ (n.log2 + 1) := Nat.lt_log2_self
  have order : n.log2 < 53 := (Nat.log2_lt (by omega)).mpr small
  refine ⟨by omega, ?_, ?_⟩
  · calc 2 ^ 52 = 2 ^ (n.log2 + (52 - n.log2)) := congrArg (2 ^ ·) (by omega)
      _ = 2 ^ n.log2 * 2 ^ (52 - n.log2) := Nat.pow_add ..
      _ ≤ n * 2 ^ (52 - n.log2) := Nat.mul_le_mul_right _ low
  · calc n * 2 ^ (52 - n.log2) < 2 ^ (n.log2 + 1) * 2 ^ (52 - n.log2) :=
          Nat.mul_lt_mul_of_pos_right high (Nat.two_pow_pos _)
      _ = 2 ^ (n.log2 + 1 + (52 - n.log2)) := (Nat.pow_add ..).symm
      _ = 2 ^ 53 := congrArg (2 ^ ·) (by omega)

theorem nearest_one (n : Nat) (positive : 0 < n) (small : n < 9007199254740992) :
    ∃ canonical, nearest false n 1 =
      .finite ⟨false, n * Nat.pow 2 (52 - n.log2), (n.log2 : Int) - 52, canonical⟩ := by
  obtain ⟨order, low, high⟩ := shifted_bounds n positive small
  have canonical : Canonical (n * Nat.pow 2 (52 - n.log2)) ((n.log2 : Int) - 52) :=
    ⟨high, by omega, by omega, .inl low⟩
  have exponent : max (binaryOrder n 1 - 52) (-1074) = (n.log2 : Int) - 52 := by
    rw [binaryOrder_one n positive]
    omega
  have up : (-((n.log2 : Int) - 52)).toNat = 52 - n.log2 := by omega
  have down : ((n.log2 : Int) - 52).toNat = 0 := by omega
  have whole : Nat.pow 2 0 = 1 := rfl
  have fits : ¬ n * Nat.pow 2 (52 - n.log2) = 9007199254740992 := Nat.ne_of_lt high
  refine ⟨canonical, ?_⟩
  rw [nearest, if_neg (by omega)]
  simp only [exponent, up, down, whole, Nat.mul_one, roundQuotient_one, fits, if_false]
  exact dif_pos canonical

theorem natural?_ofInt (n : Nat) (small : n < 9007199254740992) : (ofInt n).natural? = some n := by
  have sign : decide ((n : Int) < 0) = false := by
    apply decide_eq_false
    omega
  rw [ofInt, sign, Int.natAbs_natCast]
  rcases Nat.eq_zero_or_pos n with rfl | positive
  · have zero : nearest false 0 1 = .finite (Finite64.zero false) := if_pos rfl
    simp only [zero, natural?, Finite64.fraction, Finite64.zero, Nat.zero_mul, Nat.zero_mod,
      Nat.zero_div, Bool.false_and, Bool.false_eq_true, if_false, if_true]
  · obtain ⟨canonical, found⟩ := nearest_one n positive small
    obtain ⟨order, -, -⟩ := shifted_bounds n positive small
    have up : (-((n.log2 : Int) - 52)).toNat = 52 - n.log2 := by omega
    have down : ((n.log2 : Int) - 52).toNat = 0 := by omega
    have unit := Nat.two_pow_pos (52 - n.log2)
    rw [found]
    simp only [natural?, Finite64.fraction, up, down, Nat.pow_eq, Nat.pow_zero, Nat.mul_one,
      Bool.false_and, Bool.false_eq_true, if_false, Nat.mul_mod_left, if_true,
      Nat.mul_div_cancel n unit]

theorem nearest_shifted (m k : Nat) (low : 4503599627370496 ≤ m) (high : m < 9007199254740992)
    (bound : k ≤ 971) :
    ∃ canonical, nearest false (m * Nat.pow 2 k) 1 = .finite ⟨false, m, k, canonical⟩ := by
  change ∃ canonical, nearest false (m * 2 ^ k) 1 = _
  have unit : 0 < 2 ^ k := Nat.two_pow_pos k
  have positive : 0 < m * 2 ^ k := Nat.mul_pos (by omega) unit
  have order : (m * 2 ^ k).log2 = 52 + k := by
    refine (Nat.log2_eq_iff (by omega)).mpr ⟨?_, ?_⟩
    · calc 2 ^ (52 + k) = 2 ^ 52 * 2 ^ k := Nat.pow_add ..
        _ ≤ m * 2 ^ k := Nat.mul_le_mul_right _ low
    · calc m * 2 ^ k < 2 ^ 53 * 2 ^ k := Nat.mul_lt_mul_of_pos_right high unit
        _ = 2 ^ (52 + k + 1) := by rw [← Nat.pow_add]; congr 1; omega
  have exponent : max (binaryOrder (m * 2 ^ k) 1 - 52) (-1074) = k := by
    rw [binaryOrder_one _ positive, order]
    omega
  have up : (-(k : Int)).toNat = 0 := by omega
  have rounded : roundQuotient (m * 2 ^ k) (2 ^ k) = m := by
    simp only [roundQuotient, Nat.mul_mod_left, Nat.mul_div_cancel m unit, Nat.mul_zero, unit,
      if_true]
  have canonical : Canonical m k := ⟨high, by omega, by omega, .inl low⟩
  refine ⟨canonical, ?_⟩
  rw [nearest, if_neg (by omega)]
  simp only [exponent, up, Int.toNat_natCast, Nat.pow_eq, Nat.pow_zero, Nat.mul_one, Nat.one_mul,
    rounded, Nat.ne_of_lt high, if_false]
  exact dif_pos canonical

theorem natural?_finite (x : Finite64) :
    natural? (.finite x) =
      if x.negative && !x.isZero then none
      else if x.significand * Nat.pow 2 x.exponent.toNat % Nat.pow 2 (-x.exponent).toNat = 0 then
        some (x.significand * Nat.pow 2 x.exponent.toNat / Nat.pow 2 (-x.exponent).toNat)
      else none := rfl

theorem natural?_ofInt_of_natural? (x : Binary64) (n : Nat) (whole : x.natural? = some n) :
    (ofInt n).natural? = some n := by
  cases x with
  | infinite negative => cases whole
  | nan => cases whole
  | finite x =>
    obtain ⟨negative, m, e, canonical⟩ := x
    have ⟨high, _, bound, low⟩ := canonical
    have value : m * 2 ^ e.toNat / 2 ^ (-e).toNat = n := by
      rw [natural?_finite] at whole
      split at whole
      · cases whole
      · split at whole
        · exact Option.some.inj whole
        · cases whole
    by_cases up : 0 < e
    · obtain ⟨k, rfl⟩ := Int.eq_ofNat_of_zero_le (Int.le_of_lt up)
      have down : (-(k : Int)).toNat = 0 := by omega
      simp only [down, Int.toNat_natCast, Nat.pow_zero, Nat.div_one] at value
      obtain ⟨exact, found⟩ := nearest_shifted m k (by omega) high (by omega)
      change nearest false (m * 2 ^ k) 1 = _ at found
      have sign : decide ((n : Int) < 0) = false := decide_eq_false (by omega)
      rw [ofInt, sign, Int.natAbs_natCast, ← value, found]
      simp only [natural?_finite, down, Int.toNat_natCast, Nat.pow_eq, Nat.pow_zero, Nat.mod_one,
        Nat.div_one, Bool.false_and, Bool.false_eq_true, if_false, if_true]
    · have down : e.toNat = 0 := by omega
      simp only [down, Nat.pow_zero, Nat.mul_one] at value
      exact natural?_ofInt n (value ▸ Nat.lt_of_le_of_lt (Nat.div_le_self ..) high)

end Orchestration.Binary64
