/-! # Binary64 numbers

Floating-point numbers of 64 bits as exact integers: a finite number is `± m * 2 ^ q` with a 53-bit
significand.  Every operation computes the exact result and then rounds once to the nearest number,
a tie going to the even significand.
-/

set_option autoImplicit false

namespace Orchestration

/-- The significand has at most 53 bits, and fewer only at the least exponent. -/
def Canonical (significand : Nat) (exponent : Int) : Prop :=
  significand < 9007199254740992 ∧ -1074 ≤ exponent ∧ exponent ≤ 971 ∧
    (4503599627370496 ≤ significand ∨ exponent = -1074)

instance (significand : Nat) (exponent : Int) : Decidable (Canonical significand exponent) :=
  inferInstanceAs (Decidable (_ ∧ _ ∧ _ ∧ (_ ∨ _)))

/-- The number `± significand * 2 ^ exponent`.  Zero has a sign. -/
structure Finite64 where
  negative : Bool
  significand : Nat
  exponent : Int
  canonical : Canonical significand exponent
  deriving DecidableEq

inductive Binary64 where
  | finite (x : Finite64)
  | infinite (negative : Bool)
  | nan
  deriving DecidableEq

namespace Finite64

def zero (negative : Bool) : Finite64 :=
  ⟨negative, 0, -1074, by decide⟩

def isZero (x : Finite64) : Bool :=
  x.significand == 0

def neg (x : Finite64) : Finite64 :=
  { x with negative := !x.negative }

/-- The number as a multiple of the least positive number, `2 ^ -1074`. -/
def units (x : Finite64) : Int :=
  let magnitude : Int := (x.significand * Nat.pow 2 (x.exponent + 1074).toNat : Nat)
  if x.negative then -magnitude else magnitude

def same (x y : Finite64) : Bool :=
  x.units == y.units

def fraction (x : Finite64) : Nat × Nat :=
  (x.significand * Nat.pow 2 x.exponent.toNat, Nat.pow 2 (-x.exponent).toNat)

end Finite64

namespace Binary64

/-- The quotient of two natural numbers, rounded to the nearest, a tie going to the even one. -/
def roundQuotient (num den : Nat) : Nat :=
  let quotient := num / den
  let twice := 2 * (num % den)
  if twice < den then quotient
  else if twice > den then quotient + 1
  else if quotient % 2 = 0 then quotient
  else quotient + 1

/-- The exponent of the power of two at or below `num / den`, both positive. -/
def binaryOrder (num den : Nat) : Int :=
  let guess : Int := (num.log2 : Int) - den.log2
  if num * Nat.pow 2 (-guess).toNat < den * Nat.pow 2 guess.toNat then guess - 1 else guess

/-- The binary64 number nearest to `± num / den`.  What lies beyond the greatest finite number by
half a step or more becomes infinite. -/
def nearest (negative : Bool) (num den : Nat) : Binary64 :=
  if num = 0 then .finite (Finite64.zero negative)
  else
    let exponent := max (binaryOrder num den - 52) (-1074)
    let rounded :=
      roundQuotient (num * Nat.pow 2 (-exponent).toNat) (den * Nat.pow 2 exponent.toNat)
    let (significand, exponent) :=
      if rounded = 9007199254740992 then (4503599627370496, exponent + 1) else (rounded, exponent)
    if h : Canonical significand exponent then .finite ⟨negative, significand, exponent, h⟩
    else .infinite negative

def ofInt (n : Int) : Binary64 :=
  nearest (n < 0) n.natAbs 1

def zero : Binary64 :=
  .finite (Finite64.zero false)

def isFinite : Binary64 → Bool
  | .finite _ => true
  | _ => false

def neg : Binary64 → Binary64
  | .finite x => .finite x.neg
  | .infinite negative => .infinite (!negative)
  | .nan => .nan

def add : Binary64 → Binary64 → Binary64
  | .nan, _ => .nan
  | _, .nan => .nan
  | .infinite a, .infinite b => if a = b then .infinite a else .nan
  | .infinite a, .finite _ => .infinite a
  | .finite _, .infinite b => .infinite b
  | .finite x, .finite y =>
    let total := x.units + y.units
    if total = 0 then .finite (Finite64.zero (x.negative && y.negative))
    else nearest (total < 0) total.natAbs (Nat.pow 2 1074)

def mul : Binary64 → Binary64 → Binary64
  | .nan, _ => .nan
  | _, .nan => .nan
  | .infinite a, .infinite b => .infinite (a != b)
  | .infinite a, .finite y => if y.isZero then .nan else .infinite (a != y.negative)
  | .finite x, .infinite b => if x.isZero then .nan else .infinite (x.negative != b)
  | .finite x, .finite y =>
    nearest (x.negative != y.negative) (x.fraction.1 * y.fraction.1) (x.fraction.2 * y.fraction.2)

def div : Binary64 → Binary64 → Binary64
  | .nan, _ => .nan
  | _, .nan => .nan
  | .infinite _, .infinite _ => .nan
  | .infinite a, .finite y => .infinite (a != y.negative)
  | .finite x, .infinite b => .finite (Finite64.zero (x.negative != b))
  | .finite x, .finite y =>
    if y.isZero then
      if x.isZero then .nan else .infinite (x.negative != y.negative)
    else
      nearest (x.negative != y.negative) (x.fraction.1 * y.fraction.2)
        (x.fraction.2 * y.fraction.1)

def lt : Binary64 → Binary64 → Bool
  | .nan, _ => false
  | _, .nan => false
  | .infinite a, .infinite b => a && !b
  | .infinite a, .finite _ => a
  | .finite _, .infinite b => !b
  | .finite x, .finite y => x.units < y.units

def le : Binary64 → Binary64 → Bool
  | .nan, _ => false
  | _, .nan => false
  | .infinite a, .infinite b => a || !b
  | .infinite a, .finite _ => a
  | .finite _, .infinite b => !b
  | .finite x, .finite y => x.units ≤ y.units

/-- Equal as numbers: the zeros are equal, and what is not a number equals nothing. -/
def same : Binary64 → Binary64 → Bool
  | .finite x, .finite y => x.same y
  | .infinite a, .infinite b => a == b
  | _, _ => false

def least (x y : Binary64) : Binary64 :=
  match x, y with
  | .nan, _ => y
  | _, .nan => x
  | _, _ => if y.lt x then y else x

def greatest (x y : Binary64) : Binary64 :=
  match x, y with
  | .nan, _ => y
  | _, .nan => x
  | _, _ => if x.lt y then y else x

def sum (values : List Binary64) : Binary64 :=
  values.foldl add zero

def natural? : Binary64 → Option Nat
  | .finite x =>
    let (num, den) := x.fraction
    if x.negative && !x.isZero then none
    else if num % den = 0 then some (num / den)
    else none
  | _ => none

end Binary64

end Orchestration
