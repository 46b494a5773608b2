import Orchestration.Binary64.Basic

/-! # The shortest decimal of a number

The decimal with the fewest digits among those that read back as the same number, and the nearest to
it of these.  The decimals that read back are those between the midpoints to the two neighbours, the
midpoints included when the significand is even.
-/

set_option autoImplicit false

namespace Orchestration

/-- The decimal `coefficient * 10 ^ exponent`. -/
structure Decimal where
  coefficient : Nat
  exponent : Int
  deriving DecidableEq

namespace Decimal

/-- Both sides of a comparison of `d * 10 ^ p` with `x * 2 ^ q`, scaled to natural numbers. -/
def scaled (d : Nat) (p : Int) (x : Nat) (q : Int) : Nat × Nat :=
  (d * Nat.pow 10 p.toNat * Nat.pow 2 (-q).toNat,
    x * Nat.pow 2 q.toNat * Nat.pow 10 (-p).toNat)

/-- Four times the significand, and the ends of the interval that rounds to it on that scale. -/
def bounds (significand : Nat) (exponent : Int) : Nat × Nat × Nat :=
  let below := if significand = 4503599627370496 ∧ exponent ≠ -1074 then 1 else 2
  (4 * significand - below, 4 * significand, 4 * significand + 2)

/-- The decimal lies between the midpoints around `significand * 2 ^ exponent`. -/
def readsBack (significand : Nat) (exponent : Int) (d : Nat) (p : Int) : Bool :=
  let (low, _, high) := bounds significand exponent
  let (left, right) := scaled d p low (exponent - 2)
  let (left', right') := scaled d p high (exponent - 2)
  if significand % 2 = 0 then right ≤ left && left' ≤ right'
  else right < left && left' < right'

def width (n : Nat) : Nat :=
  (Nat.toDigits 10 n).length

/-- The exponent of the power of ten at or below a positive number. -/
def order (significand : Nat) (exponent : Int) : Int :=
  let num := significand * Nat.pow 2 exponent.toNat
  let den := Nat.pow 2 (-exponent).toNat
  let guess : Int := (width num : Int) - width den
  if num * Nat.pow 10 (-guess).toNat < den * Nat.pow 10 guess.toNat then guess - 1 else guess

/-- The better of the two decimals next to the number on the grid of multiples of `10 ^ p`, if one
of them reads back. -/
def onGrid? (significand : Nat) (exponent : Int) (p : Int) : Option Nat :=
  let (unit, value) := scaled 1 p significand exponent
  let low := value / unit
  let rest := value % unit
  let lowOk := low != 0 && readsBack significand exponent low p
  let highOk := readsBack significand exponent (low + 1) p
  if lowOk && highOk then
    if 2 * rest < unit then some low
    else if 2 * rest > unit then some (low + 1)
    else if low % 2 = 0 then some low
    else some (low + 1)
  else if lowOk then some low
  else if highOk then some (low + 1)
  else none

def search (significand : Nat) (exponent : Int) : Nat → Int → Decimal
  | 0, p => ⟨(scaled 1 p significand exponent).2 / (scaled 1 p significand exponent).1, p⟩
  | more + 1, p =>
    match onGrid? significand exponent p with
    | some d => ⟨d, p⟩
    | none => search significand exponent more (p - 1)

def stripZeros : Nat → Decimal → Decimal
  | 0, d => d
  | more + 1, d =>
    if d.coefficient % 10 = 0 then stripZeros more ⟨d.coefficient / 10, d.exponent + 1⟩ else d

def shortest (significand : Nat) (exponent : Int) : Decimal :=
  stripZeros 20 (search significand exponent 17 (order significand exponent))

end Decimal

end Orchestration
