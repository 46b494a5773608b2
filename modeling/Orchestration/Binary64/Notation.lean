import Orchestration.Binary64.Shortest
import Orchestration.Text.Integer

/-! # Writing and reading decimals

How a finite number is written: positional from `0.00001` up to 16 digits before the point and with
at least one place after it, else scientific with a sign on the exponent.  Reading text gives the
number nearest to the decimal.
-/

set_option autoImplicit false

namespace Orchestration

/-- The exponents of the first digit that are written positionally. -/
structure DecimalNotation where
  leastPositional : Int
  greatestPositional : Int

def plainNotation : DecimalNotation := ⟨-5, 15⟩

namespace DecimalNotation

/-- Digits with a point after the first `whole` of them, and at least one place. -/
def positional (digits : List Char) (first : Int) : List Char :=
  if first < 0 then
    '0' :: '.' :: (List.replicate ((-first).toNat - 1) '0' ++ digits)
  else
    let whole := first.toNat + 1
    let places := digits.drop whole
    digits.take whole ++ List.replicate (whole - digits.length) '0' ++
      '.' :: (if places.isEmpty then ['0'] else places)

def scientific (digits : List Char) (first : Int) : List Char :=
  let mantissa := match digits with
    | [] => []
    | [d] => [d]
    | d :: places => d :: '.' :: places
  mantissa ++ 'e' :: (if first < 0 then '-' else '+') :: Text.digits first.natAbs

def write (style : DecimalNotation) (d : Decimal) : List Char :=
  let digits := Text.digits d.coefficient
  let first : Int := d.exponent + digits.length - 1
  if style.leastPositional ≤ first ∧ first ≤ style.greatestPositional then positional digits first
  else scientific digits first

end DecimalNotation

namespace Finite64

def text (x : Finite64) : List Char :=
  let magnitude :=
    if x.significand = 0 then ['0', '.', '0']
    else plainNotation.write (Decimal.shortest x.significand x.exponent)
  if x.negative then '-' :: magnitude else magnitude

end Finite64

namespace Binary64

/-- The number nearest to `± coefficient * 10 ^ exponent`.  Exponents that far outweigh the digits
decide alone. -/
def ofDecimal (negative : Bool) (coefficient : Nat) (exponent : Int) : Binary64 :=
  if coefficient = 0 then .finite (Finite64.zero negative)
  else
    let first : Int := exponent + Decimal.width coefficient
    if first > 400 then .infinite negative
    else if first < -400 then .finite (Finite64.zero negative)
    else nearest negative (coefficient * Nat.pow 10 exponent.toNat) (Nat.pow 10 (-exponent).toNat)

def signed (text : List Char) : Bool × List Char :=
  match text with
  | '-' :: rest => (true, rest)
  | '+' :: rest => (false, rest)
  | _ => (false, text)

def exponent? (text : List Char) : Option Int :=
  match text with
  | [] => some 0
  | 'e' :: rest | 'E' :: rest =>
    let (negative, digits) := signed rest
    (Text.natural? digits).map fun n => if negative then -(n : Int) else n
  | _ => none

/-- Reads a number in text: an optional sign, then `inf`, `infinity` or `nan` in any case, or digits
with an optional point and exponent.  Digits may be missing on one side of the point. -/
def ofText? (text : List Char) : Option Binary64 :=
  let (negative, body) := signed text
  let word := body.map Char.toLower
  if word = ['i', 'n', 'f'] || word = ['i', 'n', 'f', 'i', 'n', 'i', 't', 'y'] then
    some (.infinite negative)
  else if word = ['n', 'a', 'n'] then some .nan
  else
    let whole := body.takeWhile Text.isDigit
    let rest := body.dropWhile Text.isDigit
    let (places, rest) := match rest with
      | '.' :: more => (more.takeWhile Text.isDigit, more.dropWhile Text.isDigit)
      | _ => ([], rest)
    if whole.isEmpty && places.isEmpty then none
    else
      (exponent? rest).map fun e =>
        ofDecimal negative (Text.ofDigits (whole ++ places)) (e - places.length)

end Binary64

end Orchestration
