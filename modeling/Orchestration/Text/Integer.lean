/-! # Decimal integers in text

Whole numbers as they are written in keys and arguments: ASCII digits after an optional sign.
-/

set_option autoImplicit false

namespace Orchestration.Text

def isDigit (c : Char) : Bool :=
  '0' ≤ c && c ≤ '9'

def digitValue (c : Char) : Nat :=
  c.toNat - '0'.toNat

def ofDigits (digits : List Char) : Nat :=
  digits.foldl (fun value c => 10 * value + digitValue c) 0

def digits (n : Nat) : List Char :=
  Nat.toDigits 10 n

def natural? (text : List Char) : Option Nat :=
  if text.isEmpty || !text.all isDigit then none else some (ofDigits text)

/-- Reads digits after an optional `+`, for a number below `bound`. -/
def unsigned? (bound : Nat) (text : List Char) : Option Nat := do
  let n ← natural? (match text with | '+' :: rest => rest | _ => text)
  if n < bound then some n else none

/-- Reads digits after an optional sign, for a number that fits a signed 64-bit word. -/
def signed64? (text : List Char) : Option Int := do
  let n ← match text with
    | '-' :: rest => (natural? rest).map fun n => -(n : Int)
    | '+' :: rest => (natural? rest).map fun n => (n : Int)
    | _ => (natural? text).map fun n => (n : Int)
  if -9223372036854775808 ≤ n ∧ n < 9223372036854775808 then some n else none

def hexValue? (c : Char) : Option Nat :=
  if '0' ≤ c ∧ c ≤ '9' then some (c.toNat - 48)
  else if 'a' ≤ c ∧ c ≤ 'f' then some (c.toNat - 87)
  else if 'A' ≤ c ∧ c ≤ 'F' then some (c.toNat - 55)
  else none

def hexDigit (n : Nat) : Char :=
  if n < 10 then Char.ofNat (48 + n) else Char.ofNat (87 + n)

def ofInt (n : Int) : List Char :=
  if n < 0 then '-' :: digits n.natAbs else digits n.natAbs

end Orchestration.Text
