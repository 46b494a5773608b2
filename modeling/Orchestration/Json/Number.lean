import Orchestration.Json.Basic
import Orchestration.Binary64.Notation

/-! # Numbers in text

The grammar of a number and its value.  Digits without a point or an exponent are a whole number as
long as they fit 64 bits.  Any other number is floating-point: the digits are collected in a 64-bit
significand, further digits only move the point, and one multiplication or division by a power of
ten gives the value.
-/

set_option autoImplicit false

namespace Orchestration

structure NumberText where
  negative : Bool
  whole : List Char
  places : Option (List Char)
  exponent : Option (Bool × List Char)

namespace NumberText

def digits? (text : List Char) : Option (List Char × List Char) :=
  match text.takeWhile Text.isDigit with
  | [] => none
  | found => some (found, text.dropWhile Text.isDigit)

def places? : List Char → Option (Option (List Char) × List Char)
  | '.' :: rest => (digits? rest).map fun (found, rest) => (some found, rest)
  | text => some (none, text)

def exponent? (text : List Char) : Option (Option (Bool × List Char) × List Char) :=
  match text with
  | 'e' :: rest | 'E' :: rest =>
    let (negative, rest) := Binary64.signed rest
    (digits? rest).map fun (found, rest) => (some (negative, found), rest)
  | _ => some (none, text)

def whole? (text : List Char) : Option (List Char × List Char) :=
  match text with
  | '0' :: rest => some (['0'], rest)
  | _ => digits? text

def magnitude? (negative : Bool) (text : List Char) : Option (NumberText × List Char) := do
  let (whole, text) ← whole? text
  let (places, text) ← places? text
  let (exponent, text) ← exponent? text
  some (⟨negative, whole, places, exponent⟩, text)

def read? (text : List Char) : Option (NumberText × List Char) :=
  match text with
  | '-' :: rest => magnitude? true rest
  | _ => magnitude? false text

/-- Adds digits to a significand while it stays below `2 ^ 64`; gives the significand and the number
of digits taken. -/
def collect : Nat → List Char → Nat × Nat
  | significand, [] => (significand, 0)
  | significand, c :: rest =>
    let next := 10 * significand + Text.digitValue c
    if next < 18446744073709551616 then
      let (final, taken) := collect next rest
      (final, taken + 1)
    else (significand, 0)

/-- A significand scaled by a power of ten: one multiplication or division, after divisions by
`10 ^ 308` for an exponent beyond the greatest power. -/
def scale : Nat → Binary64 → Int → Option Finite64
  | 0, _, _ => none
  | more + 1, x, exponent =>
    if -308 ≤ exponent ∧ exponent ≤ 308 then
      let power := Binary64.nearest false (Nat.pow 10 exponent.natAbs) 1
      match if 0 ≤ exponent then x.mul power else x.div power with
      | .finite y => some y
      | _ => none
    else if x.same .zero then some (Finite64.zero false)
    else if 0 < exponent then none
    else scale more (x.div (Binary64.nearest false (Nat.pow 10 308) 1)) (exponent + 308)

def float? (n : NumberText) : Option Finite64 := do
  let (whole, taken) := collect 0 n.whole
  let (significand, placesTaken) := collect whole (n.places.getD [])
  let point : Int := (n.whole.length - taken : Nat) - (placesTaken : Int)
  let magnitude ← match n.exponent with
    | none => scale 8 (.ofInt significand) point
    | some (negative, digits) =>
      let e : Int := Text.ofDigits digits
      if e < 2147483648 then
        scale 8 (.ofInt significand) (if negative then point - e else point + e)
      else if negative || significand == 0 then some (Finite64.zero false)
      else none
  some (if n.negative then magnitude.neg else magnitude)

def value? (n : NumberText) : Option Number :=
  let whole := Text.ofDigits n.whole
  if n.places.isSome || n.exponent.isSome then n.float?.map .float
  else if !n.negative && whole < 18446744073709551616 then some (.integer whole)
  else if n.negative && 0 < whole && whole ≤ 9223372036854775808 then
    some (.integer (-(whole : Int)))
  else n.float?.map .float

end NumberText

def Number.text : Number → List Char
  | .integer n => Text.ofInt n
  | .float x => x.text

end Orchestration
