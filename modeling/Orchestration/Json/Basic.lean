import Orchestration.Entries
import Orchestration.Binary64.Basic

/-! # Structured values

The values that templates, properties and stored records are made of.  A map keeps the order of its
entries.  `same` is the equality of the data: it looks through the order of map entries and through
the sign of zero, and a whole number never equals a floating-point one.
-/

set_option autoImplicit false

namespace Orchestration

/-- A number: a whole number of 64 bits, or a finite floating-point number. -/
inductive Number where
  | integer (n : Int)
  | float (x : Finite64)
  deriving DecidableEq

namespace Number

def same : Number → Number → Bool
  | .integer m, .integer n => m == n
  | .float x, .float y => x.same y
  | _, _ => false

def toBinary64 : Number → Binary64
  | .integer n => .ofInt n
  | .float x => .finite x

/-- The whole numbers that fit 64 bits, with or without a sign. -/
def InRange : Number → Prop
  | .integer n => -9223372036854775808 ≤ n ∧ n < 18446744073709551616
  | .float _ => True

end Number

inductive Json where
  | null
  | bool (b : Bool)
  | number (n : Number)
  | string (s : String)
  | list (items : List Json)
  | object (entries : List (String × Json))

abbrev Object : Type := Entries Json

namespace Json

instance : Inhabited Json := ⟨.null⟩

def ofInt (n : Int) : Json :=
  .number (.integer n)

/-- A floating-point number; what is not finite has no form of its own and becomes null. -/
def ofBinary64 : Binary64 → Json
  | .finite x => .number (.float x)
  | _ => .null

def ofText? : Option String → Json
  | some s => .string s
  | none => .null

def ofTexts (items : List String) : Json :=
  .list (items.map .string)

def text? : Json → Option String
  | .string s => some s
  | _ => none

def list? : Json → Option (List Json)
  | .list items => some items
  | _ => none

def object? : Json → Option Object
  | .object entries => some entries
  | _ => none

mutual

def same : Json → Json → Bool
  | .null, .null => true
  | .bool a, .bool b => a == b
  | .number m, .number n => m.same n
  | .string s, .string t => s == t
  | .list xs, .list ys => sameItems xs ys
  | .object xs, .object ys => xs.length == ys.length && sameEntries xs ys
  | _, _ => false

def sameItems : List Json → List Json → Bool
  | [], [] => true
  | x :: xs, y :: ys => same x y && sameItems xs ys
  | _, _ => false

def sameEntries : List (String × Json) → Object → Bool
  | [], _ => true
  | (k, v) :: rest, other =>
    (match Entries.get? other k with
      | some w => same v w
      | none => false) && sameEntries rest other

end

mutual

/-- Numbers are in range and no map has a key twice, at any depth. -/
def WellFormed : Json → Prop
  | .number n => n.InRange
  | .list items => WellFormedItems items
  | .object entries => Entries.Distinct entries ∧ WellFormedEntries entries
  | _ => True

def WellFormedItems : List Json → Prop
  | [] => True
  | x :: xs => WellFormed x ∧ WellFormedItems xs

def WellFormedEntries : List (String × Json) → Prop
  | [] => True
  | (_, v) :: rest => WellFormed v ∧ WellFormedEntries rest

end

end Json

end Orchestration
