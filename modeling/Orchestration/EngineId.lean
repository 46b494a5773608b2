import Orchestration.Text.Integer

/-! # Names of engines

An engine that is not named by its settings takes a random name: 32 hexadecimal digits in groups, of
which one tells the version and one the variant of the format.
-/

set_option autoImplicit false

namespace Orchestration.EngineId

def groups : List Nat := [8, 4, 4, 4, 12]

def dashed : List Nat → List Char → List Char
  | [], _ => []
  | [size], digits => digits.take size
  | size :: next :: rest, digits =>
    digits.take size ++ '-' :: dashed (next :: rest) (digits.drop size)

def hexDigits : Nat → Nat → List Char
  | 0, _ => []
  | count + 1, n => hexDigits count (n / 16) ++ [Text.hexDigit (n % 16)]

/-- The name with 122 random bits. -/
def ofRandom (bits : Nat) : String :=
  let first := hexDigits 12 bits
  let second := hexDigits 3 (bits >>> 48)
  let variant := Text.hexDigit (8 + (bits >>> 60) % 4)
  let last := hexDigits 15 (bits >>> 62)
  String.ofList (dashed groups (first ++ '4' :: second ++ variant :: last))

def isHexDigit (c : Char) : Bool :=
  Text.isDigit c || ('a' ≤ c && c ≤ 'f')

def hasGroups : List Nat → List Char → Bool
  | [], text => text.isEmpty
  | [size], text => text.length == size && text.all isHexDigit
  | size :: next :: rest, text =>
    (text.take size).length == size && (text.take size).all isHexDigit &&
      (text.drop size).head? == some '-' && hasGroups (next :: rest) (text.drop (size + 1))

def isRandom (text : String) : Bool :=
  let chars := text.toList
  hasGroups groups chars && chars[14]? == some '4' &&
    ((chars[19]?).map fun c => "89ab".toList.contains c).getD false

end Orchestration.EngineId
