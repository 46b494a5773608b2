import Orchestration.Json.Token

/-! # Structured text before interpretation

A text as a tree of what it says: keys may occur twice, a number may be out of range and a string
may have no content.  `toJson?` interprets such a tree as a value.  A record reader looks only at
the fields it knows, so a fault elsewhere does not matter to it.
-/

set_option autoImplicit false

namespace Orchestration

inductive Raw where
  | null
  | bool (b : Bool)
  | number (n : Option Number)
  | string (s : Option String)
  | list (items : List Raw)
  | object (entries : List (Option String × Raw))

namespace Raw

open Json (Token)

mutual

/-- Reads one value in front of the tokens, within a number of steps. -/
def value? : Nat → List Token → Option (Raw × List Token)
  | 0, _ => none
  | steps + 1, tokens =>
    match tokens with
    | .null :: rest => some (.null, rest)
    | .bool b :: rest => some (.bool b, rest)
    | .number n :: rest => some (.number n.value?, rest)
    | .string s :: rest => some (.string s, rest)
    | .openList :: .closeList :: rest => some (.list [], rest)
    | .openList :: rest => (items? steps rest).map fun (items, rest) => (.list items, rest)
    | .openObject :: .closeObject :: rest => some (.object [], rest)
    | .openObject :: rest =>
      (entries? steps rest).map fun (entries, rest) => (.object entries, rest)
    | _ => none

def items? : Nat → List Token → Option (List Raw × List Token)
  | 0, _ => none
  | steps + 1, tokens => do
    let (first, rest) ← value? steps tokens
    match rest with
    | .closeList :: rest => some ([first], rest)
    | .comma :: rest => (items? steps rest).map fun (more, rest) => (first :: more, rest)
    | _ => none

def entries? : Nat → List Token → Option (List (Option String × Raw) × List Token)
  | 0, _ => none
  | steps + 1, tokens =>
    match tokens with
    | .string key :: .colon :: rest => do
      let (first, rest) ← value? steps rest
      match rest with
      | .closeObject :: rest => some ([(key, first)], rest)
      | .comma :: rest =>
        (entries? steps rest).map fun (more, rest) => ((key, first) :: more, rest)
      | _ => none
    | _ => none

end

/-- Reads a text that holds exactly one value.  Two steps for each token are enough. -/
def ofText? (text : String) : Option Raw := do
  let tokens ← Token.all? text
  match value? (2 * tokens.length + 1) tokens with
  | some (raw, []) => some raw
  | _ => none

mutual

/-- Interprets a tree of at most `depth` containers inside each other.  Of two entries with one key
the first gives the place and the last gives the value. -/
def toJsonWithin? : Nat → Raw → Option Json
  | _, .null => some .null
  | _, .bool b => some (.bool b)
  | _, .number n => n.map .number
  | _, .string s => s.map .string
  | 0, .list _ => none
  | depth + 1, .list items => (itemsToJson? depth items).map .list
  | 0, .object _ => none
  | depth + 1, .object entries => (entriesToJson? depth [] entries).map .object

def itemsToJson? : Nat → List Raw → Option (List Json)
  | _, [] => some []
  | depth, x :: rest => do
    let first ← toJsonWithin? depth x
    let more ← itemsToJson? depth rest
    some (first :: more)

def entriesToJson? : Nat → Object → List (Option String × Raw) → Option Object
  | _, before, [] => some before
  | depth, before, (key, x) :: rest => do
    let key ← key
    let value ← toJsonWithin? depth x
    entriesToJson? depth (Entries.put before key value) rest

end

def depthLimit : Nat := 127

def toJson? (raw : Raw) : Option Json :=
  toJsonWithin? depthLimit raw

mutual

def ofJson : Json → Raw
  | .null => .null
  | .bool b => .bool b
  | .number n => .number (some n)
  | .string s => .string (some s)
  | .list items => .list (ofItems items)
  | .object entries => .object (ofEntries entries)

def ofItems : List Json → List Raw
  | [] => []
  | x :: rest => ofJson x :: ofItems rest

def ofEntries : List (String × Json) → List (Option String × Raw)
  | [] => []
  | (k, v) :: rest => (some k, ofJson v) :: ofEntries rest

end

def text? : Raw → Option String
  | .string s => s
  | _ => none

def listOf? {α : Type} (item? : Raw → Option α) : Raw → Option (List α)
  | .list items => items.mapM item?
  | _ => none

def optional? {α : Type} (value? : Raw → Option α) : Raw → Option (Option α)
  | .null => some none
  | raw => (value? raw).map some

/-- One of several names: the name as a string, or as the only key of a map with the value null. -/
def name? : Raw → Option String
  | .string s => s
  | .object [(key, .null)] => key
  | _ => none

def natural? (bound : Nat) : Raw → Option Nat
  | .number (some (.integer n)) => if 0 ≤ n ∧ n < bound then some n.toNat else none
  | _ => none

/-- Collects the entries with known keys; a known key that occurs twice is refused. -/
def known? (names : List String) :
    Entries Raw → List (Option String × Raw) → Option (Entries Raw)
  | found, [] => some found
  | found, (key, value) :: rest => do
    let key ← key
    if key ∈ names then
      if Entries.has found key then none else known? names (found ++ [(key, value)]) rest
    else known? names found rest

/-- The fields of a record, in the order of their names: from a map with these keys, or from a list
of the fields in order, of which the last may be missing. -/
def fields? (names : List String) : Raw → Option (List (Option Raw))
  | .object entries => do
    let found ← known? names [] entries
    some (names.map (Entries.get? found))
  | .list items =>
    if names.length < items.length then none
    else some (items.map some ++ List.replicate (names.length - items.length) none)
  | _ => none

end Raw

def Json.ofText (text : String) : Option Json := do
  let raw ← Raw.ofText? text
  raw.toJson?

end Orchestration
