import Orchestration.Entries

/-! # Settings as a tree

The values that settings are written with, and the rules by which the lines of a text build up
tables.  No key is written twice, and a table that was written in one place is not extended from
another.
-/

set_option autoImplicit false

namespace Orchestration

/-- How a table came about, which decides what may still be added to it. -/
inductive Toml.Origin where
  | header
  | implied
  | dotted
  | inline
  deriving DecidableEq

inductive Toml where
  | string (s : String)
  | integer (n : Int)
  | boolean (b : Bool)
  | array (items : List Toml)
  | table (origin : Toml.Origin) (entries : List (String × Toml))

namespace Toml

def assign? (value : Toml) : List String → Entries Toml → Option (Entries Toml)
  | [], _ => none
  | [key], entries => if Entries.has entries key then none else some (Entries.put entries key value)
  | key :: next :: rest, entries =>
    match Entries.get? entries key with
    | none =>
      (assign? value (next :: rest) []).map fun below =>
        Entries.put entries key (.table .dotted below)
    | some (.table .dotted entriesBelow) =>
      (assign? value (next :: rest) entriesBelow).map fun below =>
        Entries.put entries key (.table .dotted below)
    | some _ => none

/-- Opens the table of a header: a new one, or one that the header of a table inside it implied. -/
def open? : List String → Entries Toml → Option (Entries Toml)
  | [], _ => none
  | [key], entries =>
    match Entries.get? entries key with
    | none => some (Entries.put entries key (.table .header []))
    | some (.table .implied below) => some (Entries.put entries key (.table .header below))
    | some _ => none
  | key :: next :: rest, entries =>
    match Entries.get? entries key with
    | none =>
      (open? (next :: rest) []).map fun below => Entries.put entries key (.table .implied below)
    | some (.table .inline _) => none
    | some (.table origin entriesBelow) =>
      (open? (next :: rest) entriesBelow).map fun below =>
        Entries.put entries key (.table origin below)
    | some _ => none

def within? (change : Entries Toml → Option (Entries Toml)) :
    List String → Entries Toml → Option (Entries Toml)
  | [], entries => change entries
  | key :: rest, entries =>
    match Entries.get? entries key with
    | some (.table origin entriesBelow) =>
      (within? change rest entriesBelow).map fun below =>
        Entries.put entries key (.table origin below)
    | _ => none

inductive Line where
  | header (path : List String)
  | pair (path : List String) (value : Toml)

/-- Builds the tree of lines on top of what was built before; `path` is the table of the last
header. -/
def build? (path : List String) : List Line → Entries Toml → Option (Entries Toml)
  | [], entries => some entries
  | .header opened :: rest, entries => do
    let entries ← open? opened entries
    build? opened rest entries
  | .pair key value :: rest, entries => do
    let entries ← within? (assign? value key) path entries
    build? path rest entries

def ofPairs? (pairs : List (List String × Toml)) : Option (Entries Toml) :=
  pairs.foldlM (fun entries pair => assign? pair.2 pair.1 entries) []

def text? : Toml → Option String
  | .string s => some s
  | _ => none

def natural? : Toml → Option Nat
  | .integer n => if 0 ≤ n then some n.toNat else none
  | _ => none

def listOf? {α : Type} (item? : Toml → Option α) : Toml → Option (List α)
  | .array items => items.mapM item?
  | _ => none

/-- The fields of a record, in the order of their names: from a table with no other keys, or from an
array of the fields in order. -/
def fields? (names : List String) : Toml → Option (List (Option Toml))
  | .table _ entries =>
    if (Entries.keys entries).all fun key => decide (key ∈ names) then
      some (names.map (Entries.get? entries))
    else none
  | .array items =>
    some ((items.map some ++ List.replicate names.length none).take names.length)
  | _ => none

end Toml

end Orchestration
