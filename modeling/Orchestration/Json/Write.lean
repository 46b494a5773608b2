import Orchestration.Json.Number

/-! # Writing values

Three layouts of the same text: compact, spaced with a blank after every comma and colon, and pretty
with one entry a line, two blanks deeper at each level.  A string escapes the quote, the backslash
and the control characters, and nothing else.
-/

set_option autoImplicit false

namespace Orchestration.Json

inductive Layout where
  | compact
  | spaced
  | pretty

namespace Layout

def newLine (depth : Nat) : String :=
  String.ofList ('\n' :: List.replicate (2 * depth) ' ')

def border (layout : Layout) (depth : Nat) : String :=
  match layout with
  | .pretty => newLine depth
  | _ => ""

def separator (layout : Layout) (depth : Nat) : String :=
  match layout with
  | .compact => ","
  | .spaced => ", "
  | .pretty => "," ++ newLine depth

def colon : Layout → String
  | .compact => ":"
  | _ => ": "

end Layout

def escape (c : Char) : List Char :=
  if c = '"' then ['\\', '"']
  else if c = '\\' then ['\\', '\\']
  else if c = '\x08' then ['\\', 'b']
  else if c = '\x0c' then ['\\', 'f']
  else if c = '\n' then ['\\', 'n']
  else if c = '\r' then ['\\', 'r']
  else if c = '\t' then ['\\', 't']
  else if c.toNat < 32 then
    ['\\', 'u', '0', '0', Text.hexDigit (c.toNat / 16), Text.hexDigit (c.toNat % 16)]
  else [c]

def quote (s : String) : String :=
  String.ofList ('"' :: (s.toList.flatMap escape ++ ['"']))

mutual

/-- The text of a value that stands `depth` levels deep. -/
def write (layout : Layout) (depth : Nat) : Json → String
  | .null => "null"
  | .bool true => "true"
  | .bool false => "false"
  | .number n => String.ofList n.text
  | .string s => quote s
  | .list [] => "[]"
  | .list (x :: rest) =>
    "[" ++ layout.border (depth + 1) ++ write layout (depth + 1) x ++
      writeItems layout (depth + 1) rest ++ layout.border depth ++ "]"
  | .object [] => "\x7b\x7d"
  | .object ((k, v) :: rest) =>
    "\x7b" ++ layout.border (depth + 1) ++ quote k ++ layout.colon ++ write layout (depth + 1) v ++
      writeEntries layout (depth + 1) rest ++ layout.border depth ++ "\x7d"

def writeItems (layout : Layout) (depth : Nat) : List Json → String
  | [] => ""
  | x :: rest => layout.separator depth ++ write layout depth x ++ writeItems layout depth rest

def writeEntries (layout : Layout) (depth : Nat) : List (String × Json) → String
  | [] => ""
  | (k, v) :: rest =>
    layout.separator depth ++ quote k ++ layout.colon ++ write layout depth v ++
      writeEntries layout depth rest

end

def compact (value : Json) : String :=
  write .compact 0 value

def spaced (value : Json) : String :=
  write .spaced 0 value

def pretty (value : Json) : String :=
  write .pretty 0 value

def scalarText? : Json → Option String
  | .null => some ""
  | .string s => some s
  | .bool true => some "true"
  | .bool false => some "false"
  | .number n => some (String.ofList n.text)
  | .list _ => none
  | .object _ => none

/-- The text of a value inside other text: plain for a scalar, spaced for a list or a map. -/
def inlineText (value : Json) : String :=
  (scalarText? value).getD (spaced value)

end Orchestration.Json
