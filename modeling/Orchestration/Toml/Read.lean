import Orchestration.Toml.Basic
import Orchestration.Toml.Quoted

/-! # Reading settings

The values and the lines of a text.  Values that settings have no use for, which are fractions,
dates and lists of tables made by headers, are refused.
-/

set_option autoImplicit false

namespace Orchestration.Toml

def skipBlanks (text : List Char) : List Char :=
  text.dropWhile isBlank

/-- Leaves out white space, line ends and comments; `inComment` says that a comment has begun. -/
def skipLines (inComment : Bool) : List Char → List Char
  | [] => []
  | '\n' :: rest => skipLines false rest
  | '\r' :: '\n' :: rest => skipLines false rest
  | c :: rest =>
    if inComment then if isPlain c then skipLines true rest else c :: rest
    else if isBlank c then skipLines false rest
    else if c = '#' then skipLines true rest
    else c :: rest

def lineEnd? (text : List Char) : Option (List Char) :=
  let rest := match skipBlanks text with
    | '#' :: comment => comment.dropWhile isPlain
    | rest => rest
  if rest.isEmpty then some [] else newline? rest

def isKeyChar (c : Char) : Bool :=
  Text.isDigit c || ('a' ≤ c && c ≤ 'z') || ('A' ≤ c && c ≤ 'Z') || c == '_' || c == '-'

def keyPart? (text : List Char) : Option (String × List Char) :=
  match text.takeWhile isKeyChar with
  | [] => line? text
  | c :: more => some (String.ofList (c :: more), text.dropWhile isKeyChar)

def key? : Nat → List Char → Option (List String × List Char)
  | 0, _ => none
  | steps + 1, text => do
    let (part, rest) ← keyPart? (skipBlanks text)
    match skipBlanks rest with
    | '.' :: rest => (key? steps rest).map fun (more, rest) => (part :: more, rest)
    | rest => some ([part], rest)

/-- The digits of a number; a single underscore may stand between two of them. -/
def grouped? : List Char → Option (List Char)
  | [] => none
  | [c] => if c = '_' then none else some [c]
  | c :: d :: rest =>
    if c = '_' then none
    else if d = '_' then (grouped? rest).map (c :: ·)
    else (grouped? (d :: rest)).map (c :: ·)

def inBase? (base : Nat) (digits : List Char) : Option Nat :=
  digits.foldlM (fun value c => do
    let digit ← Text.hexValue? c
    if digit < base then some (base * value + digit) else none) 0

def based? (base : Nat) (text : List Char) : Option (Nat × List Char) := do
  let isDigit := fun c : Char => (Text.hexValue? c).isSome || c == '_'
  let digits ← grouped? (text.takeWhile isDigit)
  let n ← inBase? base digits
  some (n, text.dropWhile isDigit)

def decimal? (text : List Char) : Option (Nat × List Char) := do
  let isDigit := fun c => Text.isDigit c || c == '_'
  let digits ← grouped? (text.takeWhile isDigit)
  if digits.head? = some '0' ∧ 1 < digits.length then none
  else some (Text.ofDigits digits, text.dropWhile isDigit)

/-- Reads a whole number, which has to fit a signed 64-bit word. -/
def integer? (text : List Char) : Option (Int × List Char) := do
  let (n, rest) ← match text with
    | '0' :: 'x' :: rest => (based? 16 rest).map fun (n, rest) => ((n : Int), rest)
    | '0' :: 'o' :: rest => (based? 8 rest).map fun (n, rest) => ((n : Int), rest)
    | '0' :: 'b' :: rest => (based? 2 rest).map fun (n, rest) => ((n : Int), rest)
    | '+' :: rest => (decimal? rest).map fun (n, rest) => ((n : Int), rest)
    | '-' :: rest => (decimal? rest).map fun (n, rest) => (-(n : Int), rest)
    | _ => (decimal? text).map fun (n, rest) => ((n : Int), rest)
  if -9223372036854775808 ≤ n ∧ n < 9223372036854775808 then some (n, rest) else none

mutual

def value? : Nat → List Char → Option (Toml × List Char)
  | 0, _ => none
  | steps + 1, text =>
    match text with
    | '[' :: rest => (items? steps rest).map fun (items, rest) => (.array items, rest)
    | '\x7b' :: rest => do
      let (pairs, rest) ← match skipBlanks rest with
        | '\x7d' :: rest => some ([], rest)
        | rest => pairs? steps rest
      some (.table .inline (← ofPairs? pairs), rest)
    | 't' :: 'r' :: 'u' :: 'e' :: rest => some (.boolean true, rest)
    | 'f' :: 'a' :: 'l' :: 's' :: 'e' :: rest => some (.boolean false, rest)
    | c :: _ =>
      if c = '"' || c = '\'' then (quoted? text).map fun (s, rest) => (.string s, rest)
      else (integer? text).map fun (n, rest) => (.integer n, rest)
    | [] => none

def items? : Nat → List Char → Option (List Toml × List Char)
  | 0, _ => none
  | steps + 1, text =>
    match skipLines false text with
    | ']' :: rest => some ([], rest)
    | text => do
      let (first, rest) ← value? steps text
      match skipLines false rest with
      | ',' :: rest => (items? steps rest).map fun (more, rest) => (first :: more, rest)
      | ']' :: rest => some ([first], rest)
      | _ => none

def pairs? : Nat → List Char → Option (List (List String × Toml) × List Char)
  | 0, _ => none
  | steps + 1, text => do
    let (pair, rest) ← pair? steps text
    match skipBlanks rest with
    | ',' :: rest => (pairs? steps rest).map fun (more, rest) => (pair :: more, rest)
    | '\x7d' :: rest => some ([pair], rest)
    | _ => none

def pair? : Nat → List Char → Option ((List String × Toml) × List Char)
  | 0, _ => none
  | steps + 1, text => do
    let (path, rest) ← key? (steps + 1) text
    match rest with
    | '=' :: rest =>
      (value? steps (skipBlanks rest)).map fun (value, rest) => ((path, value), rest)
    | _ => none

end

def header? (steps : Nat) (text : List Char) : Option (List String × List Char) := do
  let (path, rest) ← key? steps text
  match rest with
  | ']' :: rest => some (path, rest)
  | _ => none

def lines? : Nat → List Char → Option (List Line)
  | 0, _ => none
  | steps + 1, text =>
    match skipLines false text with
    | [] => some []
    | '[' :: rest => do
      let (path, rest) ← header? steps rest
      let rest ← lineEnd? rest
      (lines? steps rest).map (.header path :: ·)
    | text => do
      let ((path, value), rest) ← pair? steps text
      let rest ← lineEnd? rest
      (lines? steps rest).map (.pair path value :: ·)

def behindMark : List Char → List Char
  | '\uFEFF' :: rest => rest
  | text => text

/-- Reads a text of settings.  No reading takes more than three steps for a character. -/
def ofText? (text : String) : Option Toml := do
  let chars := behindMark text.toList
  let lines ← lines? (3 * chars.length + 3) chars
  let entries ← build? [] lines []
  some (.table .header entries)

end Orchestration.Toml
