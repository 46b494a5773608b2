import Orchestration.Json.Number

/-! # Tokens of structured text

A text is cut into tokens: brackets, separators, the three words, numbers and strings.  A string
whose escapes name half of a surrogate pair is a token without a content.
-/

set_option autoImplicit false

namespace Orchestration.Json

inductive Token where
  | openList
  | closeList
  | openObject
  | closeObject
  | comma
  | colon
  | null
  | bool (b : Bool)
  | number (n : NumberText)
  | string (s : Option String)

namespace Token

/-- One part of a string: a character, or a UTF-16 code unit given by its number. -/
inductive Piece where
  | char (c : Char)
  | unit (n : Nat)

def hexUnit? (a b c d : Char) : Option Nat := do
  let a ← Text.hexValue? a
  let b ← Text.hexValue? b
  let c ← Text.hexValue? c
  let d ← Text.hexValue? d
  some (((a * 16 + b) * 16 + c) * 16 + d)

def escaped? (c : Char) : Option Char :=
  if c = '"' then some '"'
  else if c = '\\' then some '\\'
  else if c = '/' then some '/'
  else if c = 'b' then some '\x08'
  else if c = 'f' then some '\x0c'
  else if c = 'n' then some '\n'
  else if c = 'r' then some '\r'
  else if c = 't' then some '\t'
  else none

/-- The parts of a string up to its closing quote, and what follows the quote. -/
def pieces? : List Char → Option (List Piece × List Char)
  | [] => none
  | '"' :: rest => some ([], rest)
  | '\\' :: 'u' :: a :: b :: c :: d :: rest => do
    let n ← hexUnit? a b c d
    let (parts, after) ← pieces? rest
    some (.unit n :: parts, after)
  | '\\' :: c :: rest => do
    let e ← escaped? c
    let (parts, after) ← pieces? rest
    some (.char e :: parts, after)
  | c :: rest =>
    if c.toNat < 32 then none
    else do
      let (parts, after) ← pieces? rest
      some (.char c :: parts, after)

/-- The characters of the parts; two code units of a surrogate pair are one character. -/
def content? : List Piece → Option (List Char)
  | [] => some []
  | .char c :: rest => (content? rest).map (c :: ·)
  | .unit n :: .unit m :: rest =>
    if 0xD800 ≤ n ∧ n < 0xDC00 then
      if 0xDC00 ≤ m ∧ m < 0xE000 then
        (content? rest).map (Char.ofNat (0x10000 + (n - 0xD800) * 1024 + (m - 0xDC00)) :: ·)
      else none
    else if 0xDC00 ≤ n ∧ n < 0xE000 then none
    else (content? (.unit m :: rest)).map (Char.ofNat n :: ·)
  | .unit n :: rest =>
    if 0xD800 ≤ n ∧ n < 0xE000 then none
    else (content? rest).map (Char.ofNat n :: ·)

def next? : List Char → Option (Token × List Char)
  | '[' :: rest => some (.openList, rest)
  | ']' :: rest => some (.closeList, rest)
  | '\x7b' :: rest => some (.openObject, rest)
  | '\x7d' :: rest => some (.closeObject, rest)
  | ',' :: rest => some (.comma, rest)
  | ':' :: rest => some (.colon, rest)
  | 'n' :: 'u' :: 'l' :: 'l' :: rest => some (.null, rest)
  | 't' :: 'r' :: 'u' :: 'e' :: rest => some (.bool true, rest)
  | 'f' :: 'a' :: 'l' :: 's' :: 'e' :: rest => some (.bool false, rest)
  | '"' :: rest => (pieces? rest).map fun (parts, after) =>
      (.string ((content? parts).map String.ofList), after)
  | text => (NumberText.read? text).map fun (n, after) => (.number n, after)

def isGap (c : Char) : Bool :=
  c == ' ' || c == '\n' || c == '\t' || c == '\r'

def scan : Nat → List Char → Option (List Token)
  | limit, text =>
    match text.dropWhile isGap, limit with
    | [], _ => some []
    | _ :: _, 0 => none
    | c :: rest, limit + 1 => do
      let (token, after) ← next? (c :: rest)
      let tokens ← scan limit after
      some (token :: tokens)

def all? (text : String) : Option (List Token) :=
  let chars := text.toList
  scan chars.length chars

end Token

end Orchestration.Json
