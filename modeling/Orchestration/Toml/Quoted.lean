import Orchestration.Text.Integer

/-! # Strings in settings

Four ways to write a string: between double quotes with escapes or between single quotes without,
and each of them on one line or, with three quotes, on several.  Each reader gets the text behind
the opening quotes and gives the content and the text behind the closing ones.
-/

set_option autoImplicit false

namespace Orchestration.Toml

def isBlank (c : Char) : Bool :=
  c == ' ' || c == '\t'

def isPlain (c : Char) : Bool :=
  c == '\t' || (' ' ≤ c && c != '\x7f')

def newline? : List Char → Option (List Char)
  | '\n' :: rest => some rest
  | '\r' :: '\n' :: rest => some rest
  | _ => none

def hexNumber? (digits : List Char) : Option Nat :=
  digits.foldlM (fun value c => (Text.hexValue? c).map fun digit => 16 * value + digit) 0

def coded? (digits : List Char) : Option Char := do
  let n ← hexNumber? digits
  if n.isValidChar then some (Char.ofNat n) else none

def escaped? (c : Char) : Option Char :=
  if c = 'b' then some '\x08'
  else if c = 't' then some '\t'
  else if c = 'n' then some '\n'
  else if c = 'f' then some '\x0c'
  else if c = 'r' then some '\r'
  else if c = '"' then some '"'
  else if c = '\\' then some '\\'
  else none

def withChar (c : Char) (read : Option (List Char × List Char)) : Option (List Char × List Char) :=
  read.map fun (content, rest) => (c :: content, rest)

def basic? : List Char → Option (List Char × List Char)
  | [] => none
  | '"' :: rest => some ([], rest)
  | '\\' :: 'u' :: a :: b :: c :: d :: rest => do
    withChar (← coded? [a, b, c, d]) (basic? rest)
  | '\\' :: 'U' :: a :: b :: c :: d :: e :: f :: g :: h :: rest => do
    withChar (← coded? [a, b, c, d, e, f, g, h]) (basic? rest)
  | '\\' :: c :: rest => do
    withChar (← escaped? c) (basic? rest)
  | c :: rest => if isPlain c then withChar c (basic? rest) else none

/-- Up to two quotes in front of the text, which belong to a content that ends before them, and the
rest. -/
def lastQuotes (quote : Char) : List Char → List Char × List Char
  | a :: b :: rest =>
    if a = quote then
      if b = quote then ([a, b], rest) else ([a], b :: rest)
    else ([], a :: b :: rest)
  | [a] => if a = quote then ([a], []) else ([], [a])
  | [] => ([], [])

/-- Reads up to three double quotes.  A backslash at the end of a line leaves out all white space up
to the next character; `skipping` says that this is going on. -/
def basicLines? (skipping : Bool) : List Char → Option (List Char × List Char)
  | [] => none
  | '"' :: '"' :: '"' :: rest => some (lastQuotes '"' rest)
  | '\\' :: 'u' :: a :: b :: c :: d :: rest => do
    withChar (← coded? [a, b, c, d]) (basicLines? false rest)
  | '\\' :: 'U' :: a :: b :: c :: d :: e :: f :: g :: h :: rest => do
    withChar (← coded? [a, b, c, d, e, f, g, h]) (basicLines? false rest)
  | '\\' :: c :: rest =>
    match escaped? c with
    | some e => withChar e (basicLines? false rest)
    | none =>
      if (newline? ((c :: rest).dropWhile isBlank)).isSome then basicLines? true (c :: rest)
      else none
  | '\r' :: '\n' :: rest =>
    if skipping then basicLines? true rest else withChar '\n' (basicLines? false rest)
  | c :: rest =>
    if skipping && (isBlank c || c == '\n') then basicLines? true rest
    else if isPlain c || c == '\n' then withChar c (basicLines? false rest)
    else none

def literal? : List Char → Option (List Char × List Char)
  | [] => none
  | c :: rest =>
    if c = '\'' then some ([], rest)
    else if isPlain c then withChar c (literal? rest)
    else none

def literalLines? : List Char → Option (List Char × List Char)
  | [] => none
  | '\'' :: '\'' :: '\'' :: rest => some (lastQuotes '\'' rest)
  | '\r' :: '\n' :: rest => withChar '\n' (literalLines? rest)
  | c :: rest => if isPlain c || c == '\n' then withChar c (literalLines? rest) else none

def behindOpening (text : List Char) : List Char :=
  (newline? text).getD text

def line? : List Char → Option (String × List Char)
  | '"' :: rest => (basic? rest).map fun (content, rest) => (String.ofList content, rest)
  | '\'' :: rest => (literal? rest).map fun (content, rest) => (String.ofList content, rest)
  | _ => none

def quoted? : List Char → Option (String × List Char)
  | '"' :: '"' :: '"' :: rest =>
    (basicLines? false (behindOpening rest)).map fun (content, rest) =>
      (String.ofList content, rest)
  | '\'' :: '\'' :: '\'' :: rest =>
    (literalLines? (behindOpening rest)).map fun (content, rest) =>
      (String.ofList content, rest)
  | text => line? text

end Orchestration.Toml
