import Orchestration.Text.Blank
import Orchestration.Text.Integer
import Orchestration.Time.Instant

/-! # Instants in text

Dates with a time and an offset, such as `2026-03-01T12:00:00.5Z`.  Reading is lenient: blanks may
stand between the parts, a blank or a small letter may separate date and time, and a year may have a
sign and more than four digits.  Writing always uses UTC and as few places as are exact, in groups
of three.
-/

set_option autoImplicit false

namespace Orchestration.Time

def digits? (most : Nat) (text : List Char) : Option (Nat × List Char) :=
  match (text.takeWhile Text.isDigit).take most with
  | [] => none
  | found => some (Text.ofDigits found, text.drop found.length)

def field? (most : Nat) (text : List Char) : Option (Nat × List Char) :=
  digits? most (Text.trimStart text)

def mark? (mark : Char) (text : List Char) : Option (List Char) :=
  match Text.trimStart text with
  | c :: rest => if c = mark then some rest else none
  | [] => none

/-- Reads a year: up to four digits, or any number after a sign. -/
def year? (text : List Char) : Option (Int × List Char) :=
  match Text.trimStart text with
  | '-' :: rest => (digits? rest.length rest).map fun (n, rest) => (-(n : Int), rest)
  | '+' :: rest => (digits? rest.length rest).map fun (n, rest) => ((n : Int), rest)
  | other => (digits? 4 other).map fun (n, rest) => ((n : Int), rest)

/-- Reads the places of a second: nine count, more are skipped. -/
def places? (text : List Char) : Option (Nat × List Char) :=
  match text with
  | '.' :: rest => do
    let (n, after) ← digits? 9 rest
    some (n * Nat.pow 10 (9 - (rest.length - after.length)), after.dropWhile Text.isDigit)
  | _ => some (0, text)

def twoDigits? (text : List Char) : Option (Nat × List Char) :=
  match text with
  | a :: b :: rest =>
    if Text.isDigit a && Text.isDigit b then
      some (10 * Text.digitValue a + Text.digitValue b, rest)
    else none
  | _ => none

/-- Reads an offset from UTC in seconds: `Z`, `UTC`, or hours and minutes after a sign. -/
def offset? (text : List Char) : Option (Int × List Char) :=
  match text with
  | 'Z' :: rest | 'z' :: rest => some (0, rest)
  | u :: t :: c :: rest =>
    if [u, t, c].map Char.toLower = ['u', 't', 'c'] then some (0, rest)
    else
      let sign : Option Int :=
        if u = '+' then some 1 else if u = '-' || u = '−' then some (-1) else none
      do
        let sign ← sign
        let (hours, after) ← twoDigits? (t :: c :: rest)
        let (minutes, after) ←
          twoDigits? (after.dropWhile fun c => c == ':' || Text.isBlank c)
        if hours < 24 ∧ minutes < 60 then some (sign * (hours * 3600 + minutes * 60 : Nat), after)
        else none
  | _ => none

def read? (text : List Char) : Option Instant := do
  let (year, text) ← year? text
  let text ← mark? '-' text
  let (month, text) ← field? 2 text
  let text ← mark? '-' text
  let (day, text) ← field? 2 text
  let text ← match text with
    | 't' :: rest | 'T' :: rest | ' ' :: rest => some rest
    | _ => none
  let (hour, text) ← field? 2 text
  let text ← mark? ':' text
  let (minute, text) ← field? 2 text
  let text ← mark? ':' text
  let (second, text) ← field? 2 text
  let (nano, text) ← places? text
  let (offset, text) ← offset? (Text.trimStart text)
  let date : Date := ⟨year, month, day⟩
  if !(Text.trimStart text).isEmpty || !date.isValid || 24 ≤ hour || 60 ≤ minute || 61 ≤ second then
    none
  else
    let (second, nano) := if second = 60 then (59, nano + nanosPerSecond) else (second, nano)
    let ofDay : Int := (hour * 3600 + minute * 60 + second : Nat)
    let inLocalTime ← Instant.of? (date.toDays * 86400 + ofDay) nano
    Instant.of? (inLocalTime.second - offset) nano

def padded (width n : Nat) : List Char :=
  let digits := Text.digits n
  List.replicate (width - digits.length) '0' ++ digits

/-- A year with four digits; beyond these it has a sign. -/
def yearText (year : Int) : List Char :=
  if 0 ≤ year ∧ year ≤ 9999 then padded 4 year.natAbs
  else (if year < 0 then '-' else '+') :: padded 4 year.natAbs

def placesText (nano : Nat) : List Char :=
  if nano = 0 then []
  else if nano % 1000000 = 0 then '.' :: padded 3 (nano / 1000000)
  else if nano % 1000 = 0 then '.' :: padded 6 (nano / 1000)
  else '.' :: padded 9 nano

end Orchestration.Time

namespace Orchestration.Instant

open Time

def ofText? (text : String) : Option Instant :=
  read? text.toList

def text (t : Instant) : String :=
  let days := t.second / 86400
  let ofDay := (t.second % 86400).toNat
  let date := Date.ofDays days
  let (second, nano) :=
    if nanosPerSecond ≤ t.nano then (ofDay % 60 + 1, t.nano - nanosPerSecond)
    else (ofDay % 60, t.nano)
  String.ofList (yearText date.year ++ '-' :: padded 2 date.month ++ '-' :: padded 2 date.day ++
    'T' :: padded 2 (ofDay / 3600) ++ ':' :: padded 2 (ofDay / 60 % 60) ++ ':' :: padded 2 second ++
    placesText nano ++ ['Z'])

end Orchestration.Instant
