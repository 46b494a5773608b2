/-! # Splitting and replacing text

`pieces` cuts a text at the left-to-right, non-overlapping occurrences of a separator; `join` puts
pieces together again.  `replaceAll` does both at once.
-/

set_option autoImplicit false

namespace Orchestration.Text

def extendFirst (c : Char) : List (List Char) → List (List Char)
  | [] => [[c]]
  | piece :: rest => (c :: piece) :: rest

/-- The pieces of the text between the occurrences of a separator that is not empty, where the first
`skip` characters still belong to an occurrence. -/
def piecesFrom (separator : List Char) : Nat → List Char → List (List Char)
  | _, [] => [[]]
  | skip + 1, _ :: rest => piecesFrom separator skip rest
  | 0, c :: rest =>
    if separator.isPrefixOf (c :: rest) then
      [] :: piecesFrom separator (separator.length - 1) rest
    else
      extendFirst c (piecesFrom separator 0 rest)

/-- The pieces of `text` between the occurrences of `separator`, which is not empty.  There is
always at least one piece. -/
def pieces (separator text : List Char) : List (List Char) :=
  piecesFrom separator 0 text

def join (separator : List Char) : List (List Char) → List Char
  | [] => []
  | [piece] => piece
  | piece :: next :: rest => piece ++ separator ++ join separator (next :: rest)

/-- Replaces every occurrence of `old` by `new`.  An empty `old` occurs before every character and
at the end. -/
def replaceAll (old new text : List Char) : List Char :=
  match old with
  | [] => new ++ text.flatMap (fun c => c :: new)
  | _ :: _ => join new (pieces old text)

@[simp] theorem extendFirst_ne_nil (c : Char) (parts : List (List Char)) :
    extendFirst c parts ≠ [] := by
  cases parts <;> simp [extendFirst]

theorem piecesFrom_ne_nil (separator : List Char) (skip : Nat) (text : List Char) :
    piecesFrom separator skip text ≠ [] := by
  induction text generalizing skip with
  | nil => cases skip <;> simp [piecesFrom]
  | cons c rest ih =>
    cases skip with
    | zero =>
      simp only [piecesFrom]
      split
      · simp
      · simp
    | succ skip => exact ih skip

end Orchestration.Text
