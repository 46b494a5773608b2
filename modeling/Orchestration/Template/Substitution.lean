import Orchestration.Json.Write
import Orchestration.Text.Pieces

/-! # Substitution

Placeholders in a text are replaced all at once: text that was put in is not searched again.  The
variables of a repeated template are replaced one after the other, in strings and in keys.
-/

set_option autoImplicit false

namespace Orchestration.Substitution

/-- Placeholders are looked for in this order: longer ones first, of one length in lexical order. -/
def before (p q : String) : Bool :=
  q.utf8ByteSize < p.utf8ByteSize || (p.utf8ByteSize == q.utf8ByteSize && !(decide (q < p)))

def ordered (keys : List String) : List String :=
  keys.mergeSort before

/-- Cuts the text at the first placeholder, substitutes the others in every piece, and joins the
pieces with the first one's text. -/
def replaceTogether : List (List Char × List Char) → List Char → List Char
  | [], text => text
  | (placeholder, value) :: rest, text =>
    Text.join value ((Text.pieces placeholder text).map (replaceTogether rest))

def replaceInTurn (bindings : List (String × Json)) (text : String) : String :=
  String.ofList <| bindings.foldl
    (fun text (name, item) => Text.replaceAll name.toList item.inlineText.toList text) text.toList

mutual

def inValue (bindings : List (String × Json)) : Json → Json
  | .string s => .string (replaceInTurn bindings s)
  | .list items => .list (inItems bindings items)
  | .object entries => .object (inEntries bindings [] entries)
  | scalar => scalar

def inItems (bindings : List (String × Json)) : List Json → List Json
  | [] => []
  | x :: rest => inValue bindings x :: inItems bindings rest

def inEntries (bindings : List (String × Json)) : Object → List (String × Json) → Object
  | done, [] => done
  | done, (key, x) :: rest =>
    inEntries bindings
      (Entries.put done (replaceInTurn bindings key) (inValue bindings x)) rest

end

/-- Every choice of one item from each list; the last list varies fastest. -/
def product : List (List Json) → List (List Json)
  | [] => [[]]
  | items :: rest => items.flatMap fun item => (product rest).map (item :: ·)

end Orchestration.Substitution
