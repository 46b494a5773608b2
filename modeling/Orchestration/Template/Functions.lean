import Orchestration.Template.Error
import Orchestration.Template.Substitution
import Orchestration.Template.Version
import Orchestration.Text.Blank

/-! # Functions on resolved values

What the functions of a template compute once their arguments are values.
-/

set_option autoImplicit false

namespace Orchestration.Functions

/-- The items of the lists to be joined; null stands for no items. -/
def joinedItems : List Json → Except Fault (List Json)
  | [] => .ok []
  | .null :: rest => joinedItems rest
  | .list items :: rest => (joinedItems rest).map (items ++ ·)
  | _ :: _ => .error .joinNotList

def plainItem : Json → Except Fault String
  | .null => .ok ""
  | .string s => .ok s
  | _ => .error .joinItemsNotText

def joinTexts (delimiter : String) (texts : List String) : String :=
  String.ofList (Text.join delimiter.toList (texts.map String.toList))

/-- Joins the items of lists.  The newer join renders items that are not strings. -/
def join (rendering : Bool) (delimiter : String) (lists : List Json) : Except Fault Json := do
  let items ← joinedItems lists
  let texts ← if rendering then .ok (items.map Json.inlineText) else items.mapM plainItem
  .ok (.string (joinTexts delimiter texts))

/-- The text of a parameter's value.  Only the newer replacement renders lists and maps. -/
def placeholderText (rendering : Bool) (value : Json) : Except Fault String :=
  match value.scalarText? with
  | some text => .ok text
  | none => if rendering then .ok value.spaced else .error .paramsNotScalar

def placeholders (rendering : Bool) (params : Object) :
    List String → Except Fault (List (List Char × List Char))
  | [] => .ok []
  | key :: rest => do
    if key.isEmpty then .error .emptyPlaceholder
    else
      let text ← placeholderText rendering ((Entries.get? params key).getD .null)
      let more ← placeholders rendering params rest
      .ok ((key.toList, text.toList) :: more)

def replace (rendering : Bool) (template : String) (params : Object) : Except Fault Json := do
  let pairs ← placeholders rendering params (Substitution.ordered (Entries.keys params))
  .ok (.string (String.ofList (Substitution.replaceTogether pairs template.toList)))

/-- The list that a variable runs over; the newer repeat takes the keys of a map. -/
def repeatItems (takesMaps : Bool) : Json → Except Fault (List Json)
  | .list items => .ok items
  | .object entries =>
    if takesMaps then .ok ((Entries.keys entries).map .string) else .error .forEachNotLists
  | _ => .error .forEachNotLists

def repeatLists (takesMaps : Bool) (forEach : Object) : Except Fault (List (List Json)) :=
  forEach.mapM fun (_, value) => repeatItems takesMaps value

def repeatTemplate (takesMaps : Bool) (forEach : Object) (template : Json) : Except Fault Json := do
  let lists ← repeatLists takesMaps forEach
  let names := Entries.keys forEach
  .ok (.list ((Substitution.product lists).map fun choice =>
    Substitution.inValue (names.zip choice) template))

/-- The algorithm in lower case and the text, for a list of exactly these two strings. -/
def digestArguments (allowed : List String) (args : Json) : Except Fault (String × String) :=
  match args.list?.bind fun items => items.mapM Json.text? with
  | none => .error .digestNotTexts
  | some [algorithm, value] =>
    let algorithm := Text.lowercase algorithm
    if algorithm ∈ allowed then .ok (algorithm, value) else .error (.digestNotAllowed allowed)
  | some _ => .error .digestUsage

def digest (allowed : List String) (args : Json) : Except Fault Json := do
  let (algorithm, value) ← digestArguments allowed args
  match Digest.named? algorithm value with
  | some hex => .ok (.string hex)
  | none => .error (.digestUnavailable algorithm)

def pieceIndex? : Json → Option Int
  | .number (.integer n) => if n < 9223372036854775808 then some n else none
  | .string s => Text.signed64? (Text.trim s.toList)
  | _ => none

def pieceAt (parts : List String) (index : Int) : Except Fault Json :=
  let position := if index < 0 then parts.length + index else index
  match if position < 0 then none else parts[position.toNat]? with
  | some part => .ok (.string part)
  | none => .error (.splitIndexRange (parts.length - 1))

def splitText (delimiter text : String) : List String :=
  (Text.pieces delimiter.toList text.toList).map String.ofList

/-- Splits a text, or takes one of its pieces.  The text null has no pieces. -/
def strSplit (args : Json) : Except Fault Json := do
  let (delimiter, text, index) ← match args with
    | .list [delimiter, text] => .ok (delimiter, text, none)
    | .list [delimiter, text, index] => .ok (delimiter, text, some index)
    | _ => .error .splitUsage
  match delimiter, text with
  | _, .null => .ok .null
  | .string delimiter, .string text =>
    if delimiter.isEmpty then .error .emptySeparator
    else
      let parts := splitText delimiter text
      match index with
      | none => .ok (Json.ofTexts parts)
      | some index =>
        match pieceIndex? index with
        | some i => pieceAt parts i
        | none => .error .splitIndexUsage
  | _, _ => .error .splitUsage

def mergeOnto (merged : Object) : List Json → Except Fault Object
  | [] => .ok merged
  | .null :: rest => mergeOnto merged rest
  | .object entries :: rest => mergeOnto (Entries.putAll merged entries) rest
  | _ :: _ => .error .mergeNotMaps

def mapMerge (args : Json) : Except Fault Json :=
  match args with
  | .list items => (mergeOnto [] items).map .object
  | _ => .error .mergeUsage

def mapOrNull : Json → Except Fault Object
  | .null => .ok []
  | .object entries => .ok entries
  | _ => .error .mapReplaceUsage

/-- The new key of an entry.  It must not be a key of the input, nor one already written. -/
def renamedKey (newKeys input done : Object) (key : String) : Except Fault String :=
  match Entries.get? newKeys key with
  | none | some .null => .ok key
  | some (.string renamed) =>
    if Entries.has input renamed then .error (.inputKeyCollision renamed)
    else if Entries.has done renamed then .error (.outputKeyCollision renamed)
    else .ok renamed
  | some _ => .error .mapReplaceUsage

def replacedValue (newValues : Object) (value : Json) : Json :=
  match value with
  | .string s => (Entries.get? newValues s).getD value
  | _ => value

def renameEntries (newKeys newValues input : Object) : Object → Object → Except Fault Object
  | done, [] => .ok done
  | done, (key, value) :: rest => do
    let key ← renamedKey newKeys input done key
    renameEntries newKeys newValues input
      (Entries.put done key (replacedValue newValues value)) rest

def mapReplace (args : Json) : Except Fault Json :=
  match args with
  | .list [input, replacements] => do
    let input ← mapOrNull input
    let replacements ← mapOrNull replacements
    if (Entries.keys replacements).any fun key => key != "keys" && key != "values" then
      .error .mapReplaceUsage
    else
      let newKeys ← mapOrNull ((Entries.get? replacements "keys").getD .null)
      let newValues ← mapOrNull ((Entries.get? replacements "values").getD .null)
      (renameEntries newKeys newValues input [] input).map .object
  | _ => .error .mapReplaceUsage

end Orchestration.Functions
