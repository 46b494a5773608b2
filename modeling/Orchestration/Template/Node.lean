import Orchestration.Json.Basic
import Orchestration.Template.Error
import Orchestration.Template.Version

/-! # Template trees

A template as a tree of plain data and function calls.  A map with exactly one key that names a
function of the template's version is a call; everything else is data.  A call remembers its value
once the value can no longer change.
-/

set_option autoImplicit false

namespace Orchestration

inductive Node where
  | literal (value : Json)
  | list (items : List Node)
  | map (entries : List (String × Node))
  | call (function : Intrinsic) (name : String) (args : Node) (memo : Option Json)

namespace Node

def facadeParts : List String := ["metadata", "deletion_policy", "update_policy"]

/-- What is wrong with the shape of a call's arguments, as far as it can be told without resolving
anything. -/
def shapeFault? : Intrinsic → Node → Option Fault
  | .getAttr, .list (_ :: _ :: _) => none
  | .getAttr, .list _ => some .attributeArguments
  | .getAttr, _ => some .attributeArgumentsNotList
  | .getAttrAll, .list (_ :: _) => none
  | .getAttrAll, .list [] => some .attributeArgumentForms
  | .getAttrAll, _ => some .attributeArgumentsNotList
  | .join, .list [_, _] => none
  | .join, _ => some .joinPairUsage
  | .joinMultiple, .list (_ :: _ :: _) => none
  | .joinMultiple, _ => some .joinUsage
  | .replace, args | .replaceJson, args =>
    match args with
    | .map entries =>
      match Entries.get? entries "params", Entries.get? entries "template" with
      | some (.map _), some _ | some (.call ..), some _ => none
      | some _, some _ => some .parametersNotMapping
      | _, _ => some .replaceUsage
    | _ => some .argumentsNotMap
  | .repeatList, args | .repeatWithMap, args =>
    match args with
    | .map entries =>
      match Entries.get? entries "for_each", Entries.get? entries "template" with
      | some _, some _ => none
      | _, _ => some .repeatUsage
    | _ => some .argumentsNotMap
  | .strSplit, .literal (.string _) | .strSplit, .map _ => some .splitUsage
  | .equals, .list [_, _] => none
  | .equals, _ => some .equalsUsage
  | .resourceFacade, .literal (.string part) =>
    if part ∈ facadeParts then none else some .facadeUsage
  | .resourceFacade, _ => some .facadeUsage
  | _, _ => none

def ofCall (function : Intrinsic) (name : String) (args : Node) : Except TemplateError Node :=
  match shapeFault? function args with
  | some fault => .error (.invalid name fault)
  | none => .ok (.call function name args none)

mutual

def parse (version : Version) : Json → Except TemplateError Node
  | .object [(name, args)] =>
    match version.function? name with
    | some function => do ofCall function name (← parse version args)
    | none => (parse version args).map fun node => .map [(name, node)]
  | .object entries => (parseEntries version entries).map .map
  | .list items => (parseItems version items).map .list
  | scalar => .ok (.literal scalar)

def parseItems (version : Version) : List Json → Except TemplateError (List Node)
  | [] => .ok []
  | x :: rest => do
    let first ← parse version x
    let more ← parseItems version rest
    .ok (first :: more)

def parseEntries (version : Version) :
    List (String × Json) → Except TemplateError (List (String × Node))
  | [] => .ok []
  | (key, x) :: rest => do
    let first ← parse version x
    let more ← parseEntries version rest
    .ok ((key, first) :: more)

end

mutual

def isStatic : Node → Bool
  | .literal _ => true
  | .list items => areStatic items
  | .map entries => entriesStatic entries
  | .call .. => false

def areStatic : List Node → Bool
  | [] => true
  | x :: rest => isStatic x && areStatic rest

def entriesStatic : List (String × Node) → Bool
  | [] => true
  | (_, x) :: rest => isStatic x && entriesStatic rest

end

structure CallSummary where
  name : String
  function : Intrinsic
  memoized : Bool

mutual

def calls : Node → List CallSummary
  | .literal _ => []
  | .list items => callsOfItems items
  | .map entries => callsOfEntries entries
  | .call function name args memo => ⟨name, function, memo.isSome⟩ :: calls args

def callsOfItems : List Node → List CallSummary
  | [] => []
  | x :: rest => calls x ++ callsOfItems rest

def callsOfEntries : List (String × Node) → List CallSummary
  | [] => []
  | (_, x) :: rest => calls x ++ callsOfEntries rest

end

/-- Applies a step to the node at the end of a path of map keys, list positions, and `args` below a
call; the node is replaced by what the step leaves behind. -/
def stepAt {α : Type} (step : Node → Node × α) : List Json → Node → Option (Node × α)
  | [], node => some (step node)
  | .string key :: path, .map entries =>
    match Entries.get? entries key with
    | none => none
    | some node =>
      (stepAt step path node).map fun (node, answer) =>
        (.map (Entries.put entries key node), answer)
  | .number (.integer i) :: path, .list items =>
    if i < 0 then none
    else
      match items[i.toNat]? with
      | none => none
      | some node =>
        (stepAt step path node).map fun (node, answer) =>
          (.list (items.set i.toNat node), answer)
  | .string "args" :: path, .call function name args memo =>
    (stepAt step path args).map fun (args, answer) => (.call function name args memo, answer)
  | _, _ => none

end Node

end Orchestration
