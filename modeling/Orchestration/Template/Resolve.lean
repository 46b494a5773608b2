import Orchestration.Resource
import Orchestration.Template.Functions
import Orchestration.Template.Node

/-! # Resolving templates

Resolving a tree gives its value.  A call resolves its operands in a fixed order and checks each
before the next; then it computes its value from theirs.  An attribute that is not available yet has
the value null, and a value that depends on such an attribute is not remembered.
-/

set_option autoImplicit false

namespace Orchestration

structure Scope where
  digests : List String
  stack : Stack

/-- What an operation on a tree leaves behind: the tree with what it remembers, whether every
attribute was available, and the answer. -/
structure Step (τ α : Type) where
  tree : τ
  ready : Bool
  value : Except TemplateError α

namespace Step

variable {τ σ α : Type}

def onTree (f : τ → σ) (step : Step τ α) : Step σ α :=
  ⟨f step.tree, step.ready, step.value⟩

def onValue {β : Type} (f : α → β) (step : Step τ α) : Step τ β :=
  ⟨step.tree, step.ready, step.value.map f⟩

def andThen {β : Type} (step : Step τ α) (f : α → Except TemplateError (β × Bool)) : Step τ β :=
  match step.value with
  | .error e => ⟨step.tree, false, .error e⟩
  | .ok a =>
    match f a with
    | .error e => ⟨step.tree, false, .error e⟩
    | .ok (b, ready) => ⟨step.tree, step.ready && ready, .ok b⟩

end Step

namespace Intrinsic

/-- The parts of its arguments that a function resolves, in this order. -/
inductive Operands where
  | none
  | whole
  | items
  | fields (first second : String)

def operands : Intrinsic → Operands
  | .getAttr | .getAttrAll | .join | .joinMultiple | .equals => .items
  | .replace | .replaceJson => .fields "template" "params"
  | .repeatList | .repeatWithMap => .fields "for_each" "template"
  | .removed => .none
  | _ => .whole

def operandFault : Intrinsic → Fault
  | .getAttr | .getAttrAll => .attributeArgumentsNotList
  | .join | .joinMultiple => .joinUsage
  | .equals => .equalsUsage
  | _ => .argumentsNotMap

end Intrinsic

namespace Scope

def resource? (scope : Scope) (name : String) (value : Json) : Except TemplateError Resource :=
  match value with
  | .string resource =>
    match scope.stack.resource? resource with
    | some found => .ok found
    | none => .error (.unknownResource resource)
  | _ => .error (.invalid name .resourceNameNotText)

def accept (scope : Scope) (function : Intrinsic) (name : String) (position : Nat) (value : Json) :
    Except TemplateError Unit :=
  match function, position, value with
  | .getResource, _, value => (scope.resource? name value).map fun _ => ()
  | .getAttr, 0, value | .getAttrAll, 0, value => (scope.resource? name value).map fun _ => ()
  | .getAttr, 1, .string _ | .getAttrAll, 1, .string _ => .ok ()
  | .getAttr, 1, _ | .getAttrAll, 1, _ => .error (.invalid name .attributeNameNotText)
  | .join, 0, .string _ | .joinMultiple, 0, .string _ => .ok ()
  | .join, 0, _ | .joinMultiple, 0, _ => .error (.invalid name .delimiterNotText)
  | .join, _, .null | .joinMultiple, _, .null => .ok ()
  | .join, _, .list _ | .joinMultiple, _, .list _ => .ok ()
  | .join, _, _ | .joinMultiple, _, _ => .error (.invalid name .joinNotList)
  | .replace, 0, .string _ | .replaceJson, 0, .string _ => .ok ()
  | .replace, 0, _ | .replaceJson, 0, _ => .error (.invalid name .templateNotText)
  | .replace, _, .object _ | .replaceJson, _, .object _ => .ok ()
  | .replace, _, _ | .replaceJson, _, _ => .error (.invalid name .paramsNotMap)
  | .repeatList, 0, .object entries | .repeatWithMap, 0, .object entries =>
    match Functions.repeatLists (function == .repeatWithMap) entries with
    | .ok _ => .ok ()
    | .error fault => .error (.invalid name fault)
  | .repeatList, 0, _ | .repeatWithMap, 0, _ => .error (.invalid name .forEachNotMap)
  | _, _, _ => .ok ()

def immediate (name : String) (result : Except Fault Json) : Except TemplateError (Json × Bool) :=
  match result with
  | .ok value => .ok (value, true)
  | .error fault => .error (.invalid name fault)

/-- The value of a parameter, narrowed by a path; a path that leads nowhere gives an empty
string. -/
def parameter (scope : Scope) (name : String) (args : Json) : Except TemplateError Json := do
  let (parameter, path) ← match args with
    | .string parameter =>
      if parameter.isEmpty then .error (.invalid name .noArguments) else .ok (parameter, [])
    | .list (.string parameter :: path) => .ok (parameter, path)
    | .list (_ :: _) => .error (.invalid name .parameterNameNotText)
    | .null | .list [] => .error (.invalid name .noArguments)
    | _ => .error (.invalid name .notTextOrList)
  match scope.stack.parameter? parameter with
  | none => .error (.missingParameter parameter)
  | some value => .ok ((value.at? path).getD (.string ""))

def file (scope : Scope) (name : String) (args : Json) : Except TemplateError Json :=
  match args with
  | .string key =>
    match scope.stack.file? key with
    | some content => .ok (.string content)
    | none => .error (.missingFile name key)
  | _ => .error (.invalid name .argumentNotText)

/-- An attribute of a resource, or all of them; null and not ready when there is no value yet. -/
def attributeValue (resource : Resource) (rest : List Json) : Json × Bool :=
  if resource.readable then
    match rest with
    | .string attributeName :: path =>
      match resource.attribute? attributeName path with
      | some value => (value, true)
      | none => (.null, false)
    | _ => (.object resource.attributes, true)
  else (.null, false)

def facadePart (scope : Scope) (name : String) (args : Json) : Except TemplateError Json :=
  match scope.stack.facade with
  | none => .error (.noFacade name)
  | some facade =>
    match args with
    | .string "metadata" => .ok facade.metadata
    | .string "deletion_policy" => .ok facade.deletionPolicy
    | .string "update_policy" => .ok facade.updatePolicy
    | .string _ => .error (.invalid name .facadeAttribute)
    | _ => .error (.invalid name .argumentNotText)

/-- The value of a call from the values of its operands, and whether it is final. -/
def finish (scope : Scope) (function : Intrinsic) (name : String) (values : List Json) :
    Except TemplateError (Json × Bool) :=
  match function, values with
  | .getParam, [args] => (scope.parameter name args).map fun value => (value, true)
  | .getResource, [args] =>
    (scope.resource? name args).map fun resource =>
      (.string resource.referenceId, resource.readable)
  | .getAttr, resource :: rest | .getAttrAll, resource :: rest =>
    (scope.resource? name resource).map fun resource => attributeValue resource rest
  | .join, .string delimiter :: lists => immediate name (Functions.join false delimiter lists)
  | .joinMultiple, .string delimiter :: lists =>
    immediate name (Functions.join true delimiter lists)
  | .replace, [.string template, .object params] =>
    immediate name (Functions.replace false template params)
  | .replaceJson, [.string template, .object params] =>
    immediate name (Functions.replace true template params)
  | .getFile, [args] => (scope.file name args).map fun value => (value, true)
  | .repeatList, [.object forEach, template] =>
    immediate name (Functions.repeatTemplate false forEach template)
  | .repeatWithMap, [.object forEach, template] =>
    immediate name (Functions.repeatTemplate true forEach template)
  | .digest, [args] => immediate name (Functions.digest scope.digests args)
  | .strSplit, [args] => immediate name (Functions.strSplit args)
  | .mapMerge, [args] => immediate name (Functions.mapMerge args)
  | .mapReplace, [args] => immediate name (Functions.mapReplace args)
  | .equals, [left, right] => .ok (.bool (left.same right), true)
  | .resourceFacade, [args] => (scope.facadePart name args).map fun value => (value, true)
  | .removed, _ => .error (.removed name)
  | _, _ => .error (.invalid name function.operandFault)

end Scope

namespace Node

def itemCount : Node → Nat
  | .list items => items.length
  | _ => 0

abbrev Check : Type := Nat → Json → Except TemplateError Unit

/-- Two operands, of which the second counts only when the first passes its check. -/
def bothFields (check : Check) (first second : String) (entries : List (String × Node))
    (a b : Step Node Json) : Step Node (List Json) :=
  let entries := Entries.put entries first a.tree
  match a.value.bind fun value => (check 0 value).map fun _ => value with
  | .error e => ⟨.map entries, false, .error e⟩
  | .ok left =>
    let entries := Entries.put entries second b.tree
    match b.value.bind fun value => (check 1 value).map fun _ => value with
    | .error e => ⟨.map entries, false, .error e⟩
    | .ok right => ⟨.map entries, a.ready && b.ready, .ok [left, right]⟩

def remember (function : Intrinsic) (name : String) (step : Step Node Json) : Step Node Json :=
  match step.value with
  | .ok value =>
    if step.ready then ⟨.call function name step.tree (some value), true, .ok value⟩
    else ⟨.call function name step.tree none, false, .ok value⟩
  | .error e => ⟨.call function name step.tree none, false, .error e⟩

mutual

def resolve (scope : Scope) : Node → Step Node Json
  | .literal value => ⟨.literal value, true, .ok value⟩
  | .list items =>
    ((resolveFirst scope (fun _ _ => .ok ()) 0 items.length items).onTree .list).onValue .list
  | .map entries => ((resolveEntries scope entries).onTree .map).onValue .object
  | .call function name args (some value) =>
    ⟨.call function name args (some value), true, .ok value⟩
  | .call function name args none =>
    let operands : Step Node (List Json) := match function.operands with
      | .none => ⟨args, true, .ok []⟩
      | .whole => (resolve scope args).andThen fun value =>
          (scope.accept function name 0 value).map fun _ => ([value], true)
      | .items => resolveItems scope (scope.accept function name)
          (.invalid name function.operandFault) (itemCount args) args
      | .fields first second => resolveFields scope (scope.accept function name)
          (.invalid name function.operandFault) first second args
    remember function name (operands.andThen (scope.finish function name))

def resolveFirst (scope : Scope) (check : Check) :
    Nat → Nat → List Node → Step (List Node) (List Json)
  | _, _, [] => ⟨[], true, .ok []⟩
  | _, 0, items => ⟨items, true, .ok []⟩
  | position, count + 1, x :: rest =>
    let first := resolve scope x
    match first.value.bind fun value => (check position value).map fun _ => value with
    | .error e => ⟨first.tree :: rest, false, .error e⟩
    | .ok value =>
      let more := resolveFirst scope check (position + 1) count rest
      ⟨first.tree :: more.tree, first.ready && more.ready, more.value.map (value :: ·)⟩

def resolveEntries (scope : Scope) :
    List (String × Node) → Step (List (String × Node)) (List (String × Json))
  | [] => ⟨[], true, .ok []⟩
  | (key, x) :: rest =>
    let first := resolve scope x
    match first.value with
    | .error e => ⟨(key, first.tree) :: rest, false, .error e⟩
    | .ok value =>
      let more := resolveEntries scope rest
      ⟨(key, first.tree) :: more.tree, first.ready && more.ready,
        more.value.map ((key, value) :: ·)⟩

def resolveEntry (scope : Scope) (key : String) : List (String × Node) → Option (Step Node Json)
  | [] => none
  | (k, x) :: rest => if k = key then some (resolve scope x) else resolveEntry scope key rest

def resolveItems (scope : Scope) (check : Check) (fault : TemplateError) (count : Nat) :
    Node → Step Node (List Json)
  | .list items => (resolveFirst scope check 0 count items).onTree .list
  | other => ⟨other, false, .error fault⟩

def resolveFields (scope : Scope) (check : Check) (fault : TemplateError) (first second : String) :
    Node → Step Node (List Json)
  | .map entries =>
    match resolveEntry scope first entries, resolveEntry scope second entries with
    | some a, some b => bothFields check first second entries a b
    | _, _ => ⟨.map entries, false, .error fault⟩
  | other => ⟨other, false, .error fault⟩

end

end Node

end Orchestration
