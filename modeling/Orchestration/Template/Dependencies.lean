import Orchestration.Template.Resolve

/-! # Validation and dependencies

Operations that visit every call of a tree, the calls in its arguments first.  Visiting a call may
resolve some of its operands, and what they remember stays in the tree; the call itself remembers
nothing.
-/

set_option autoImplicit false

namespace Orchestration

structure AttributeDependency where
  resource : String
  attributeName : String
  path : List Json

namespace AttributeDependency

def same (a b : AttributeDependency) : Bool :=
  a.resource == b.resource && a.attributeName == b.attributeName && Json.sameItems a.path b.path

end AttributeDependency

def firstSeen {α : Type} (same : α → α → Bool) (items : List α) : List α :=
  items.foldl (fun seen x => if seen.any (same · x) then seen else seen ++ [x]) []

namespace Node

/-- The tree after a visit, and what was found or what went wrong. -/
abbrev Visit (τ α : Type) : Type := τ × Except TemplateError (List α)

mutual

/-- Visits every call after the calls in its arguments and collects what they give.  The visitor
sees a call's arguments as they are by then. -/
def walk {α : Type} (visit : Intrinsic → String → Node → Visit Node α) : Node → Visit Node α
  | .literal value => (.literal value, .ok [])
  | .list items =>
    let (items, found) := walkItems visit items
    (.list items, found)
  | .map entries =>
    let (entries, found) := walkEntries visit entries
    (.map entries, found)
  | .call function name args memo =>
    match walk visit args with
    | (args, .error e) => (.call function name args memo, .error e)
    | (args, .ok found) =>
      let (args, more) := visit function name args
      (.call function name args memo, more.map (found ++ ·))

def walkItems {α : Type} (visit : Intrinsic → String → Node → Visit Node α) :
    List Node → Visit (List Node) α
  | [] => ([], .ok [])
  | x :: rest =>
    match walk visit x with
    | (x, .error e) => (x :: rest, .error e)
    | (x, .ok found) =>
      let (rest, more) := walkItems visit rest
      (x :: rest, more.map (found ++ ·))

def walkEntries {α : Type} (visit : Intrinsic → String → Node → Visit Node α) :
    List (String × Node) → Visit (List (String × Node)) α
  | [] => ([], .ok [])
  | (key, x) :: rest =>
    match walk visit x with
    | (x, .error e) => ((key, x) :: rest, .error e)
    | (x, .ok found) =>
      let (rest, more) := walkEntries visit rest
      ((key, x) :: rest, more.map (found ++ ·))

end

def reference (scope : Scope) (function : Intrinsic) (name : String) (count : Nat) (args : Node) :
    Step Node (List Json) :=
  match function.operands with
  | .items =>
    resolveItems scope (scope.accept function name) (.invalid name function.operandFault) count args
  | _ =>
    (resolve scope args).andThen fun value =>
      (scope.accept function name 0 value).map fun _ => ([value], true)

def validateCall (scope : Scope) (function : Intrinsic) (name : String) (args : Node) :
    Visit Node Unit :=
  match function with
  | .getResource =>
    let step := reference scope function name 1 args
    (step.tree, step.value.map fun _ => [])
  | .getAttr | .getAttrAll =>
    let step := reference scope function name 2 args
    (step.tree, step.value.bind fun values =>
      match values with
      | resource :: .string attributeName :: _ => do
        let resource ← scope.resource? name resource
        if attributeName ∈ resource.attributeNames then .ok []
        else .error (.unknownAttribute resource.name attributeName)
      | _ => .ok [])
  | .getFile =>
    if args.isStatic then
      let step := resolve scope args
      (step.tree, step.value.bind fun value => (scope.file name value).map fun _ => [])
    else (args, .ok [])
  | .repeatList | .repeatWithMap =>
    match args with
    | .map entries =>
      match Entries.get? entries "for_each" with
      | some (.map _) | some (.call ..) => (args, .ok [])
      | _ => (args, .error (.invalid name .forEachNotMap))
    | _ => (args, .error (.invalid name .argumentsNotMap))
  | .digest =>
    if args.isStatic then
      let step := resolve scope args
      (step.tree, step.value.bind fun value =>
        match Functions.digestArguments scope.digests value with
        | .ok _ => .ok []
        | .error fault => .error (.invalid name fault))
    else (args, .ok [])
  | .removed => (args, .error (.removed name))
  | _ => (args, .ok [])

def resourceOfCall (scope : Scope) (function : Intrinsic) (name : String) (args : Node) :
    Visit Node String :=
  match function with
  | .getResource | .getAttr | .getAttrAll =>
    let step := reference scope function name 1 args
    (step.tree, step.value.bind fun values =>
      match values with
      | resource :: _ => (scope.resource? name resource).map fun resource => [resource.name]
      | [] => .ok [])
  | _ => (args, .ok [])

/-- The attributes that a call reads; all declared ones where it names none. -/
def attributesOfCall (scope : Scope) (function : Intrinsic) (name : String) (args : Node) :
    Visit Node AttributeDependency :=
  match function with
  | .getAttr | .getAttrAll =>
    let step := reference scope function name (itemCount args) args
    (step.tree, step.value.bind fun values =>
      match values with
      | [resource] => (scope.resource? name resource).map fun resource =>
          resource.attributeNames.map fun attributeName => ⟨resource.name, attributeName, []⟩
      | resource :: .string attributeName :: path =>
        (scope.resource? name resource).map fun resource =>
          [⟨resource.name, attributeName, path⟩]
      | _ => .ok [])
  | _ => (args, .ok [])

def validate (scope : Scope) (node : Node) : Node × Except TemplateError Unit :=
  let (node, found) := walk (validateCall scope) node
  (node, found.map fun _ => ())

def dependencies (scope : Scope) (node : Node) : Visit Node String :=
  let (node, found) := walk (resourceOfCall scope) node
  (node, found.map (firstSeen (· == ·)))

def attributeDependencies (scope : Scope) (node : Node) : Visit Node AttributeDependency :=
  let (node, found) := walk (attributesOfCall scope) node
  (node, found.map (firstSeen AttributeDependency.same))

def attributeDependenciesOn (scope : Scope) (resource : String) (node : Node) :
    Visit Node AttributeDependency :=
  let (node, found) := node.attributeDependencies scope
  (node, found.map fun all => all.filter fun dependency => dependency.resource == resource)

end Node

end Orchestration
