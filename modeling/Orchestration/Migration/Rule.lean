import Orchestration.Json.Basic
import Orchestration.Template.Error

/-! # Migration rules

Rules that bring the properties of a resource from deprecated spellings to current ones, and what
can go wrong with them.
-/

set_option autoImplicit false

namespace Orchestration.Migration

inductive RuleKind where
  | add
  | replace
  | delete
  | resolve
  deriving DecidableEq

structure Finder where
  method : String
  entity : Option String

/-- A rule with its target path and its sources: a literal value, the name of a sibling of the
target, or a path from the root of the properties. -/
structure Rule where
  kind : RuleKind
  path : List String
  value : Option Json
  valueName : Option String
  valuePath : Option (List String)
  finder : Option Finder

inductive RuleFault where
  | emptyPath
  | emptyValuePath
  | valueNameNotAllowed
  | addSources
  | addNotList
  | replaceSources
  | finderMissing
  deriving DecidableEq

def RuleFault.message : RuleFault → String
  | .emptyPath => "path must be a non-empty list of keys"
  | .emptyValuePath => "value_path must be a non-empty list of keys"
  | .valueNameNotAllowed => "use value_name only for add and replace rules"
  | .addSources => "exactly one of value, value_name or value_path is required for an add rule"
  | .addNotList => "value must be a list for an add rule"
  | .replaceSources => "either value, value_name or value_path is required for a replace rule"
  | .finderMissing => "a client plugin and finder are required for a resolve rule"

inductive Error where
  | invalidRule (fault : RuleFault)
  | conflict (key name : String)
  | sourceInsideList
  | notAList (key : String)
  | finder (method value problem : String)
  | template (error : TemplateError)
  deriving DecidableEq

def Error.message : Error → String
  | .invalidRule fault => "invalid translation rule: " ++ fault.message
  | .conflict key name =>
    "cannot define the following properties at the same time: " ++ key ++ ", " ++ name
  | .sourceInsideList => "cannot use value_path for properties inside list-type properties"
  | .notAList key => "add rule must be used only for lists, " ++ key ++ " is not a list"
  | .finder method value problem =>
    "finder " ++ method ++ " could not resolve " ++ value ++ ": " ++ problem
  | .template error => error.message

namespace Rule

def fault? (rule : Rule) : Option RuleFault :=
  if rule.path.isEmpty then some .emptyPath
  else if rule.valuePath = some [] then some .emptyValuePath
  else if rule.valueName.isSome && rule.kind != .add && rule.kind != .replace then
    some .valueNameNotAllowed
  else
    match rule.kind with
    | .add =>
      if (rule.value.isSome || rule.valuePath.isSome) == rule.valueName.isSome then some .addSources
      else
        match rule.value with
        | none | some (.list _) => none
        | some _ => some .addNotList
    | .replace =>
      if rule.value.isNone && rule.valueName.isNone && rule.valuePath.isNone then
        some .replaceSources
      else none
    | .resolve => if rule.finder.isNone then some .finderMissing else none
    | .delete => none

def Valid (rule : Rule) : Prop :=
  rule.fault? = none

def validate (rule : Rule) : Except Error Unit :=
  match rule.fault? with
  | some fault => .error (.invalidRule fault)
  | none => .ok ()

/-- A rule that leaves a target alone when a map on the way to it is missing. -/
def skipsMissing (rule : Rule) : Bool :=
  match rule.kind with
  | .delete | .resolve => true
  | .replace => rule.valueName.isSome
  | .add => false

end Rule

/-- A property counts as supplied: it is not null and not empty. -/
def isPopulated : Json → Bool
  | .null => false
  | .bool b => b
  | .number _ => true
  | .string s => !s.isEmpty
  | .list items => !items.isEmpty
  | .object entries => !entries.isEmpty

end Orchestration.Migration
