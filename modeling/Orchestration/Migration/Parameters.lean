import Orchestration.Migration.Rule
import Orchestration.Template.Resolve

/-! # Parameters in properties

A rule sees the structure that a parameter stands for: a reference to a parameter on the way of a
rule is replaced by its value.  A parameter that is not available yet stops the rule at that place.
-/

set_option autoImplicit false

namespace Orchestration.Migration

/-- What rules are applied with: the template policy, the stack, and the lookups of service
clients. -/
structure Context where
  template : Template
  stack : Stack
  find : Finder → String → Except Error String

namespace Context

def resolve (context : Context) (value : Json) : Except TemplateError Json := do
  let node ← Node.parse context.template.version value
  (node.resolve ⟨context.template.digests, context.stack⟩).value

def function? (context : Context) : Json → Option Intrinsic
  | .object [(name, _)] => context.template.version.function? name
  | _ => none

end Context

/-- An answer and the value that is left behind. -/
abbrev Change (τ α : Type) : Type := Except Error α × τ

def resolveReference (context : Context) (value : Json) : Change Json Bool :=
  match context.resolve value with
  | .ok resolved => (.ok true, resolved)
  | .error (.missingParameter _) => (.ok false, value)
  | .error e => (.error (.template e), value)

mutual

/-- Replaces a reference to a parameter by its value, also as an item of lists.  The answer is false
where the value must be left alone. -/
def resolveParameter (context : Context) : Json → Change Json Bool
  | .list items =>
    let (answer, items) := resolveItems context items
    (answer, .list items)
  | value =>
    match context.function? value with
    | some .removed => (.ok false, value)
    | some .getParam => resolveReference context value
    | _ => (.ok true, value)

def resolveItems (context : Context) : List Json → Change (List Json) Bool
  | [] => (.ok true, [])
  | x :: rest =>
    match resolveParameter context x with
    | (.ok true, x) =>
      let (answer, rest) := resolveItems context rest
      (answer, x :: rest)
    | (answer, x) => (answer, x :: rest)

end

def resolveSlot (context : Context) (data : Object) (key : String) : Change Object Bool :=
  match Entries.get? data key with
  | none => (.ok true, data)
  | some value =>
    let (answer, value) := resolveParameter context value
    (answer, Entries.put data key value)

end Orchestration.Migration
