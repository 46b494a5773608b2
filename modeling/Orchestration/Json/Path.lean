import Orchestration.Json.Basic
import Orchestration.Text.Blank
import Orchestration.Text.Integer

/-! # Paths into values

A path goes one map key or list position a step.
-/

set_option autoImplicit false

namespace Orchestration.Json

/-- The list position that a step names: a whole number, or its digits in a string. -/
def position? : Json → Option Nat
  | .number (.integer n) => if 0 ≤ n then some n.toNat else none
  | .string s => Text.unsigned? 18446744073709551616 (Text.trim s.toList)
  | _ => none

def step? (value key : Json) : Option Json :=
  match value with
  | .object entries => key.text?.bind (Entries.get? entries)
  | .list items => key.position?.bind fun i => items[i]?
  | _ => none

def at? (value : Json) : List Json → Option Json
  | [] => some value
  | key :: path => (step? value key).bind fun next => at? next path

@[simp] theorem at?_nil (value : Json) : at? value [] = some value := rfl

theorem at?_append (value : Json) (first second : List Json) :
    at? value (first ++ second) = (at? value first).bind fun next => at? next second := by
  induction first generalizing value with
  | nil => simp
  | cons key path ih =>
    simp only [List.cons_append, at?]
    cases step? value key with
    | none => rfl
    | some next => exact ih next

end Orchestration.Json
