import Mathlib.Data.List.Basic
import Orchestration.Proofs.Results
import Orchestration.Template.Resolve

/-!
# Faults of values

What a function finds wrong with the values of its operands is never a fault in the shape of its
arguments: those are told from the tree.
-/

set_option autoImplicit false

namespace Orchestration

abbrev Fault.OfValues (fault : Fault) : Prop :=
  fault.isShape = false

/-- The error is a fault in the shape of arguments.  Splitting a text has one fault for its
arguments and for their values. -/
def TemplateError.OfShape : TemplateError → Prop
  | .invalid _ fault => fault.isShape = true ∨ fault = .splitUsage
  | _ => False

def TemplateError.OfValues : TemplateError → Prop
  | .invalid _ fault => fault.OfValues
  | _ => True

namespace Functions

theorem joinedItems_fails (values : List Json) : FailsWith Fault.OfValues (joinedItems values) := by
  induction values with
  | nil => exact failsWith_ok _
  | cons value rest ih =>
    cases value with
    | null => exact ih
    | list items => exact ih.map _
    | _ => exact (failsWith_error_iff _).mpr rfl

theorem plainItem_fails (value : Json) : FailsWith Fault.OfValues (plainItem value) := by
  cases value <;> simp [plainItem, Fault.OfValues, Fault.isShape]

theorem join_fails (rendering : Bool) (delimiter : String) (lists : List Json) :
    FailsWith Fault.OfValues (join rendering delimiter lists) := by
  refine (joinedItems_fails lists).bind fun items _ => ?_
  cases rendering with
  | true => exact failsWith_ok _
  | false =>
    exact (FailsWith.mapM items fun value _ => plainItem_fails value).bind fun _ _ => failsWith_ok _

theorem placeholderText_fails (rendering : Bool) (value : Json) :
    FailsWith Fault.OfValues (placeholderText rendering value) := by
  unfold placeholderText
  split
  · exact failsWith_ok _
  · cases rendering <;> simp [Fault.OfValues, Fault.isShape]

theorem placeholders_fails (rendering : Bool) (params : Object) (keys : List String) :
    FailsWith Fault.OfValues (placeholders rendering params keys) := by
  induction keys with
  | nil => exact failsWith_ok _
  | cons key rest ih =>
    rw [placeholders]
    split
    · exact (failsWith_error_iff _).mpr rfl
    · exact (placeholderText_fails ..).bind fun text _ => ih.bind fun more _ => failsWith_ok _

theorem replace_fails (rendering : Bool) (template : String) (params : Object) :
    FailsWith Fault.OfValues (replace rendering template params) :=
  (placeholders_fails ..).bind fun _ _ => failsWith_ok _

theorem repeatItems_fails (takesMaps : Bool) (value : Json) :
    FailsWith Fault.OfValues (repeatItems takesMaps value) := by
  cases value with
  | object entries => cases takesMaps <;> simp [repeatItems, Fault.OfValues, Fault.isShape]
  | _ => simp [repeatItems, Fault.OfValues, Fault.isShape]

theorem repeatLists_fails (takesMaps : Bool) (forEach : Object) :
    FailsWith Fault.OfValues (repeatLists takesMaps forEach) :=
  .mapM forEach fun entry _ => repeatItems_fails takesMaps entry.2

theorem repeatTemplate_fails (takesMaps : Bool) (forEach : Object) (template : Json) :
    FailsWith Fault.OfValues (repeatTemplate takesMaps forEach template) :=
  (repeatLists_fails ..).bind fun _ _ => failsWith_ok _

theorem digestArguments_fails (allowed : List String) (args : Json) :
    FailsWith Fault.OfValues (digestArguments allowed args) := by
  unfold digestArguments
  split
  · exact (failsWith_error_iff _).mpr rfl
  · dsimp only
    split
    · exact failsWith_ok _
    · exact (failsWith_error_iff _).mpr rfl
  · exact (failsWith_error_iff _).mpr rfl

theorem digest_fails (allowed : List String) (args : Json) :
    FailsWith Fault.OfValues (digest allowed args) := by
  refine (digestArguments_fails ..).bind fun (algorithm, value) _ => ?_
  dsimp only
  split
  · exact failsWith_ok _
  · exact (failsWith_error_iff _).mpr rfl

theorem pieceAt_fails (parts : List String) (index : Int) :
    FailsWith Fault.OfValues (pieceAt parts index) := by
  unfold pieceAt
  dsimp only
  split
  · exact failsWith_ok _
  · exact (failsWith_error_iff _).mpr rfl

theorem strSplit_fails (args : Json) : FailsWith Fault.OfValues (strSplit args) := by
  unfold strSplit
  simp only [bind, Except.bind]
  repeat' split
  all_goals first
    | exact failsWith_ok _
    | exact pieceAt_fails ..
    | exact (failsWith_error_iff _).mpr rfl

theorem mergeOnto_fails (merged : Object) (values : List Json) :
    FailsWith Fault.OfValues (mergeOnto merged values) := by
  induction values generalizing merged with
  | nil => exact failsWith_ok _
  | cons value rest ih =>
    cases value with
    | null => exact ih merged
    | object entries => exact ih _
    | _ => exact (failsWith_error_iff _).mpr rfl

theorem mapMerge_fails (args : Json) : FailsWith Fault.OfValues (mapMerge args) := by
  cases args with
  | list items => exact (mergeOnto_fails [] items).map _
  | _ => exact (failsWith_error_iff _).mpr rfl

theorem mapOrNull_fails (value : Json) : FailsWith Fault.OfValues (mapOrNull value) := by
  cases value <;> simp [mapOrNull, Fault.OfValues, Fault.isShape]

theorem renamedKey_fails (newKeys input done : Object) (key : String) :
    FailsWith Fault.OfValues (renamedKey newKeys input done key) := by
  unfold renamedKey
  split
  · exact failsWith_ok _
  · exact failsWith_ok _
  · split
    · exact (failsWith_error_iff _).mpr rfl
    · split
      · exact (failsWith_error_iff _).mpr rfl
      · exact failsWith_ok _
  · exact (failsWith_error_iff _).mpr rfl

theorem renameEntries_fails (newKeys newValues input done entries : Object) :
    FailsWith Fault.OfValues (renameEntries newKeys newValues input done entries) := by
  induction entries generalizing done with
  | nil => exact failsWith_ok _
  | cons entry rest ih =>
    obtain ⟨key, value⟩ := entry
    exact (renamedKey_fails ..).bind fun renamed _ => ih _

theorem mapReplace_fails (args : Json) : FailsWith Fault.OfValues (mapReplace args) := by
  unfold mapReplace
  split
  · refine (mapOrNull_fails _).bind fun input _ => (mapOrNull_fails _).bind fun replacements _ => ?_
    split
    · exact (failsWith_error_iff _).mpr rfl
    · refine (mapOrNull_fails _).bind fun newKeys _ =>
        (mapOrNull_fails _).bind fun newValues _ => ?_
      exact (renameEntries_fails ..).map _
  · exact (failsWith_error_iff _).mpr rfl

end Functions

namespace Scope

variable (scope : Scope) (name : String)

theorem resource?_fails (value : Json) :
    FailsWith TemplateError.OfValues (scope.resource? name value) := by
  unfold resource?
  split
  · split
    · exact failsWith_ok _
    · exact (failsWith_error_iff _).mpr trivial
  · exact (failsWith_error_iff _).mpr rfl

theorem listsOf_fails (takesMaps : Bool) (entries : Object) :
    FailsWith TemplateError.OfValues (match Functions.repeatLists takesMaps entries with
      | .ok _ => .ok ()
      | .error fault => .error (.invalid name fault)) := by
  have lists := Functions.repeatLists_fails takesMaps entries
  split
  · exact failsWith_ok _
  · rename_i fault failed
    exact (failsWith_error_iff _).mpr (lists.of_error fault failed)

theorem accept_fails (function : Intrinsic) (position : Nat) (value : Json) :
    FailsWith TemplateError.OfValues (scope.accept function name position value) := by
  have resource := scope.resource?_fails name value
  unfold accept
  split
  all_goals first
    | exact failsWith_ok _
    | exact resource.map _
    | exact listsOf_fails ..
    | exact (failsWith_error_iff _).mpr rfl

theorem immediate_fails (result : Except Fault Json) (fails : FailsWith Fault.OfValues result) :
    FailsWith TemplateError.OfValues (immediate name result) := by
  cases result with
  | ok value => exact failsWith_ok _
  | error fault => exact (failsWith_error_iff _).mpr (fails.of_error fault rfl)

theorem parameter_fails (args : Json) :
    FailsWith TemplateError.OfValues (scope.parameter name args) := by
  unfold parameter
  simp only [bind, Except.bind]
  repeat' split
  all_goals first
    | exact failsWith_ok _
    | exact (failsWith_error_iff _).mpr rfl
    | exact (failsWith_error_iff _).mpr trivial

theorem file_fails (args : Json) : FailsWith TemplateError.OfValues (scope.file name args) := by
  unfold file
  split
  · split
    · exact failsWith_ok _
    · exact (failsWith_error_iff _).mpr trivial
  · exact (failsWith_error_iff _).mpr rfl

theorem facadePart_fails (part : String) (known : part ∈ Node.facadeParts) :
    FailsWith (fun e => e = .noFacade name ∧ scope.stack.facade = none)
      (scope.facadePart name (.string part)) := by
  unfold facadePart
  split
  · rename_i missing
    exact (failsWith_error_iff _).mpr ⟨rfl, missing⟩
  · simp only [Node.facadeParts, List.mem_cons, List.not_mem_nil, or_false] at known
    rcases known with rfl | rfl | rfl <;> exact failsWith_ok _

end Scope

namespace Intrinsic

def Takes (function : Intrinsic) (count : Nat) : Prop :=
  match function.operands with
  | .none => count = 0
  | .whole => count = 1
  | .items => if function = .equals then count = 2 else 0 < count
  | .fields .. => count = 2

end Intrinsic

namespace Scope

variable (scope : Scope) (name : String)

theorem finish_fails (function : Intrinsic) (apart : function ≠ .resourceFacade)
    (values : List Json) (enough : function.Takes values.length)
    (accepted : ∀ i value, values[i]? = some value → scope.accept function name i value = .ok ()) :
    FailsWith TemplateError.OfValues (scope.finish function name values) := by
  have one : values.length = 1 → ∃ value, values = [value] := List.length_eq_one_iff.mp
  have two : values.length = 2 → ∃ first second, values = [first, second] :=
    List.length_eq_two.mp
  have some : 0 < values.length → ∃ first rest, values = first :: rest := fun more =>
    List.exists_cons_of_length_pos more
  cases function with
  | getParam =>
    obtain ⟨value, rfl⟩ := one enough
    exact (scope.parameter_fails name value).map _
  | getResource =>
    obtain ⟨value, rfl⟩ := one enough
    exact (scope.resource?_fails name value).map _
  | getAttr | getAttrAll =>
    obtain ⟨first, rest, rfl⟩ := some enough
    exact (scope.resource?_fails name first).map _
  | join | joinMultiple =>
    obtain ⟨first, rest, rfl⟩ := some enough
    have text := accepted 0 first rfl
    cases first with
    | string delimiter => exact immediate_fails name _ (Functions.join_fails ..)
    | _ => cases text
  | replace | replaceJson =>
    obtain ⟨template, params, rfl⟩ := two enough
    have text := accepted 0 template rfl
    have map := accepted 1 params rfl
    cases template with
    | string template =>
      cases params with
      | object params => exact immediate_fails name _ (Functions.replace_fails ..)
      | _ => cases map
    | _ => cases text
  | repeatList | repeatWithMap =>
    obtain ⟨forEach, template, rfl⟩ := two enough
    have map := accepted 0 forEach rfl
    cases forEach with
    | object entries => exact immediate_fails name _ (Functions.repeatTemplate_fails ..)
    | _ => cases map
  | getFile =>
    obtain ⟨value, rfl⟩ := one enough
    exact (scope.file_fails name value).map _
  | digest =>
    obtain ⟨value, rfl⟩ := one enough
    exact immediate_fails name _ (Functions.digest_fails ..)
  | strSplit =>
    obtain ⟨value, rfl⟩ := one enough
    exact immediate_fails name _ (Functions.strSplit_fails value)
  | mapMerge =>
    obtain ⟨value, rfl⟩ := one enough
    exact immediate_fails name _ (Functions.mapMerge_fails value)
  | mapReplace =>
    obtain ⟨value, rfl⟩ := one enough
    exact immediate_fails name _ (Functions.mapReplace_fails value)
  | equals =>
    obtain ⟨left, right, rfl⟩ := two enough
    exact failsWith_ok _
  | resourceFacade => exact absurd rfl apart
  | removed => exact (failsWith_error_iff _).mpr trivial

end Scope

end Orchestration
