import Orchestration.Proofs.Template.Calls
import Orchestration.Proofs.Template.Faults
import Orchestration.Proofs.Template.Validation

/-!
# Shapes of arguments

Reading a template refuses arguments that a function cannot take apart.  What is left comes apart
wherever a tree is resolved, validated or asked for its dependencies, whatever it remembers: the
faults that an operation finds later are all faults of values.
-/

set_option autoImplicit false

namespace Orchestration.Node

/-! ## Arguments that come apart -/

def MayBeMap : Node → Prop
  | .map _ | .call .. => True
  | .literal _ | .list _ => False

/-- The arguments come apart the way the function takes them. -/
def Splits (function : Intrinsic) (args : Node) : Prop :=
  match function with
  | .getAttr => ∃ resource member path, args = .list (resource :: member :: path)
  | .getAttrAll => ∃ resource path, args = .list (resource :: path)
  | .join => ∃ delimiter items, args = .list [delimiter, items]
  | .joinMultiple => ∃ delimiter items more, args = .list (delimiter :: items :: more)
  | .replace | .replaceJson => ∃ entries params template, args = .map entries ∧
      Entries.get? entries "params" = some params ∧ params.MayBeMap ∧
      Entries.get? entries "template" = some template
  | .repeatList | .repeatWithMap => ∃ entries forEach template, args = .map entries ∧
      Entries.get? entries "for_each" = some forEach ∧
      Entries.get? entries "template" = some template
  | .strSplit => (∀ text, args ≠ .literal (.string text)) ∧ ∀ entries, args ≠ .map entries
  | .equals => ∃ left right, args = .list [left, right]
  | .resourceFacade => ∃ part ∈ facadeParts, args = .literal (.string part)
  | _ => True

theorem splits_of_shape (function : Intrinsic) (args : Node)
    (shape : shapeFault? function args = none) : Splits function args := by
  cases function with
  | getAttr =>
    match args, shape with
    | .list (resource :: member :: path), _ => exact ⟨resource, member, path, rfl⟩
  | getAttrAll =>
    match args, shape with
    | .list (resource :: path), _ => exact ⟨resource, path, rfl⟩
  | join =>
    match args, shape with
    | .list [delimiter, items], _ => exact ⟨delimiter, items, rfl⟩
  | joinMultiple =>
    match args, shape with
    | .list (delimiter :: items :: more), _ => exact ⟨delimiter, items, more, rfl⟩
  | equals =>
    match args, shape with
    | .list [left, right], _ => exact ⟨left, right, rfl⟩
  | replace | replaceJson =>
    cases args with
    | map entries =>
      simp only [shapeFault?] at shape
      split at shape
      · rename_i params template first second
        exact ⟨entries, _, _, rfl, first, trivial, second⟩
      · rename_i params template first second
        exact ⟨entries, _, _, rfl, first, trivial, second⟩
      · cases shape
      · cases shape
    | _ => cases shape
  | repeatList | repeatWithMap =>
    cases args with
    | map entries =>
      simp only [shapeFault?] at shape
      split at shape
      · rename_i first second
        exact ⟨entries, _, _, rfl, first, second⟩
      · cases shape
    | _ => cases shape
  | strSplit =>
    constructor
    · rintro text rfl
      cases shape
    · rintro entries rfl
      cases shape
  | resourceFacade =>
    cases args with
    | literal value =>
      cases value with
      | string part =>
        rw [shapeFault?] at shape
        split at shape
        · rename_i known
          exact ⟨part, known, rfl⟩
        · cases shape
      | _ => cases shape
    | _ => cases shape
  | _ => trivial

theorem shapeFault?_forget (function : Intrinsic) (args : Node) :
    shapeFault? function args.forget = shapeFault? function args := by
  cases args with
  | literal value => rw [forget_literal]
  | call => cases function <;> simp [shapeFault?]
  | list items =>
    rw [forget_list]
    rcases items with _ | ⟨x, _ | ⟨y, _ | ⟨z, rest⟩⟩⟩ <;> cases function <;> rfl
  | map entries =>
    cases function with
    | replace | replaceJson =>
      simp only [forget_map, shapeFault?, Entries.get?_mapValues]
      cases Entries.get? entries "params" with
      | none => rfl
      | some params =>
        cases Entries.get? entries "template" <;> cases params <;> simp
    | repeatList | repeatWithMap =>
      simp only [forget_map, shapeFault?, Entries.get?_mapValues]
      cases Entries.get? entries "for_each" <;> cases Entries.get? entries "template" <;> rfl
    | _ => simp [shapeFault?]

theorem operands_of_splits (function : Intrinsic) (args : Node) (splits : Splits function args) :
    ∃ nodes, operands? function args = some nodes ∧ function.Takes nodes.length := by
  cases function with
  | getAttr =>
    obtain ⟨resource, member, path, rfl⟩ := splits
    exact ⟨_, rfl, Nat.zero_lt_succ _⟩
  | getAttrAll =>
    obtain ⟨resource, path, rfl⟩ := splits
    exact ⟨_, rfl, Nat.zero_lt_succ _⟩
  | join =>
    obtain ⟨delimiter, items, rfl⟩ := splits
    exact ⟨_, rfl, Nat.zero_lt_succ _⟩
  | joinMultiple =>
    obtain ⟨delimiter, items, more, rfl⟩ := splits
    exact ⟨_, rfl, Nat.zero_lt_succ _⟩
  | replace | replaceJson =>
    obtain ⟨entries, params, template, rfl, first, _, second⟩ := splits
    exact ⟨[template, params], by simp [operands?, Intrinsic.operands, first, second], rfl⟩
  | repeatList | repeatWithMap =>
    obtain ⟨entries, forEach, template, rfl, first, second⟩ := splits
    exact ⟨[forEach, template], by simp [operands?, Intrinsic.operands, first, second], rfl⟩
  | equals =>
    obtain ⟨left, right, rfl⟩ := splits
    exact ⟨_, rfl, rfl⟩
  | removed => exact ⟨[], rfl, rfl⟩
  | _ => exact ⟨[args], rfl, rfl⟩

/-- The arguments of every call in the tree come apart. -/
def Shaped (node : Node) : Prop :=
  ∀ function name args memo, (Node.call function name args memo).Within node →
    Splits function args

theorem Shaped.of_within {node x : Node} (shaped : node.Shaped) (within : x.Within node) :
    x.Shaped := by
  induction within with
  | self => exact shaped
  | part inner node member deeper ih =>
    exact ih fun function name args memo below =>
      shaped function name args memo (.part inner node member below)

theorem Shaped.of_mem {node x : Node} (shaped : node.Shaped) (member : x ∈ node.parts) :
    x.Shaped :=
  shaped.of_within (.part x node member .self)

theorem Shaped.of_mem_args {function : Intrinsic} {name : String} {args : Node}
    {memo : Option Json} (shaped : (Node.call function name args memo).Shaped) {x : Node}
    (member : x ∈ args :: args.parts) : x.Shaped := by
  have below : args.Shaped := shaped.of_mem (List.mem_singleton.mpr rfl)
  rcases List.mem_cons.mp member with rfl | deeper
  · exact below
  · exact below.of_mem deeper

theorem shaped_of_parse (version : Version) (raw : Json) (parsed : Node)
    (read : parse version raw = .ok parsed) (node : Node) (same : node.forget = parsed) :
    node.Shaped := by
  intro function name args memo within
  have below := within_forget _ node within
  rw [forget_call, same] at below
  apply splits_of_shape
  rw [← shapeFault?_forget]
  exact shape_of_parse version raw parsed read function name args.forget none below

/-! ## Reading -/

theorem ofShape_of_shapeFault (function : Intrinsic) (args : Node) (fault : Fault)
    (found : shapeFault? function args = some fault) :
    fault.isShape = true ∨ fault = .splitUsage := by
  unfold shapeFault? at found
  repeat' split at found
  all_goals first
    | exact .inl (Option.some.inj found ▸ rfl)
    | exact .inr (Option.some.inj found).symm
    | cases found

theorem ofCall_fails (function : Intrinsic) (name : String) (args : Node) :
    FailsWith TemplateError.OfShape (ofCall function name args) := by
  unfold ofCall
  split
  · rename_i fault found
    exact (failsWith_error_iff _).mpr (ofShape_of_shapeFault function args fault found)
  · exact failsWith_ok _

theorem parseItems_fails (version : Version) (items : List Json)
    (each : ∀ x ∈ items, FailsWith TemplateError.OfShape (parse version x)) :
    FailsWith TemplateError.OfShape (parseItems version items) := by
  induction items with
  | nil =>
    rw [parseItems]
    exact failsWith_ok _
  | cons x rest ih =>
    obtain ⟨first, later⟩ := List.forall_mem_cons.mp each
    rw [parseItems]
    exact first.bind fun node _ => (ih later).bind fun more _ => failsWith_ok _

theorem parse_fails (version : Version) (raw : Json) :
    FailsWith TemplateError.OfShape (parse version raw) := by
  induction raw using Json.parts_induction with
  | list items ih =>
    rw [parse]
    exact (parseItems_fails version items ih).map _
  | object entries ih =>
    have asMap : FailsWith TemplateError.OfShape ((parseEntries version entries).map Node.map) := by
      rw [parseEntries_eq]
      exact ((parseItems_fails version _ ih).map _).map _
    rcases entries with _ | ⟨⟨name, args⟩, _ | ⟨entry, rest⟩⟩
    · simp only [parse]
      exact asMap
    · have inside := ih args (List.mem_singleton.mpr rfl)
      rw [parse]
      split
      · exact inside.bind fun node _ => ofCall_fails _ name node
      · exact inside.map _
    · simp only [parse]
      exact asMap
  | _ =>
    simp only [parse]
    exact failsWith_ok _

/-! ## Resolving -/

theorem resolveFirst_fails {kind : TemplateError → Prop} (scope : Scope) (check : Check)
    (checks : ∀ position value, FailsWith kind (check position value)) (xs : List Node)
    (each : ∀ x ∈ xs, FailsWith kind (resolve scope x).value) (position count : Nat) :
    FailsWith kind (resolveFirst scope check position count xs).outcome.2 := by
  induction xs generalizing position count with
  | nil => simp [resolveFirst, Step.outcome]
  | cons x rest ih =>
    cases count with
    | zero => simp [outcome_resolveFirst_zero]
    | succ count =>
      obtain ⟨first, later⟩ := List.forall_mem_cons.mp each
      have checked := first.bind fun value _ => (checks position value).map fun _ => value
      rw [outcome_resolveFirst_cons]
      split
      · rename_i e failed
        exact (failsWith_error_iff e).mpr (checked.of_error e failed)
      · exact (ih later (position + 1) count).map _

theorem fails_of_unremembered {kind : TemplateError → Prop} {scope : Scope} {function : Intrinsic}
    {name : String} {args : Node} (memo : Option Json)
    (fails : FailsWith kind (resolve scope (.call function name args none)).value) :
    FailsWith kind (resolve scope (.call function name args memo)).value := by
  cases memo with
  | none => exact fails
  | some held =>
    rw [resolve]
    exact failsWith_ok _

theorem equals_fails (scope : Scope) (name : String) (left right : Node) :
    FailsWith (fun e => ∃ operand ∈ [left, right], (resolve scope operand).value = .error e)
      (resolve scope (.call .equals name (.list [left, right]) none)).value := by
  rw [value_unremembered]
  refine (resolveFirst_fails scope _ (fun _ _ => failsWith_ok ()) [left, right]
    (fun x member => ⟨fun e failed => ⟨x, member, failed⟩⟩) 0 2).bind fun values resolved => ?_
  obtain ⟨given, _⟩ := (values_resolveFirst_iff scope _ [left, right] 0 values).mp resolved
  obtain ⟨a, b, rfl⟩ := List.length_eq_two.mp given.length_eq.symm
  exact failsWith_ok _

theorem facade_fails (scope : Scope) (name : String) (part : String)
    (known : part ∈ facadeParts) :
    FailsWith (fun e => e = .noFacade name ∧ scope.stack.facade = none)
      (resolve scope (.call .resourceFacade name (.literal (.string part)) none)).value := by
  have given : Gives scope (.literal (.string part)) (.string part) := by rw [Gives, resolve]
  rw [value_call scope .resourceFacade name _ [.literal (.string part)] [.string part] rfl
    (.cons given .nil) fun _ _ _ => rfl]
  exact ((scope.facadePart_fails name part known).map _).map _

theorem call_fails (scope : Scope) (function : Intrinsic) (name : String) (args : Node)
    (splits : Splits function args)
    (each : ∀ x ∈ args :: args.parts, FailsWith TemplateError.OfValues (resolve scope x).value) :
    FailsWith TemplateError.OfValues (resolve scope (.call function name args none)).value := by
  by_cases facade : function = .resourceFacade
  · subst facade
    obtain ⟨part, known, rfl⟩ := splits
    constructor
    intro e failed
    obtain ⟨rfl, _⟩ := (facade_fails scope name part known).of_error e failed
    trivial
  · obtain ⟨nodes, found, enough⟩ := operands_of_splits function args splits
    have inside := fun x member => each x (mem_of_operands? function args nodes found x member)
    rw [value_unremembered, operandsOutcome, found]
    refine (resolveFirst_fails scope _ (scope.accept_fails name function) nodes inside 0 _).bind
      fun values resolved => ?_
    obtain ⟨given, accepted⟩ := (values_resolveFirst_iff ..).mp resolved
    refine (scope.finish_fails name function facade values (given.length_eq ▸ enough) ?_).map _
    simpa only [Nat.zero_add] using accepted

theorem resolve_fails (scope : Scope) (node : Node) (shaped : node.Shaped) :
    FailsWith TemplateError.OfValues (resolve scope node).value := by
  induction node using parts_induction with
  | literal value =>
    rw [resolve]
    exact failsWith_ok _
  | list items ih =>
    rw [value_list]
    exact (resolveFirst_fails scope unchecked (fun _ _ => failsWith_ok ()) items
      (fun x member => ih x member (shaped.of_mem member)) 0 _).map _
  | map entries ih =>
    rw [value_map]
    exact (resolveFirst_fails scope unchecked (fun _ _ => failsWith_ok ()) _
      (fun x member => ih x member (shaped.of_mem member)) 0 _).map _
  | call function name args memo ih =>
    refine fails_of_unremembered memo (call_fails scope function name args ?_ fun x member => ?_)
    · exact shaped function name args memo .self
    · exact ih x member (shaped.of_mem_args member)

/-! ## Visits -/

section Visits

variable (scope : Scope) (function : Intrinsic) (name : String) (args : Node)
  (splits : Splits function args)
  (each : ∀ x ∈ args :: args.parts, FailsWith TemplateError.OfValues (resolve scope x).value)
include splits each

theorem reference_fails (refers : function.refers = true) (count : Nat)
    (alone : function = .getResource → count = 1) :
    FailsWith TemplateError.OfValues (reference scope function name count args).value := by
  obtain ⟨nodes, found, _⟩ := operands_of_splits function args splits
  rw [reference_value scope function name count args nodes refers alone found]
  exact resolveFirst_fails scope _ (scope.accept_fails name function) nodes
    (fun x member => each x (mem_of_operands? function args nodes found x member)) 0 count

theorem validateCall_fails :
    FailsWith TemplateError.OfValues (validateCall scope function name args).2 := by
  have own := each args (List.mem_cons_self ..)
  cases function with
  | getResource => exact (reference_fails scope _ name args splits each rfl 1 fun _ => rfl).map _
  | getAttr | getAttrAll =>
    refine (reference_fails scope _ name args splits each rfl 2 (by simp)).bind fun values _ => ?_
    split
    · refine (scope.resource?_fails name _).bind fun resource _ => ?_
      split
      · exact failsWith_ok _
      · exact (failsWith_error_iff _).mpr trivial
    · exact failsWith_ok _
  | getFile =>
    simp only [validateCall]
    split
    · exact own.bind fun value _ => (scope.file_fails name value).map _
    · exact failsWith_ok _
  | repeatList | repeatWithMap =>
    obtain ⟨entries, forEach, template, rfl, first, _⟩ := splits
    simp only [validateCall, first]
    split
    · exact failsWith_ok _
    · exact failsWith_ok _
    · exact (failsWith_error_iff _).mpr rfl
  | digest =>
    simp only [validateCall]
    split
    · refine own.bind fun value _ => ?_
      have checked := Functions.digestArguments_fails scope.digests value
      split
      · exact failsWith_ok _
      · rename_i fault failed
        exact (failsWith_error_iff _).mpr (checked.of_error fault failed)
    · exact failsWith_ok _
  | removed => exact (failsWith_error_iff _).mpr trivial
  | _ => exact failsWith_ok _

theorem resourceOfCall_fails :
    FailsWith TemplateError.OfValues (resourceOfCall scope function name args).2 := by
  cases function with
  | getResource | getAttr | getAttrAll =>
    refine (reference_fails scope _ name args splits each rfl 1 fun _ => rfl).bind
      fun values _ => ?_
    split
    · exact (scope.resource?_fails name _).map _
    · exact failsWith_ok _
  | _ => exact failsWith_ok _

theorem attributesOfCall_fails :
    FailsWith TemplateError.OfValues (attributesOfCall scope function name args).2 := by
  cases function with
  | getAttr | getAttrAll =>
    refine (reference_fails scope _ name args splits each rfl _ (by simp)).bind fun values _ => ?_
    split
    · exact (scope.resource?_fails name _).map _
    · exact (scope.resource?_fails name _).map _
    · exact failsWith_ok _
  | _ => exact failsWith_ok _

end Visits

theorem survey_shaped {α : Type} (scope : Scope) (visit : Intrinsic → String → Node → Visit Node α)
    (visits : ∀ function name args, Splits function args →
      (∀ x ∈ args :: args.parts, FailsWith TemplateError.OfValues (resolve scope x).value) →
      FailsWith TemplateError.OfValues (visit function name args).2)
    (node : Node) (shaped : node.Shaped) :
    FailsWith TemplateError.OfValues (survey visit node) := by
  refine survey_fails visit node fun x within => ?_
  have inside := shaped.of_within within
  cases x with
  | call function name args memo =>
    exact visits function name args (inside function name args memo .self) fun x member =>
      resolve_fails scope x (inside.of_mem_args member)
  | _ => exact failsWith_ok _

/-! ## Trees that were read -/

/-- Every operation on the tree finds faults of values at most. -/
structure FailsByValues (scope : Scope) (node : Node) : Prop where
  resolved : FailsWith TemplateError.OfValues (resolve scope node).value
  validated : FailsWith TemplateError.OfValues (validate scope node).2
  resources : FailsWith TemplateError.OfValues (dependencies scope node).2
  attributes : FailsWith TemplateError.OfValues (attributeDependencies scope node).2
  attributesOn : ∀ resource,
    FailsWith TemplateError.OfValues (attributeDependenciesOn scope resource node).2

theorem failsByValues_of_shaped (scope : Scope) (node : Node) (shaped : node.Shaped) :
    FailsByValues scope node := by
  have validated := survey_shaped scope _ (validateCall_fails scope) node shaped
  have resources := survey_shaped scope _ (resourceOfCall_fails scope) node shaped
  have attributes := survey_shaped scope _ (attributesOfCall_fails scope) node shaped
  rw [← (walk_survey scope _ (steady_validateCall scope) node).1] at validated
  rw [← (walk_survey scope _ (steady_resourceOfCall scope) node).1] at resources
  rw [← (walk_survey scope _ (steady_attributesOfCall scope) node).1] at attributes
  exact ⟨resolve_fails scope node shaped, validated.map _, resources.map _, attributes.map _,
    fun resource => (attributes.map _).map _⟩

/-- In a tree that was read from a template, whatever it remembers since, the arguments of every
call come apart, and no operation on any part of it finds a fault in the shape of arguments.  A
comparison fails with the error of an operand at most, a part of the facade for want of a facade. -/
theorem shapes_checked_by_parse (version : Version) (raw : Json) (parsed : Node)
    (read : parse version raw = .ok parsed) (node : Node) (same : node.forget = parsed)
    (scope : Scope) :
    node.Shaped ∧ (∀ x, x.Within node → FailsByValues scope x) ∧
      (∀ name args memo, (Node.call .equals name args memo).Within node →
        FailsWith (fun e => ∃ operand ∈ args.parts, (resolve scope operand).value = .error e)
          (resolve scope (.call .equals name args memo)).value) ∧
      ∀ name args memo, (Node.call .resourceFacade name args memo).Within node →
        FailsWith (fun e => e = .noFacade name ∧ scope.stack.facade = none)
          (resolve scope (.call .resourceFacade name args memo)).value := by
  have shaped := shaped_of_parse version raw parsed read node same
  refine ⟨shaped, fun x within => failsByValues_of_shaped scope x (shaped.of_within within), ?_, ?_⟩
  · intro name args memo within
    obtain ⟨left, right, rfl⟩ := shaped .equals name args memo within
    exact fails_of_unremembered memo (equals_fails scope name left right)
  · intro name args memo within
    obtain ⟨part, known, rfl⟩ := shaped .resourceFacade name args memo within
    exact fails_of_unremembered memo (facade_fails scope name part known)

def facadeIsAddress : Json :=
  .object [("equals", .list [.object [("resource_facade", .string "metadata")],
    .object [("get_attr", .list [.string "server", .string "address"])]])]

def facadeIsAddressTree : Node :=
  .call .equals "equals" (.list [
    .call .resourceFacade "resource_facade" (.literal (.string "metadata")) none,
    .call .getAttrAll "get_attr"
      (.list [.literal (.string "server"), .literal (.string "address")]) none]) none

theorem facadeIsAddress_fails :
    parse .v20161014 facadeIsAddress = .ok facadeIsAddressTree ∧
      facadeIsAddressTree.forget = facadeIsAddressTree ∧
      (resolve ⟨[], Template.serverWithMotd⟩ facadeIsAddressTree).value =
        .error (.noFacade "resource_facade") ∧
      FailsByValues ⟨[], Template.serverWithMotd⟩ facadeIsAddressTree := by
  have read : parse .v20161014 facadeIsAddress = .ok facadeIsAddressTree := rfl
  have fresh := forget_parse .v20161014 facadeIsAddress facadeIsAddressTree read
  obtain ⟨_, each, _, _⟩ := shapes_checked_by_parse .v20161014 facadeIsAddress facadeIsAddressTree
    read facadeIsAddressTree fresh ⟨[], Template.serverWithMotd⟩
  exact ⟨read, fresh, rfl, each _ .self⟩

end Orchestration.Node
