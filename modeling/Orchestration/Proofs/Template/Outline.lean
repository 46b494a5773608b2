import Orchestration.Proofs.Template.Coverage
import Orchestration.Proofs.Template.Sessions

/-!
# Dependencies before anything exists

The outline of a stack is what is known before its resources are made: parameters, files, the
facade, the names of the resources and the attributes that they declare.  Where no call that refers
to a resource computes its operands from such calls, the dependencies of a tree follow from the
outline, and asking the tree does not change them.
-/

set_option autoImplicit false

namespace Orchestration

def Resource.outline (resource : Resource) : String × List String :=
  (resource.name, resource.attributeNames)

/-- The stacks have the same surroundings, and resources of the same names and attributes. -/
structure Stack.SameOutline (stack other : Stack) : Prop where
  surroundings : stack.SameSurroundings other
  resources : ∀ key, (stack.resource? key).map Resource.outline =
    (other.resource? key).map Resource.outline

theorem Stack.SameOutline.symm {stack other : Stack} (same : stack.SameOutline other) :
    other.SameOutline stack :=
  ⟨⟨fun name => (same.surroundings.parameters name).symm,
    fun key => (same.surroundings.files key).symm, same.surroundings.facade.symm⟩,
    fun key => (same.resources key).symm⟩

theorem Stack.SameOutline.trans {stack middle other : Stack} (first : stack.SameOutline middle)
    (second : middle.SameOutline other) : stack.SameOutline other :=
  ⟨⟨fun name => (first.surroundings.parameters name).trans (second.surroundings.parameters name),
    fun key => (first.surroundings.files key).trans (second.surroundings.files key),
    first.surroundings.facade.trans second.surroundings.facade⟩,
    fun key => (first.resources key).trans (second.resources key)⟩

theorem Scope.resource?_outline {β : Type} (digests : List String) {stack other : Stack}
    (same : stack.SameOutline other) (name : String) (value : Json)
    (tell : String × List String → β) :
    (Scope.resource? ⟨digests, stack⟩ name value).map (fun resource => tell resource.outline) =
      (Scope.resource? ⟨digests, other⟩ name value).map fun resource => tell resource.outline := by
  cases value with
  | string key =>
    have outlines := same.resources key
    simp only [Scope.resource?]
    cases held : stack.resource? key with
    | none =>
      rw [held, Option.map_none, eq_comm, Option.map_eq_none_iff] at outlines
      rw [outlines]
    | some resource =>
      rw [held, Option.map_some, eq_comm, Option.map_eq_some_iff] at outlines
      obtain ⟨twin, heldTwin, alike⟩ := outlines
      rw [heldTwin]
      simp only [Except.map, alike]
  | _ => rfl

namespace Node

/-! ## Trees that read no resource -/

/-- No call in the tree names a resource. -/
def Silent (node : Node) : Prop :=
  ∀ function name args memo, (Node.call function name args memo).Within node →
    function.refers = false

/-- Calls in the tree that name a resource do so without the help of such calls. -/
def NamesDirectly (node : Node) : Prop :=
  ∀ function name args memo, (Node.call function name args memo).Within node →
    function.refers = true → args.Silent

theorem Silent.of_mem {node x : Node} (silent : node.Silent) (member : x ∈ node.parts) : x.Silent :=
  fun function name args memo within =>
    silent function name args memo (.part x node member within)

theorem Silent.of_mem_args {args x : Node} (silent : args.Silent)
    (member : x ∈ args :: args.parts) : x.Silent := by
  rcases List.mem_cons.mp member with rfl | below
  · exact silent
  · exact silent.of_mem below

theorem NamesDirectly.of_mem {node x : Node} (direct : node.NamesDirectly)
    (member : x ∈ node.parts) : x.NamesDirectly :=
  fun function name args memo within =>
    direct function name args memo (.part x node member within)

theorem NamesDirectly.of_forget {node : Node} (direct : node.forget.NamesDirectly) :
    node.NamesDirectly := by
  intro function name args memo within refers inner innerName innerArgs innerMemo below
  have outer := within_forget _ node within
  have deeper := within_forget _ args below
  rw [forget_call] at outer deeper
  exact direct function name args.forget none outer refers inner innerName innerArgs.forget none
    deeper

section Silent

variable (digests : List String) {stack other : Stack} (surroundings : stack.SameSurroundings other)
include surroundings

theorem outcome_silent (node : Node) (silent : node.Silent) :
    (resolve ⟨digests, stack⟩ node).outcome = (resolve ⟨digests, other⟩ node).outcome := by
  induction node using parts_induction with
  | literal value => rw [resolve, resolve]
  | list items ih =>
    exact outcome_list_congr _ _ items items
      (List.forall₂_same.mpr fun x member => ih x member (silent.of_mem member))
  | map entries ih =>
    exact outcome_map_congr _ _ entries entries rfl
      (List.forall₂_same.mpr fun x member => ih x member (silent.of_mem member))
  | call function name args memo ih =>
    cases memo with
    | some held => rw [resolve, resolve]
    | none =>
      have apart := silent function name args none .self
      have below : args.Silent := silent.of_mem (List.mem_singleton.mpr rfl)
      have operands : operandsOutcome ⟨digests, stack⟩ function name args =
          operandsOutcome ⟨digests, other⟩ function name args := by
        unfold operandsOutcome
        cases found : operands? function args with
        | none => rfl
        | some nodes =>
          refine outcome_resolveFirst_congr _ _ _ _ nodes nodes 0 _
            (List.forall₂_same.mpr fun x member => ?_) fun i x value _ _ => ?_
          · have inside := mem_of_operands? function args nodes found x member
            exact ih x inside (below.of_mem_args inside)
          · refine Scope.accept_congr _ _ function name _ value ?_ (by simp [apart])
            rintro rfl
            cases apart
      rw [outcome_call, outcome_call, operands]
      simp only [Scope.finish_surroundings digests surroundings function name _ apart]

end Silent

/-! ## The same dependencies on every stack of the outline -/

section Outline

variable (digests : List String) {stack other : Stack} (same : stack.SameOutline other)
include same

theorem reference_outline (function : Intrinsic) (name : String) (count : Nat) (args : Node)
    (silent : args.Silent) :
    (reference ⟨digests, stack⟩ function name count args).value =
      (reference ⟨digests, other⟩ function name count args).value := by
  have accepted : ∀ position value, (function = .getResource → position = 0) →
      Scope.accept ⟨digests, stack⟩ function name position value =
        Scope.accept ⟨digests, other⟩ function name position value := by
    intro position value alone
    exact Scope.accept_congr _ _ function name position value alone fun _ _ =>
      Scope.resource?_outline digests same name value fun _ => ()
  apply Step.value_congr
  unfold reference
  split
  · rename_i items
    cases args with
    | list nodes =>
      simp only [resolveItems, Step.outcome_onTree]
      refine outcome_resolveFirst_congr _ _ _ _ nodes nodes 0 count
        (List.forall₂_same.mpr fun x member =>
          outcome_silent digests same.surroundings x (silent.of_mem member))
        fun i x value _ _ => accepted _ value ?_
      rintro rfl
      cases items
    | _ => rfl
  · simp only [Step.outcome_andThen, outcome_silent digests same.surroundings args silent,
      accepted 0 _ fun _ => rfl]

theorem resourceOfCall_outline (function : Intrinsic) (name : String) (args : Node)
    (silent : function.refers = true → args.Silent) :
    (resourceOfCall ⟨digests, stack⟩ function name args).2 =
      (resourceOfCall ⟨digests, other⟩ function name args).2 := by
  cases function with
  | getResource | getAttr | getAttrAll =>
    simp only [resourceOfCall, reference_outline digests same _ name 1 args (silent rfl)]
    refine congrArg _ (funext fun values => ?_)
    split
    · exact Scope.resource?_outline digests same name _ fun outline => [outline.1]
    · rfl
  | _ => rfl

theorem attributesOfCall_outline (function : Intrinsic) (name : String) (args : Node)
    (silent : function.refers = true → args.Silent) :
    (attributesOfCall ⟨digests, stack⟩ function name args).2 =
      (attributesOfCall ⟨digests, other⟩ function name args).2 := by
  cases function with
  | getAttr | getAttrAll =>
    simp only [attributesOfCall, reference_outline digests same _ name _ args (silent rfl)]
    refine congrArg _ (funext fun values => ?_)
    split
    · exact Scope.resource?_outline digests same name _ fun outline =>
        outline.2.map fun attributeName => AttributeDependency.mk outline.1 attributeName []
    · exact Scope.resource?_outline digests same name _ fun outline =>
        [AttributeDependency.mk outline.1 _ _]
    · rfl
  | _ => rfl

end Outline

theorem survey_direct {α : Type} (visit again : Intrinsic → String → Node → Visit Node α)
    (alike : ∀ function name args, (function.refers = true → args.Silent) →
      (visit function name args).2 = (again function name args).2)
    (node : Node) (direct : node.NamesDirectly) : survey visit node = survey again node := by
  induction node using below_induction with
  | step node ih =>
    have below := surveyItems_congr again visit node.parts fun x member =>
      ih x member (direct.of_mem member)
    have own : ownVisit visit node = ownVisit again node := by
      cases node with
      | call function name args memo =>
        exact alike function name args (direct function name args memo .self)
      | _ => rfl
    rw [survey_eq, survey_eq, below, own]

def allDependencies (scope : Scope) (node : Node) :
    Except TemplateError (List String) × Except TemplateError (List AttributeDependency) :=
  ((dependencies scope node).2, (attributeDependencies scope node).2)

theorem allDependencies_outline (digests : List String) {stack other : Stack}
    (same : stack.SameOutline other) (node : Node) (direct : node.NamesDirectly) :
    node.allDependencies ⟨digests, stack⟩ = node.allDependencies ⟨digests, other⟩ := by
  simp only [allDependencies, dependencies_eq, attributeDependencies_eq,
    survey_direct _ _ (resourceOfCall_outline digests same) node direct,
    survey_direct _ _ (attributesOfCall_outline digests same) node direct]

theorem Fuller.allDependencies {scope : Scope} {before after : Node}
    (fuller : Fuller scope before after) :
    after.allDependencies scope = before.allDependencies scope := by
  simp only [Node.allDependencies, dependencies_eq, attributeDependencies_eq,
    survey_alike scope _ (steady_resourceOfCall scope) before after fuller,
    survey_alike scope _ (steady_attributesOfCall scope) before after fuller]

end Node

namespace Template

theorem forget_after (template : Template) (stack : Stack) (node : Node)
    (events : List SessionEvent) : (template.after stack node events).2.forget = node.forget := by
  induction events generalizing stack node with
  | nil => rfl
  | cons event rest ih =>
    cases event with
    | change next => exact ih next node
    | ask question =>
      exact (ih stack _).trans ((Node.steady_ask _ question).fuller node).template

/-- Each stack that the session turns to has the outline of the first one. -/
def KeepsOutline (stack : Stack) (events : List SessionEvent) : Prop :=
  ∀ next, .change next ∈ events → stack.SameOutline next

theorem allDependencies_after (template : Template) (stack : Stack) (node : Node)
    (direct : node.forget.NamesDirectly) (events : List SessionEvent)
    (keeps : KeepsOutline stack events) :
    let later := template.after stack node events
    later.2.allDependencies ⟨template.digests, later.1⟩ =
      node.allDependencies ⟨template.digests, stack⟩ := by
  induction events generalizing stack node with
  | nil => rfl
  | cons event rest ih =>
    have later : KeepsOutline stack rest := fun next member =>
      keeps next (List.mem_cons_of_mem _ member)
    cases event with
    | change next =>
      have turned := keeps next (List.mem_cons_self ..)
      refine (ih next node direct fun more member => turned.symm.trans (later more member)).trans ?_
      exact Node.allDependencies_outline template.digests turned.symm node direct.of_forget
    | ask question =>
      have fuller := (Node.steady_ask ⟨template.digests, stack⟩ question).fuller node
      exact (ih stack _ (fuller.template ▸ direct) later).trans fuller.allDependencies

/-- A tree that names its resources directly, whatever it remembers from any stacks before, has the
same dependencies on two stacks of one outline, and keeps them while the outline stays. -/
theorem dependencies_of_outline (template : Template) (raw : Json) (parsed : Node)
    (read : Node.parse template.version raw = .ok parsed) (direct : parsed.NamesDirectly)
    (first : Stack) (earlier : List SessionEvent) (stack other : Stack)
    (same : stack.SameOutline other) (events others : List SessionEvent)
    (keeps : KeepsOutline stack events) (otherKeeps : KeepsOutline other others) :
    let node := (template.after first parsed earlier).2
    let left := template.after stack node events
    let right := template.after other node others
    (left.2.dependencies ⟨template.digests, left.1⟩).2 =
        (right.2.dependencies ⟨template.digests, right.1⟩).2 ∧
      (left.2.attributeDependencies ⟨template.digests, left.1⟩).2 =
        (right.2.attributeDependencies ⟨template.digests, right.1⟩).2 := by
  have fresh := Node.forget_parse template.version raw parsed read
  have plain : (template.after first parsed earlier).2.forget.NamesDirectly := by
    rw [forget_after, fresh]
    exact direct
  have left := allDependencies_after template stack _ plain events keeps
  have right := allDependencies_after template other _ plain others otherKeeps
  have between := Node.allDependencies_outline template.digests same _ plain.of_forget
  exact Prod.ext_iff.mp ((left.trans between).trans right.symm)

def beforeCreation : Stack :=
  ⟨[("host", .string "server")],
    [("server", { Resource.pending "server" with
      attributes := [("address", .null), ("name", .null)] }),
      ("volume", .pending "volume")], [], none⟩

theorem namesDirectly_addressAndVolume : addressAndVolumeTree.NamesDirectly := by
  intro function name args memo within refers inner innerName innerArgs innerMemo below
  simp only [addressAndVolumeTree, Node.call_within_call_iff, Node.call_within_list_iff,
    Node.call_within_literal, List.exists_mem_cons_iff, List.not_mem_nil, false_and, exists_false,
    false_or, or_false] at within
  rcases within with ⟨rfl, _⟩ | (⟨rfl, _, rfl, _⟩ | ⟨rfl, _⟩) | ⟨rfl, _, rfl, _⟩
  · cases refers
  · simp only [Node.call_within_list_iff, Node.call_within_call_iff, Node.call_within_literal,
      List.exists_mem_cons_iff, List.not_mem_nil, false_and, exists_false, or_false] at below
    rw [below.1]
    rfl
  · cases refers
  · simp at below

theorem sameOutline_before_rename : beforeCreation.SameOutline beforeRename := by
  refine ⟨⟨fun _ => rfl, fun _ => rfl, rfl⟩, fun key => ?_⟩
  simp only [beforeCreation, beforeRename, Stack.resource?, Entries.get?_cons, Entries.get?_nil]
  split
  · rfl
  · split <;> rfl

/-- The dependencies on servers that nobody made yet are those on the servers at work, also in a
tree that was resolved there. -/
theorem dependencies_before_creation :
    Node.parse .v20161014 addressAndVolume = .ok addressAndVolumeTree ∧
      addressAndVolumeTree.NamesDirectly ∧ beforeCreation.SameOutline beforeRename ∧
      (addressAndVolumeTree.dependencies ⟨[], beforeCreation⟩).2 = .ok ["server", "volume"] ∧
      (addressAndVolumeTree.attributeDependencies ⟨[], beforeCreation⟩).2 =
        .ok [⟨"server", "address", []⟩] ∧
      ((addressAndVolumeTree.ask ⟨[], beforeRename⟩ (.resolve [])).1.dependencies
        ⟨[], beforeRename⟩).2 = .ok ["server", "volume"] ∧
      ((addressAndVolumeTree.ask ⟨[], beforeRename⟩ (.resolve [])).1.attributeDependencies
        ⟨[], beforeRename⟩).2 = .ok [⟨"server", "address", []⟩] := by
  have read : Node.parse .v20161014 addressAndVolume = .ok addressAndVolumeTree := rfl
  have resources : (addressAndVolumeTree.dependencies ⟨[], beforeCreation⟩).2 =
      .ok ["server", "volume"] := rfl
  have attributes : (addressAndVolumeTree.attributeDependencies ⟨[], beforeCreation⟩).2 =
      .ok [⟨"server", "address", []⟩] := rfl
  obtain ⟨sameResources, sameAttributes⟩ := dependencies_of_outline ⟨.v20161014, []⟩
    addressAndVolume addressAndVolumeTree read namesDirectly_addressAndVolume beforeCreation []
    beforeCreation beforeRename sameOutline_before_rename [] [.ask (.resolve [])]
    (by simp [KeepsOutline]) (by simp [KeepsOutline])
  exact ⟨read, namesDirectly_addressAndVolume, sameOutline_before_rename, resources, attributes,
    sameResources.symm.trans resources, sameAttributes.symm.trans attributes⟩

end Template

end Orchestration
