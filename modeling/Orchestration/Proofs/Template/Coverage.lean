import Orchestration.Proofs.Template.Agreement

/-!
# Dependencies cover what a template reads

If two stacks look alike at every resource and attribute that the dependencies of a template name,
the template resolves alike on both, and its dependencies are the same: nothing that resolving reads
is missing from them.
-/

set_option autoImplicit false

namespace Orchestration

namespace Node

/-! ## Whole trees -/

section Tree

variable (digests : List String) (stack other : Stack)

structure SameOn (node : Node) : Prop where
  outcome : (resolve ⟨digests, stack⟩ node).outcome = (resolve ⟨digests, other⟩ node).outcome
  resources : survey (resourceOfCall ⟨digests, other⟩) node =
    survey (resourceOfCall ⟨digests, stack⟩) node
  attributes : survey (attributesOfCall ⟨digests, other⟩) node =
    survey (attributesOfCall ⟨digests, stack⟩) node

theorem SameOn.list (items : List Node) (each : ∀ x ∈ items, SameOn digests stack other x) :
    SameOn digests stack other (.list items) := by
  refine ⟨?_, ?_, ?_⟩
  · exact outcome_list_congr _ _ items items
      (List.forall₂_same.mpr fun x member => (each x member).outcome)
  · rw [survey, survey]
    exact surveyItems_congr _ _ items fun x member => (each x member).resources
  · rw [survey, survey]
    exact surveyItems_congr _ _ items fun x member => (each x member).attributes

theorem SameOn.map (entries : List (String × Node))
    (each : ∀ x ∈ entries.map Prod.snd, SameOn digests stack other x) :
    SameOn digests stack other (.map entries) := by
  refine ⟨?_, ?_, ?_⟩
  · exact outcome_map_congr _ _ entries entries rfl
      (List.forall₂_same.mpr fun x member => (each x member).outcome)
  · rw [survey, survey, surveyEntries_eq, surveyEntries_eq]
    exact surveyItems_congr _ _ _ fun x member => (each x member).resources
  · rw [survey, survey, surveyEntries_eq, surveyEntries_eq]
    exact surveyItems_congr _ _ _ fun x member => (each x member).attributes

variable (keyed : stack.Keyed) (twinsKeyed : other.Keyed)
  (surroundings : stack.SameSurroundings other)

def AgreeIn (node : Node) : Prop :=
  ∃ names attributes, survey (resourceOfCall ⟨digests, stack⟩) node = .ok names ∧
    survey (attributesOfCall ⟨digests, stack⟩) node = .ok attributes ∧
    stack.AgreeOn other names attributes

theorem AgreeIn.part {digests : List String} {stack other : Stack} {node : Node}
    (agree : AgreeIn digests stack other node) (x : Node) (member : x ∈ node.parts) :
    AgreeIn digests stack other x := by
  obtain ⟨names, attributes, foundNames, foundAttributes, on⟩ := agree
  obtain ⟨some, foundSome, someIn⟩ := survey_part _ _ _ foundNames x member
  obtain ⟨less, foundLess, lessIn⟩ := survey_part _ _ _ foundAttributes x member
  exact ⟨some, less, foundSome, foundLess, on.mono _ _ _ _ _ _ someIn lessIn⟩

include keyed twinsKeyed surroundings in
theorem sameOn_of_agree (node : Node) (agree : AgreeIn digests stack other node.forget) :
    SameOn digests stack other node.forget := by
  induction node using parts_induction with
  | literal value => simpa using ⟨rfl, rfl, rfl⟩
  | list items ih =>
    rw [forget_list] at agree ⊢
    apply SameOn.list
    intro x member
    have below := agree.part x member
    obtain ⟨y, origin, rfl⟩ := List.mem_map.mp member
    exact ih y origin below
  | map entries ih =>
    rw [forget_map] at agree ⊢
    apply SameOn.map
    intro x member
    have below := agree.part x member
    rw [Entries.map_snd_mapValues] at member
    obtain ⟨y, origin, rfl⟩ := List.mem_map.mp member
    exact ih y origin below
  | call function name args memo ih =>
    rw [forget_call] at agree ⊢
    have below : AgreeIn digests stack other args.forget :=
      agree.part args.forget (List.mem_singleton.mpr rfl)
    have same := ih args (List.mem_cons_self ..) below
    -- The call resolves its arguments or trees directly below them, and the stacks agree on what
    -- is found there too.
    have each : ∀ x ∈ args.forget :: args.forget.parts,
        (resolve ⟨digests, stack⟩ x).outcome = (resolve ⟨digests, other⟩ x).outcome := by
      intro x member
      rcases List.mem_cons.mp member with rfl | deeper
      · exact same.outcome
      · have within := below.part x deeper
        rw [parts_forget] at deeper
        obtain ⟨y, origin, rfl⟩ := List.mem_map.mp deeper
        exact (ih y (List.mem_cons_of_mem _ origin) within).outcome
    obtain ⟨names, attributes, foundNames, foundAttributes, on⟩ := agree
    rw [survey] at foundNames foundAttributes
    obtain ⟨_, ownNames, _, visitedNames, rfl⟩ := append_of_ok _ _ _ foundNames
    obtain ⟨_, ownAttributes, _, visitedAttributes, rfl⟩ := append_of_ok _ _ _ foundAttributes
    have own := on.mono _ _ _ ownNames _ ownAttributes (List.subset_append_right ..)
      (List.subset_append_right ..)
    refine ⟨?_, ?_, ?_⟩
    · exact outcome_call_agree keyed surroundings visitedNames visitedAttributes own each
    · rw [survey, survey, same.resources, visitedNames,
        resourceOfCall_agree keyed twinsKeyed visitedNames own each]
    · rw [survey, survey, same.attributes, visitedAttributes,
        attributesOfCall_agree keyed twinsKeyed visitedNames visitedAttributes own each]

end Tree

end Node

namespace Template

/-- A template resolves alike on stacks that agree on its dependencies, and has the same ones. -/
theorem resolve_eq_of_agreeOn (template : Template) (raw : Json) (node : Node)
    (read : Node.parse template.version raw = .ok node) (stack other : Stack)
    (keyed : stack.Keyed) (twinsKeyed : other.Keyed) (surroundings : stack.SameSurroundings other)
    (names : List String) (attributes : List AttributeDependency)
    (refers : (node.dependencies ⟨template.digests, stack⟩).2 = .ok names)
    (reads : (node.attributeDependencies ⟨template.digests, stack⟩).2 = .ok attributes)
    (agree : stack.AgreeOn other names attributes) :
    (node.resolve ⟨template.digests, other⟩).value = (node.resolve ⟨template.digests, stack⟩).value ∧
      (node.dependencies ⟨template.digests, other⟩).2 = .ok names ∧
      (node.attributeDependencies ⟨template.digests, other⟩).2 = .ok attributes := by
  have fresh := Node.forget_parse template.version raw node read
  rw [Node.dependencies_eq _ node] at refers ⊢
  rw [Node.attributeDependencies_eq _ node] at reads ⊢
  cases foundNames : Node.survey (Node.resourceOfCall ⟨template.digests, stack⟩) node with
  | error e => simp [foundNames, Except.map] at refers
  | ok allNames =>
    cases foundAttributes : Node.survey (Node.attributesOfCall ⟨template.digests, stack⟩) node with
    | error e => simp [foundAttributes, Except.map] at reads
    | ok allAttributes =>
      simp only [foundNames, foundAttributes, Except.map, Except.ok.injEq] at refers reads
      subst refers reads
      have same := Node.sameOn_of_agree template.digests stack other keyed twinsKeyed surroundings
        node ⟨allNames, allAttributes, fresh.symm ▸ foundNames, fresh.symm ▸ foundAttributes,
          agree.of_firstSeen⟩
      rw [fresh] at same
      rw [same.resources, same.attributes, foundNames, foundAttributes]
      exact ⟨(congrArg Prod.snd same.outcome).symm, rfl, rfl⟩

def addressAndVolume : Json :=
  .object [("list_join", .list [.string ",", .list
    [.object [("get_attr", .list [.object [("get_param", .string "host")], .string "address"])],
      .object [("get_resource", .string "volume")]]])]

def addressAndVolumeTree : Node :=
  .call .joinMultiple "list_join" (.list [.literal (.string ","), .list
    [.call .getAttrAll "get_attr"
        (.list [.call .getParam "get_param" (.literal (.string "host")) none,
          .literal (.string "address")]) none,
      .call .getResource "get_resource" (.literal (.string "volume")) none]]) none

def serverNamed (name : String) : Resource :=
  { Resource.created "server" with
    attributes := [("address", .string "10.0.0.2"), ("name", .string name)] }

def beforeRename : Stack :=
  ⟨[("host", .string "server")],
    [("server", serverNamed "blue"), ("volume", .created "volume")], [], none⟩

/-- The template does not read the name of the server, nor does it refer to the disk. -/
def afterRename : Stack :=
  ⟨[("host", .string "server")],
    [("disk", .pending "disk"), ("volume", .created "volume"), ("server", serverNamed "green")],
    [], none⟩

theorem keyed_around_rename : beforeRename.Keyed ∧ afterRename.Keyed := by
  constructor
  all_goals
    apply Stack.keyed_of_entries
    simp only [beforeRename, afterRename, List.forall_mem_cons]
    simp [serverNamed, Resource.created, Resource.pending, Entries.Distinct, Entries.keys]

theorem agree_around_rename : beforeRename.AgreeOn afterRename ["server", "volume"]
    [⟨"server", "address", []⟩] := by
  constructor
  · simp only [List.forall_mem_cons]
    refine ⟨?_, ?_, by simp⟩
    · rintro resource ⟨⟩
      exact ⟨serverNamed "green", rfl, rfl, rfl, rfl⟩
    · rintro resource ⟨⟩
      exact ⟨.created "volume", rfl, rfl, rfl, rfl⟩
  · simp only [List.forall_mem_singleton]
    rintro resource twin ⟨⟩ ⟨⟩
    rfl

theorem dependencies_before_rename :
    (addressAndVolumeTree.dependencies ⟨[], beforeRename⟩).2 = .ok ["server", "volume"] ∧
      (addressAndVolumeTree.attributeDependencies ⟨[], beforeRename⟩).2 =
        .ok [⟨"server", "address", []⟩] := by
  constructor
  all_goals
    simp [addressAndVolumeTree, Node.dependencies, Node.attributeDependencies, Node.walk,
      Node.walkItems, Node.resourceOfCall, Node.attributesOfCall, Node.reference, Node.itemCount,
      Node.resolveItems, Node.resolveFirst, Node.resolve, Node.remember, Intrinsic.operands,
      Step.andThen, Step.onTree, Scope.accept, Scope.finish, Scope.parameter, Scope.resource?,
      Stack.parameter?, Stack.resource?, Entries.get?_cons, Except.bind, Except.map, bind,
      firstSeen, beforeRename, serverNamed, Resource.created]

theorem resolve_eq_around_rename :
    Node.parse .v20161014 addressAndVolume = .ok addressAndVolumeTree ∧
      (beforeRename.Keyed ∧ afterRename.Keyed) ∧ beforeRename.SameSurroundings afterRename ∧
      beforeRename.AgreeOn afterRename ["server", "volume"] [⟨"server", "address", []⟩] ∧
      (addressAndVolumeTree.resolve ⟨[], afterRename⟩).value =
        (addressAndVolumeTree.resolve ⟨[], beforeRename⟩).value ∧
      (addressAndVolumeTree.dependencies ⟨[], afterRename⟩).2 = .ok ["server", "volume"] ∧
      (addressAndVolumeTree.attributeDependencies ⟨[], afterRename⟩).2 =
        .ok [⟨"server", "address", []⟩] := by
  have surroundings : beforeRename.SameSurroundings afterRename :=
    ⟨fun _ => rfl, fun _ => rfl, rfl⟩
  refine ⟨rfl, keyed_around_rename, surroundings, agree_around_rename, ?_⟩
  exact resolve_eq_of_agreeOn ⟨.v20161014, []⟩ addressAndVolume addressAndVolumeTree rfl
    beforeRename afterRename keyed_around_rename.1 keyed_around_rename.2 surroundings _ _
    dependencies_before_rename.1 dependencies_before_rename.2 agree_around_rename

end Template

end Orchestration
