import Orchestration.Proofs.Template.Agreement

/-!
# What validation promises

A tree that passes validation calls no removed function, finds the files that it names outright and
refers only to resources that are there.  Its dependencies are exactly these resources, and the
attributes that it reads are declared by them.
-/

set_option autoImplicit false

namespace Orchestration

namespace Node

/-! ## The first operand of a call -/

theorem shape_of_parse (version : Version) (raw : Json) (node : Node)
    (parsed : parse version raw = .ok node) (function : Intrinsic) (name : String) (args : Node)
    (memo : Option Json) (within : (Node.call function name args memo).Within node) :
    shapeFault? function args = none := by
  revert within
  refine parsed_induction (motive := fun node => (Node.call function name args memo).Within node →
    shapeFault? function args = none) version ?_ ?_ ?_ ?_ raw node parsed
  · simp
  · intro items each within
    obtain ⟨x, member, deeper⟩ := (call_within_list_iff items).mp within
    exact each x member deeper
  · intro entries each within
    obtain ⟨x, member, deeper⟩ := (call_within_map_iff entries).mp within
    exact each x member deeper
  · intro function' name' args' shape below within
    rcases call_within_call_iff.mp within with ⟨rfl, _, rfl, _⟩ | deeper
    · exact shape
    · exact below deeper

theorem operand_of_shape (function : Intrinsic) (args : Node) (refers : function.refers = true)
    (shape : shapeFault? function args.forget = none) :
    ∃ x rest, operands? function args = some (x :: rest) := by
  cases function with
  | getResource => exact ⟨args, [], rfl⟩
  | getAttr | getAttrAll =>
    cases args with
    | list items =>
      cases items with
      | nil => simp [shapeFault?] at shape
      | cons x rest => exact ⟨x, rest, rfl⟩
    | _ => simp [shapeFault?] at shape
  | _ => simp [Intrinsic.refers] at refers

/-- The first operand of the call is the name of the resource. -/
def Names (scope : Scope) (function : Intrinsic) (args : Node) (resource : Resource) : Prop :=
  ∃ x rest key, operands? function args = some (x :: rest) ∧
    (resolve scope x).value = .ok (.string key) ∧ scope.stack.resource? key = some resource

theorem accept_first (scope : Scope) (function : Intrinsic) (name : String) (value : Json)
    (refers : function.refers = true) :
    scope.accept function name 0 value = (scope.resource? name value).map fun _ => () := by
  cases function with
  | getResource | getAttr | getAttrAll => rfl
  | _ => simp [Intrinsic.refers] at refers

section Call

variable {scope : Scope} {function : Intrinsic} {name : String} {args : Node}
  (refers : function.refers = true)
include refers

theorem names_of_reference (count : Nat) (alone : function = .getResource → count = 0) (x : Node)
    (rest : List Node) (values : List Json) (found : operands? function args = some (x :: rest))
    (done : (reference scope function name (count + 1) args).value = .ok values) :
    ∃ resource, Names scope function args resource := by
  rw [reference_value scope function name (count + 1) args _ refers
    (fun same => by rw [alone same]) found] at done
  obtain ⟨value, more, resolved, accepted, _, rfl⟩ := (values_resolveFirst_cons_iff ..).mp done
  rw [accept_first scope function name value refers, map_eq_ok_iff] at accepted
  obtain ⟨resource, known, _⟩ := accepted
  obtain ⟨key, rfl, held⟩ := (Scope.resource?_eq_ok_iff scope name value resource).mp known
  exact ⟨resource, x, rest, key, found, resolved, held⟩

theorem resourceOfCall_of_names (resource : Resource)
    (names : Names scope function args resource) :
    (resourceOfCall scope function name args).2 = .ok [resource.name] := by
  obtain ⟨x, rest, key, found, resolved, held⟩ := names
  have known := (Scope.resource?_eq_ok_iff scope name _ resource).mpr ⟨key, rfl, held⟩
  rw [resourceOfCall_eq scope function name args _ refers found,
    (values_resolveFirst_cons_iff ..).mpr ⟨.string key, [], resolved,
      by rw [accept_first scope function name _ refers, known]; rfl,
      by rw [outcome_resolveFirst_zero], rfl⟩]
  simp only [Except.bind, known, Except.map]

end Call

theorem Names.unique {scope : Scope} {function : Intrinsic} {args : Node}
    {resource other : Resource} (names : Names scope function args resource)
    (again : Names scope function args other) :
    resource = other := by
  obtain ⟨x, rest, key, found, resolved, held⟩ := names
  obtain ⟨x', rest', key', found', resolved', held'⟩ := again
  rw [found] at found'
  cases found'
  rw [resolved] at resolved'
  cases resolved'
  rw [held] at held'
  exact Option.some.inj held'

/-! ## Calls that pass validation -/

section Valid

variable {scope : Scope} {function : Intrinsic} {name : String} {args : Node} {own : List Unit}
  (valid : (validateCall scope function name args).2 = .ok own)
include valid

theorem names_of_valid (refers : function.refers = true) (x : Node) (rest : List Node)
    (found : operands? function args = some (x :: rest)) :
    ∃ resource, Names scope function args resource := by
  cases function with
  | getResource =>
    obtain ⟨values, done, _⟩ := (map_eq_ok_iff ..).mp valid
    exact names_of_reference refers 0 (fun _ => rfl) x rest values found done
  | getAttr | getAttrAll =>
    obtain ⟨values, done, _⟩ := (bind_eq_ok_iff ..).mp valid
    exact names_of_reference refers 1 (by simp) x rest values found done
  | _ => simp [Intrinsic.refers] at refers

theorem file_of_valid (file : function = .getFile) (static : args.isStatic = true) :
    ∃ key text, (resolve scope args).value = .ok (.string key) ∧
      scope.stack.file? key = some text := by
  subst file
  simp only [validateCall, static, if_true, bind_eq_ok_iff, map_eq_ok_iff] at valid
  obtain ⟨value, resolved, content, there, _⟩ := valid
  unfold Scope.file at there
  split at there
  · rename_i key
    split at there
    · rename_i text held
      exact ⟨key, text, resolved, held⟩
    · cases there
  · cases there

theorem declared_of_valid (reads : function = .getAttr ∨ function = .getAttrAll)
    (nodes : List Node) (found : operands? function args = some nodes) (first : Json)
    (attributeName : String) (path : List Json) (resource : Resource)
    (resolved : (operandsOutcome scope function name args).2 =
      .ok (first :: .string attributeName :: path))
    (known : scope.resource? name first = .ok resource) :
    attributeName ∈ resource.attributeNames := by
  simp only [operandsOutcome, found] at resolved
  have two := values_take scope _ nodes 0 nodes.length 2 _ (.inr (Nat.le_refl _)) resolved
  have checked : (reference scope function name 2 args).value =
      .ok [first, .string attributeName] := by
    rw [reference_value scope function name 2 args nodes (by rcases reads with rfl | rfl <;> rfl)
      (by rcases reads with rfl | rfl <;> simp) found]
    exact two
  rcases reads with rfl | rfl
  all_goals
    simp only [validateCall, checked, Except.bind, bind, known] at valid
    split at valid
    · assumption
    · cases valid

theorem edge_of_valid (reads : function = .getAttr ∨ function = .getAttrAll) (x : Node)
    (rest : List Node) (found : operands? function args = some (x :: rest))
    (edges : List AttributeDependency)
    (visited : (attributesOfCall scope function name args).2 = .ok edges)
    (edge : AttributeDependency) (member : edge ∈ edges) :
    ∃ resource, Names scope function args resource ∧ resource.name = edge.resource ∧
      edge.attributeName ∈ resource.attributeNames := by
  rw [attributesOfCall_eq scope function name args _ reads found, bind_eq_ok_iff] at visited
  obtain ⟨values, resolved, visited⟩ := visited
  have named : ∀ first more resource, values = first :: more →
      scope.resource? name first = .ok resource → Names scope function args resource := by
    intro first more resource same known
    simp only [operandsOutcome, found] at resolved
    obtain ⟨_, _, there, value⟩ := (values_of_resolveFirst _ _ _ 0 _ _ resolved).2 first more same
    cases there
    obtain ⟨key, rfl, held⟩ := (Scope.resource?_eq_ok_iff scope name first resource).mp known
    exact ⟨x, rest, key, found, value, held⟩
  split at visited
  · obtain ⟨resource, known, rfl⟩ := (map_eq_ok_iff ..).mp visited
    obtain ⟨attributeName, declared, rfl⟩ := List.mem_map.mp member
    exact ⟨resource, named _ _ resource rfl known, rfl, declared⟩
  · obtain ⟨resource, known, rfl⟩ := (map_eq_ok_iff ..).mp visited
    rw [List.mem_singleton.mp member]
    exact ⟨resource, named _ _ resource rfl known, rfl,
      declared_of_valid valid reads _ found _ _ _ resource resolved known⟩
  · cases visited
    cases member

end Valid

/-! ## Valid trees -/

/-- A tree that passes validation names its parts right. -/
structure Valid (scope : Scope) (node : Node) : Prop where
  supported : ∀ name args memo, ¬ (Node.call .removed name args memo).Within node
  files : ∀ name args memo, (Node.call .getFile name args memo).Within node → args.isStatic = true →
    ∃ key text, (resolve scope args).value = .ok (.string key) ∧ scope.stack.file? key = some text
  resources : ∀ function name args memo, (Node.call function name args memo).Within node →
    function.refers = true → ∃ resource, Names scope function args resource

/-- These are the names of the resources that calls in the tree name, each once. -/
structure NamedIn (scope : Scope) (node : Node) (names : List String) : Prop where
  once : names.Nodup
  named : ∀ resourceName, resourceName ∈ names ↔ ∃ function name args memo resource,
    (Node.call function name args memo).Within node ∧ function.refers = true ∧
      Names scope function args resource ∧ resource.name = resourceName

/-- Each edge is there once, and leads to a declared attribute of a resource on the list. -/
structure DeclaredIn (scope : Scope) (names : List String) (edges : List AttributeDependency) :
    Prop where
  once : edges.Pairwise fun edge other => edge.same other = false
  listed : ∀ edge ∈ edges, edge.resource ∈ names
  declared : ∀ edge ∈ edges, ∃ key resource, scope.stack.resource? key = some resource ∧
    resource.name = edge.resource ∧ edge.attributeName ∈ resource.attributeNames

section Tree

variable {scope : Scope} {node : Node}
  (shaped : ∀ function name args memo, (Node.call function name args memo).Within node →
    function.refers = true → ∃ x rest, operands? function args = some (x :: rest))
  (valid : (validate scope node).2 = .ok ())

include valid in
theorem visits_of_valid (function : Intrinsic) (name : String) (args : Node) (memo : Option Json)
    (within : (Node.call function name args memo).Within node) :
    ∃ own, (validateCall scope function name args).2 = .ok own := by
  obtain ⟨found, done, _⟩ := (map_eq_ok_iff ..).mp valid
  rw [(walk_survey scope _ (steady_validateCall scope) node).1] at done
  exact (survey_ok_iff (validateCall scope) node).mp ⟨found, done⟩ _ within

include shaped valid

theorem valid_of_validate : Valid scope node := by
  constructor
  · intro name args memo within
    obtain ⟨own, visited⟩ := visits_of_valid valid .removed name args memo within
    cases visited
  · intro name args memo within static
    obtain ⟨own, visited⟩ := visits_of_valid valid .getFile name args memo within
    exact file_of_valid visited rfl static
  · intro function name args memo within refers
    obtain ⟨own, visited⟩ := visits_of_valid valid function name args memo within
    obtain ⟨x, rest, found⟩ := shaped function name args memo within refers
    exact names_of_valid visited refers x rest found

theorem origin_of_edge (all : List AttributeDependency)
    (surveyed : survey (attributesOfCall scope) node = .ok all) (edge : AttributeDependency)
    (member : edge ∈ all) :
    ∃ function name args memo resource, (Node.call function name args memo).Within node ∧
      function.refers = true ∧ Names scope function args resource ∧
      resource.name = edge.resource ∧ edge.attributeName ∈ resource.attributeNames := by
  obtain ⟨x, within, own, visited, present⟩ := (mem_survey _ node all surveyed edge).mp member
  cases x with
  | call function name args memo =>
    by_cases reading : function = .getAttr ∨ function = .getAttrAll
    · have refers : function.refers = true := by rcases reading with rfl | rfl <;> rfl
      obtain ⟨_, checked⟩ := visits_of_valid valid function name args memo within
      obtain ⟨x, rest, found⟩ := shaped function name args memo within refers
      obtain ⟨resource, held⟩ := edge_of_valid checked reading x rest found own visited edge present
      exact ⟨function, name, args, memo, resource, within, refers, held⟩
    · cases (attributesOfCall_apart function name args reading).symm.trans visited
      cases present
  | _ =>
    cases visited
    cases present

theorem edges_of_validate (names : List String) (named : NamedIn scope node names)
    (edges : List AttributeDependency)
    (reads : (attributeDependencies scope node).2 = .ok edges) : DeclaredIn scope names edges := by
  rw [attributeDependencies_eq, map_eq_ok_iff] at reads
  obtain ⟨all, surveyed, rfl⟩ := reads
  have origin := fun edge kept => origin_of_edge shaped valid all surveyed edge
    (mem_of_mem_firstSeen AttributeDependency.same all edge kept)
  refine ⟨pairwise_firstSeen _ all, fun edge member => ?_, fun edge member => ?_⟩
  · obtain ⟨function, name, args, memo, resource, within, refers, held, same, _⟩ :=
      origin edge member
    exact (named.named edge.resource).mpr
      ⟨function, name, args, memo, resource, within, refers, held, same⟩
  · obtain ⟨_, _, _, _, resource, _, _, ⟨_, _, key, _, _, there⟩, same, declared⟩ :=
      origin edge member
    exact ⟨key, resource, there, same, declared⟩

end Tree

theorem dependencies_of_valid (scope : Scope) (node : Node) (valid : Valid scope node) :
    ∃ names, (dependencies scope node).2 = .ok names ∧ NamedIn scope node names := by
  have visits : ∀ function name args memo, (Node.call function name args memo).Within node →
      ∃ own, (resourceOfCall scope function name args).2 = .ok own ∧
        ∀ resourceName, resourceName ∈ own ↔ ∃ resource, function.refers = true ∧
          Names scope function args resource ∧ resource.name = resourceName := by
    intro function name args memo within
    by_cases refers : function.refers = true
    · obtain ⟨resource, held⟩ := valid.resources function name args memo within refers
      refine ⟨[resource.name], resourceOfCall_of_names refers resource held, fun resourceName => ?_⟩
      rw [List.mem_singleton]
      constructor
      · rintro rfl
        exact ⟨resource, refers, held, rfl⟩
      · rintro ⟨other, _, again, rfl⟩
        rw [held.unique again]
    · exact ⟨[], resourceOfCall_apart function name args (by simpa using refers),
        fun resourceName => by simp [refers]⟩
  obtain ⟨all, surveyed⟩ := (survey_ok_iff (resourceOfCall scope) node).mpr (by
    intro x within
    cases x with
    | call function name args memo =>
      obtain ⟨own, visited, _⟩ := visits function name args memo within
      exact ⟨own, visited⟩
    | _ => exact ⟨[], rfl⟩)
  refine ⟨firstSeen (· == ·) all, by rw [dependencies_eq, surveyed]; rfl, nodup_firstSeen all, ?_⟩
  intro resourceName
  rw [mem_firstSeen_iff, mem_survey _ node all surveyed]
  constructor
  · rintro ⟨x, within, own, visited, present⟩
    cases x with
    | call function name args memo =>
      obtain ⟨known, again, spec⟩ := visits function name args memo within
      cases again.symm.trans visited
      obtain ⟨resource, named⟩ := (spec resourceName).mp present
      exact ⟨function, name, args, memo, resource, within, named⟩
    | _ =>
      cases visited
      cases present
  · rintro ⟨function, name, args, memo, resource, within, named⟩
    obtain ⟨own, visited, spec⟩ := visits function name args memo within
    exact ⟨_, within, own, visited, (spec resourceName).mpr ⟨resource, named⟩⟩

end Node

namespace Template

/-- A tree that passes validation, whatever it remembers, names its parts right; its dependencies
are the resources that it names, before and after validation; and if what it reads can be told at
all, it is declared by these. -/
theorem validation_sound (template : Template) (raw : Json) (parsed : Node)
    (read : Node.parse template.version raw = .ok parsed) (node : Node)
    (same : node.forget = parsed) (stack : Stack)
    (valid : (node.validate ⟨template.digests, stack⟩).2 = .ok ()) :
    node.Valid ⟨template.digests, stack⟩ ∧
      ∃ names, node.NamedIn ⟨template.digests, stack⟩ names ∧
        (node.dependencies ⟨template.digests, stack⟩).2 = .ok names ∧
        ((node.validate ⟨template.digests, stack⟩).1.dependencies ⟨template.digests, stack⟩).2 =
          .ok names ∧
        ∀ edges, (node.attributeDependencies ⟨template.digests, stack⟩).2 = .ok edges →
          Node.DeclaredIn ⟨template.digests, stack⟩ names edges := by
  have shaped : ∀ function name args memo, (Node.call function name args memo).Within node →
      function.refers = true → ∃ x rest, Node.operands? function args = some (x :: rest) := by
    intro function name args memo within refers
    have inParsed := Node.within_forget _ node within
    rw [same, Node.forget_call] at inParsed
    exact Node.operand_of_shape function args refers
      (Node.shape_of_parse template.version raw parsed read _ _ _ _ inParsed)
  have sound := Node.valid_of_validate shaped valid
  obtain ⟨names, listed, named⟩ := Node.dependencies_of_valid _ node sound
  have after : ((node.validate ⟨template.digests, stack⟩).1.dependencies
      ⟨template.digests, stack⟩).2 = (node.dependencies ⟨template.digests, stack⟩).2 := by
    have fuller := (Node.steady_walk ⟨template.digests, stack⟩ _
      (Node.steady_validateCall ⟨template.digests, stack⟩)).fuller node
    rw [Node.dependencies_eq, Node.dependencies_eq]
    exact congrArg _ (Node.survey_alike _ _ (Node.steady_resourceOfCall _) node _ fuller)
  exact ⟨sound, names, named, listed, after.trans listed, fun edges reads =>
    Node.edges_of_validate shaped valid names named edges reads⟩

def serverFacts : Json :=
  .list [.object [("get_file", .string "motd")],
    .object [("get_attr", .list [.string "server"])],
    .object [("get_attr", .list [.object [("get_param", .string "host")], .string "address"])]]

def serverFactsTree : Node :=
  .list [.call .getFile "get_file" (.literal (.string "motd")) none,
    .call .getAttrAll "get_attr" (.list [.literal (.string "server")]) none,
    .call .getAttrAll "get_attr"
      (.list [.call .getParam "get_param" (.literal (.string "host")) none,
        .literal (.string "address")]) none]

def serverWithMotd : Stack :=
  ⟨[("host", .string "server")],
    [("server", { Resource.created "server" with
      attributes := [("address", .string "10.0.0.2"), ("name", .string "blue")] })],
    [("motd", "welcome")], none⟩

theorem serverFacts_valid :
    Node.parse .v20161014 serverFacts = .ok serverFactsTree ∧
      serverFactsTree.forget = serverFactsTree ∧
      (serverFactsTree.validate ⟨[], serverWithMotd⟩).2 = .ok () ∧
      serverFactsTree.NamedIn ⟨[], serverWithMotd⟩ ["server"] ∧
      Node.DeclaredIn ⟨[], serverWithMotd⟩ ["server"]
        [⟨"server", "address", []⟩, ⟨"server", "name", []⟩] := by
  have read : Node.parse .v20161014 serverFacts = .ok serverFactsTree := rfl
  have fresh := Node.forget_parse .v20161014 serverFacts serverFactsTree read
  have valid : (serverFactsTree.validate ⟨[], serverWithMotd⟩).2 = .ok () := rfl
  obtain ⟨_, names, named, listed, _, declared⟩ := validation_sound ⟨.v20161014, []⟩ serverFacts
    serverFactsTree read serverFactsTree fresh serverWithMotd valid
  have only : (serverFactsTree.dependencies ⟨[], serverWithMotd⟩).2 = .ok ["server"] := rfl
  cases listed.symm.trans only
  exact ⟨read, fresh, valid, named, declared _ rfl⟩

end Template

end Orchestration
