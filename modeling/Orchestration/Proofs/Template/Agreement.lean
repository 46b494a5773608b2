import Orchestration.Json.Path
import Orchestration.Proofs.Template.Growth
import Orchestration.Proofs.Template.Surveys

/-!
# Calls on stacks that look alike

Two stacks may differ only in their resources.  `Stack.AgreeOn` says that they look alike at some
resources and attributes.  A call whose own references are among these comes to the same on both, if
the trees that it resolves do.
-/

set_option autoImplicit false

namespace Orchestration

/-! ## Equal paths lead to the same place -/

namespace Json

theorem step?_same (value key other : Json) (same : key.same other = true) :
    step? value key = step? value other := by
  have names : key.text? = other.text? ∧ key.position? = other.position? := by
    cases key <;> cases other <;> simp only [Json.same, Bool.false_eq_true, beq_iff_eq] at same
    case string.string s t => exact ⟨congrArg some same, by rw [same]⟩
    case number.number m n =>
      cases m <;> cases n <;> simp only [Number.same, Bool.false_eq_true, beq_iff_eq] at same
      · exact ⟨rfl, by rw [same]⟩
      · exact ⟨rfl, rfl⟩
    all_goals exact ⟨rfl, rfl⟩
  unfold step?
  rw [names.1, names.2]

theorem at?_sameItems (value : Json) (path other : List Json)
    (same : sameItems path other = true) : value.at? path = value.at? other := by
  induction path generalizing value other with
  | nil =>
    cases other with
    | nil => rfl
    | cons key rest => simp [sameItems] at same
  | cons key rest ih =>
    cases other with
    | nil => simp [sameItems] at same
    | cons key' rest' =>
      rw [sameItems, Bool.and_eq_true] at same
      rw [at?, at?, step?_same value key key' same.1]
      exact congrArg _ (funext fun next => ih next rest' same.2)

end Json

/-! ## Stacks that look alike -/

/-- Each resource is stored under its own name, and has no attribute twice. -/
structure Stack.Keyed (stack : Stack) : Prop where
  named : ∀ key resource, stack.resource? key = some resource → resource.name = key
  distinct : ∀ key resource, stack.resource? key = some resource →
    Entries.Distinct resource.attributes

theorem Stack.keyed_of_entries (stack : Stack)
    (each : ∀ entry ∈ stack.resources,
      entry.2.name = entry.1 ∧ Entries.Distinct entry.2.attributes) :
    stack.Keyed := by
  constructor
  · intro key resource found
    exact (each _ (Entries.mem_of_get? _ key resource found)).1
  · intro key resource found
    exact (each _ (Entries.mem_of_get? _ key resource found)).2

/-- The stacks differ in their resources at most. -/
structure Stack.SameSurroundings (stack other : Stack) : Prop where
  parameters : ∀ name, stack.parameter? name = other.parameter? name
  files : ∀ key, stack.file? key = other.file? key
  facade : stack.facade = other.facade

theorem Scope.finish_surroundings (digests : List String) {stack other : Stack}
    (surroundings : stack.SameSurroundings other) (function : Intrinsic) (name : String)
    (values : List Json) (apart : function.refers = false) :
    Scope.finish ⟨digests, stack⟩ function name values =
      Scope.finish ⟨digests, other⟩ function name values := by
  by_cases blind : function.readsStack = false
  · exact Scope.finish_congr digests stack other function name values blind
  cases function with
  | getParam =>
    rcases values with _ | ⟨operand, _ | _⟩
    · rfl
    · simp only [Scope.finish, Scope.parameter_eq, surroundings.parameters]
    · rfl
  | getFile =>
    rcases values with _ | ⟨operand, _ | _⟩
    · rfl
    · cases operand <;> simp [Scope.finish, Scope.file, surroundings.files]
    · rfl
  | resourceFacade =>
    rcases values with _ | ⟨operand, _ | _⟩
    · rfl
    · simp only [Scope.finish, Scope.facadePart, surroundings.facade]
    · rfl
  | getResource | getAttr | getAttrAll => simp [Intrinsic.refers] at apart
  | _ => exact absurd rfl blind

/-- The resources look the same, apart from the values of their attributes. -/
structure Resource.LooksLike (resource other : Resource) : Prop where
  progress : resource.progress = other.progress
  referenceId : resource.referenceId = other.referenceId
  attributeNames : resource.attributeNames = other.attributeNames

/-- The stacks look alike at these resources and attributes. -/
structure Stack.AgreeOn (stack other : Stack) (names : List String)
    (attributes : List AttributeDependency) : Prop where
  resources : ∀ name ∈ names, ∀ resource, stack.resource? name = some resource →
    ∃ twin, other.resource? name = some twin ∧ resource.LooksLike twin
  lookups : ∀ dependency ∈ attributes, ∀ resource twin,
    stack.resource? dependency.resource = some resource →
    other.resource? dependency.resource = some twin →
    resource.attribute? dependency.attributeName dependency.path =
      twin.attribute? dependency.attributeName dependency.path

theorem Stack.AgreeOn.mono (stack other : Stack) (names fewer : List String)
    (attributes less : List AttributeDependency) (agree : stack.AgreeOn other names attributes)
    (namesIn : fewer ⊆ names) (attributesIn : less ⊆ attributes) :
    stack.AgreeOn other fewer less :=
  ⟨fun name member => agree.resources name (namesIn member),
    fun dependency member => agree.lookups dependency (attributesIn member)⟩

theorem Stack.AgreeOn.of_firstSeen (stack other : Stack) (names : List String)
    (attributes : List AttributeDependency)
    (agree : stack.AgreeOn other (firstSeen (· == ·) names)
      (firstSeen AttributeDependency.same attributes)) :
    stack.AgreeOn other names attributes := by
  constructor
  · intro name member
    rcases covered_firstSeen _ names name member with kept | ⟨first, kept, equal⟩
    · exact agree.resources name kept
    · exact agree.resources name (eq_of_beq equal ▸ kept)
  · intro dependency member resource twin found foundTwin
    rcases covered_firstSeen _ attributes dependency member with kept | ⟨first, kept, equal⟩
    · exact agree.lookups dependency kept resource twin found foundTwin
    · simp only [AttributeDependency.same, Bool.and_eq_true, beq_iff_eq] at equal
      obtain ⟨⟨sameResource, sameName⟩, samePath⟩ := equal
      have lookup := agree.lookups first kept resource twin (sameResource ▸ found)
        (sameResource ▸ foundTwin)
      simp only [Resource.attribute?, sameName] at lookup ⊢
      simpa only [Json.at?_sameItems _ _ _ samePath] using lookup

theorem Resource.attributes_eq (resource twin : Resource)
    (distinct : Entries.Distinct resource.attributes)
    (names : resource.attributeNames = twin.attributeNames)
    (values : ∀ name ∈ resource.attributeNames,
      resource.attribute? name [] = twin.attribute? name []) :
    resource.attributes = twin.attributes := by
  refine Entries.ext_of_keys _ _ names distinct ?_
  intro name member
  have value := values name member
  simpa [Resource.attribute?] using value

namespace Node

/-! ## Calls that name a resource -/

theorem reference_value (scope : Scope) (function : Intrinsic) (name : String) (count : Nat)
    (args : Node) (nodes : List Node) (refers : function.refers = true)
    (alone : function = .getResource → count = 1) (found : operands? function args = some nodes) :
    (reference scope function name count args).value =
      (resolveFirst scope (scope.accept function name) 0 count nodes).outcome.2 := by
  cases function with
  | getResource =>
    have outcome := congrArg Prod.snd (outcome_operandsStep scope .getResource name args)
    simp only [operandsOutcome, found] at outcome
    cases found
    rw [alone rfl]
    exact outcome
  | getAttr | getAttrAll =>
    cases args with
    | list items =>
      cases found
      rfl
    | _ => simp [operands?, Intrinsic.operands] at found
  | _ => simp [Intrinsic.refers] at refers

theorem resourceOfCall_eq (scope : Scope) (function : Intrinsic) (name : String) (args : Node)
    (nodes : List Node) (refers : function.refers = true)
    (found : operands? function args = some nodes) :
    (resourceOfCall scope function name args).2 =
      (resolveFirst scope (scope.accept function name) 0 1 nodes).outcome.2.bind fun values =>
        match values with
        | resource :: _ => (scope.resource? name resource).map fun resource => [resource.name]
        | [] => .ok [] := by
  rw [← reference_value scope function name 1 args nodes refers (fun _ => rfl) found]
  cases function with
  | getResource | getAttr | getAttrAll => rfl
  | _ => simp [Intrinsic.refers] at refers

theorem resourceOfCall_apart {scope : Scope} (function : Intrinsic) (name : String) (args : Node)
    (apart : function.refers = false) : (resourceOfCall scope function name args).2 = .ok [] := by
  cases function with
  | getResource | getAttr | getAttrAll => cases apart
  | _ => rfl

theorem attributesOfCall_apart {scope : Scope} (function : Intrinsic) (name : String) (args : Node)
    (apart : ¬ (function = .getAttr ∨ function = .getAttrAll)) :
    (attributesOfCall scope function name args).2 = .ok [] := by
  cases function with
  | getAttr => exact absurd (.inl rfl) apart
  | getAttrAll => exact absurd (.inr rfl) apart
  | _ => rfl

theorem resource_of_visit (scope : Scope) (function : Intrinsic) (name : String) (args x : Node)
    (rest : List Node) (names : List String) (value : Json) (refers : function.refers = true)
    (found : operands? function args = some (x :: rest))
    (visited : (resourceOfCall scope function name args).2 = .ok names)
    (resolved : (resolve scope x).value = .ok value) :
    ∃ resource, scope.resource? name value = .ok resource ∧ names = [resource.name] := by
  rw [resourceOfCall_eq scope function name args _ refers found, outcome_resolveFirst_cons,
    resolved, outcome_resolveFirst_zero] at visited
  cases accepted : scope.accept function name 0 value with
  | error e => simp [accepted, Except.bind, Except.map] at visited
  | ok _ =>
    cases known : scope.resource? name value with
    | error e =>
      simp [accepted, known, Except.bind, Except.map] at visited
    | ok resource =>
      simp only [accepted, known, Except.bind, Except.map, Except.ok.injEq] at visited
      exact ⟨resource, rfl, visited.symm⟩

theorem attributesOfCall_eq (scope : Scope) (function : Intrinsic) (name : String) (args : Node)
    (nodes : List Node) (reads : function = .getAttr ∨ function = .getAttrAll)
    (found : operands? function args = some nodes) :
    (attributesOfCall scope function name args).2 =
      (operandsOutcome scope function name args).2.bind fun values =>
        match values with
        | [resource] => (scope.resource? name resource).map fun resource =>
            resource.attributeNames.map fun attributeName => ⟨resource.name, attributeName, []⟩
        | resource :: .string attributeName :: path =>
          (scope.resource? name resource).map fun resource => [⟨resource.name, attributeName, path⟩]
        | _ => .ok [] := by
  rcases reads with rfl | rfl
  all_goals
    cases args with
    | list items =>
      simp only [operandsOutcome, found]
      cases found
      rfl
    | _ => simp [operands?, Intrinsic.operands] at found

theorem attributeValue_agree (resource twin : Resource) (rest : List Json)
    (alike : resource.LooksLike twin) (distinct : Entries.Distinct resource.attributes)
    (named : ∀ head path, rest = head :: path → ∃ attributeName, head = .string attributeName)
    (one : ∀ attributeName path, rest = .string attributeName :: path →
      resource.attribute? attributeName path = twin.attribute? attributeName path)
    (all : rest = [] → ∀ attributeName ∈ resource.attributeNames,
      resource.attribute? attributeName [] = twin.attribute? attributeName []) :
    Scope.attributeValue resource rest = Scope.attributeValue twin rest := by
  have readable : resource.readable = twin.readable := by
    rw [Resource.readable, Resource.readable, alike.progress]
  unfold Scope.attributeValue
  rw [readable]
  cases rest with
  | nil => rw [resource.attributes_eq twin distinct alike.attributeNames (all rfl)]
  | cons head path =>
    obtain ⟨attributeName, rfl⟩ := named head path rfl
    simp only [one attributeName path rfl]

section Call

variable {digests : List String} {stack other : Stack} {function : Intrinsic} {name : String}
  {args : Node} {names : List String} {attributes : List AttributeDependency}
  (keyed : stack.Keyed) (twinsKeyed : other.Keyed) (surroundings : stack.SameSurroundings other)
  (visitedNames : (resourceOfCall ⟨digests, stack⟩ function name args).2 = .ok names)
  (visitedAttributes : (attributesOfCall ⟨digests, stack⟩ function name args).2 = .ok attributes)
  (agree : stack.AgreeOn other names attributes)
  (each : ∀ x ∈ args :: args.parts,
    (resolve ⟨digests, stack⟩ x).outcome = (resolve ⟨digests, other⟩ x).outcome)

include keyed visitedNames agree in
theorem twin_of_visit (x : Node) (rest : List Node) (value : Json) (refers : function.refers = true)
    (found : operands? function args = some (x :: rest))
    (resolved : (resolve ⟨digests, stack⟩ x).value = .ok value) :
    ∃ resource twin, Scope.resource? ⟨digests, stack⟩ name value = .ok resource ∧
      Scope.resource? ⟨digests, other⟩ name value = .ok twin ∧ resource.LooksLike twin ∧
      stack.resource? resource.name = some resource ∧ other.resource? resource.name = some twin ∧
      names = [resource.name] := by
  obtain ⟨resource, known, rfl⟩ := resource_of_visit ⟨digests, stack⟩ function name args x rest
    names value refers found visitedNames resolved
  cases value with
  | string key =>
    simp only [Scope.resource?] at known ⊢
    cases held : stack.resource? key with
    | none => simp [held] at known
    | some resource' =>
      simp only [held, Except.ok.injEq] at known
      subst known
      have sameName := keyed.named key resource' held
      rw [sameName] at agree ⊢
      obtain ⟨twin, heldTwin, alike⟩ :=
        agree.resources key (List.mem_singleton.mpr rfl) resource' held
      exact ⟨resource', twin, rfl, by rw [heldTwin], alike, by rw [sameName, held],
        by rw [sameName, heldTwin], by rw [sameName]⟩
  | _ => simp [Scope.resource?] at known

include keyed visitedNames agree in
theorem twin_of_first (nodes : List Node) (count : Nat) (first : Json) (rest : List Json)
    (refers : function.refers = true) (found : operands? function args = some nodes)
    (resolved : (resolveFirst ⟨digests, stack⟩ (Scope.accept ⟨digests, stack⟩ function name) 0 count
      nodes).outcome.2 = .ok (first :: rest)) :
    ∃ resource twin, Scope.resource? ⟨digests, stack⟩ name first = .ok resource ∧
      Scope.resource? ⟨digests, other⟩ name first = .ok twin ∧ resource.LooksLike twin ∧
      stack.resource? resource.name = some resource ∧ other.resource? resource.name = some twin ∧
      names = [resource.name] := by
  obtain ⟨x, others, rfl, value⟩ :=
    (values_of_resolveFirst _ _ nodes 0 count _ resolved).2 first rest rfl
  exact twin_of_visit keyed visitedNames agree x others first refers found value

include keyed visitedNames agree each in
theorem operands_agree (nodes : List Node) (found : operands? function args = some nodes)
    (count : Nat) :
    (resolveFirst ⟨digests, stack⟩ (Scope.accept ⟨digests, stack⟩ function name) 0 count
        nodes).outcome =
      (resolveFirst ⟨digests, other⟩ (Scope.accept ⟨digests, other⟩ function name) 0 count
        nodes).outcome := by
  apply outcome_resolveFirst_congr
  · exact List.forall₂_same.mpr fun x member =>
      each x (mem_of_operands? function args nodes found x member)
  · intro i x value present resolved
    rw [Nat.zero_add]
    -- Of all checks only that of the first operand looks at the stack.
    apply Scope.accept_congr
    · intro reference
      subst reference
      cases found
      have bound := (List.getElem?_eq_some_iff.mp present).1
      simpa using bound
    · intro refers start
      subst start
      cases nodes with
      | nil => simp at present
      | cons first rest =>
        cases present
        obtain ⟨resource, twin, known, knownTwin, _⟩ :=
          twin_of_visit keyed visitedNames agree _ rest value refers found resolved
        rw [known, knownTwin]
        rfl

include keyed visitedNames agree each in
theorem operandsOutcome_agree :
    operandsOutcome ⟨digests, stack⟩ function name args =
      operandsOutcome ⟨digests, other⟩ function name args := by
  unfold operandsOutcome
  cases found : operands? function args with
  | none => rfl
  | some nodes =>
    exact operands_agree keyed visitedNames agree each nodes found nodes.length

include keyed visitedNames visitedAttributes agree in
theorem finish_attributes_agree (reads : function = .getAttr ∨ function = .getAttrAll)
    (first : Json) (rest : List Json)
    (resolved : (operandsOutcome ⟨digests, stack⟩ function name args).2 = .ok (first :: rest)) :
    (Scope.resource? ⟨digests, stack⟩ name first).map (Scope.attributeValue · rest) =
      (Scope.resource? ⟨digests, other⟩ name first).map (Scope.attributeValue · rest) := by
  have refers : function.refers = true := by rcases reads with rfl | rfl <;> rfl
  cases found : operands? function args with
  | none => simp [operandsOutcome, found] at resolved
  | some nodes =>
    have visited := visitedAttributes
    rw [attributesOfCall_eq _ function name args nodes reads found, resolved] at visited
    simp only [operandsOutcome, found] at resolved
    have checks := (values_of_resolveFirst _ _ nodes 0 _ _ resolved).1
    obtain ⟨resource, twin, known, knownTwin, alike, held, heldTwin, _⟩ :=
      twin_of_first keyed visitedNames agree nodes _ first rest refers found resolved
    rw [known, knownTwin]
    refine congrArg Except.ok (attributeValue_agree resource twin rest alike
      (keyed.distinct _ _ held) ?_ ?_ ?_)
    · -- The second operand passed its check, so it is a string and the visit found its attribute.
      intro head path same
      subst same
      have accepted := checks 1 head rfl
      rcases reads with rfl | rfl <;> cases head <;> simp [Scope.accept] at accepted ⊢
    · intro attributeName path same
      subst same
      simp only [Except.bind, known, Except.map, Except.ok.injEq] at visited
      exact agree.lookups ⟨resource.name, attributeName, path⟩ (by simp [← visited]) resource twin
        held heldTwin
    · -- Without a second operand the visit found every attribute that is declared.
      intro same attributeName member
      subst same
      simp only [Except.bind, known, Except.map, Except.ok.injEq] at visited
      refine agree.lookups ⟨resource.name, attributeName, []⟩ ?_ resource twin held heldTwin
      rw [← visited]
      exact List.mem_map.mpr ⟨attributeName, member, rfl⟩

include keyed surroundings visitedNames visitedAttributes agree in
theorem finish_agree (values : List Json)
    (resolved : (operandsOutcome ⟨digests, stack⟩ function name args).2 = .ok values) :
    Scope.finish ⟨digests, stack⟩ function name values =
      Scope.finish ⟨digests, other⟩ function name values := by
  cases refers : function.refers with
  | false => exact Scope.finish_surroundings digests surroundings function name values refers
  | true =>
    cases function with
    | getResource =>
      rcases values with _ | ⟨operand, _ | _⟩
      · rfl
      · obtain ⟨resource, twin, known, knownTwin, alike, _⟩ :=
          twin_of_first keyed visitedNames agree [args] 1 operand [] rfl rfl resolved
        simp only [Scope.finish, known, knownTwin, Except.map, alike.referenceId, Resource.readable,
          alike.progress]
      · rfl
    | getAttr | getAttrAll =>
      cases values with
      | nil => rfl
      | cons first rest =>
        exact finish_attributes_agree keyed visitedNames visitedAttributes agree (by simp) first
          rest
          resolved
    | _ => simp [Intrinsic.refers] at refers

include keyed surroundings visitedNames visitedAttributes agree each in
theorem outcome_call_agree :
    (resolve ⟨digests, stack⟩ (.call function name args none)).outcome =
      (resolve ⟨digests, other⟩ (.call function name args none)).outcome := by
  rw [outcome_call, outcome_call, ← operandsOutcome_agree keyed visitedNames agree each]
  cases found : operandsOutcome ⟨digests, stack⟩ function name args with
  | mk ready answer =>
    cases answer with
    | error e => rfl
    | ok values =>
      simp only [finish_agree keyed surroundings visitedNames visitedAttributes agree values
        (by rw [found])]

include visitedNames in
theorem operands_of_visit (refers : function.refers = true) :
    ∃ nodes, operands? function args = some nodes := by
  cases function with
  | getResource => exact ⟨[args], rfl⟩
  | getAttr | getAttrAll =>
    cases args with
    | list items => exact ⟨items, rfl⟩
    | _ =>
      simp [resourceOfCall, reference, Intrinsic.operands, resolveItems, Except.bind]
        at visitedNames
  | _ => simp [Intrinsic.refers] at refers

include keyed twinsKeyed visitedNames agree each in
theorem resourceOfCall_agree :
    (resourceOfCall ⟨digests, other⟩ function name args).2 = .ok names := by
  by_cases refers : function.refers = true
  · obtain ⟨nodes, found⟩ := operands_of_visit visitedNames refers
    have visited := visitedNames
    rw [resourceOfCall_eq _ function name args nodes refers found] at visited ⊢
    rw [← operands_agree keyed visitedNames agree each nodes found 1]
    cases resolved : (resolveFirst ⟨digests, stack⟩ (Scope.accept ⟨digests, stack⟩ function name)
      0 1 nodes).outcome.2 with
    | error e => simp [resolved, Except.bind] at visited
    | ok values =>
      rw [resolved] at visited
      cases values with
      | nil => exact visited
      | cons first rest =>
        obtain ⟨resource, twin, known, knownTwin, alike, held, heldTwin, same⟩ :=
          twin_of_first keyed visitedNames agree nodes 1 first rest refers found resolved
        simp only [Except.bind, knownTwin, Except.map, twinsKeyed.named _ _ heldTwin, same]
  · cases function with
    | getResource | getAttr | getAttrAll => exact absurd rfl refers
    | _ => exact visitedNames

include keyed twinsKeyed visitedNames visitedAttributes agree each in
theorem attributesOfCall_agree :
    (attributesOfCall ⟨digests, other⟩ function name args).2 = .ok attributes := by
  by_cases reads : function = .getAttr ∨ function = .getAttrAll
  · have refers : function.refers = true := by rcases reads with rfl | rfl <;> rfl
    obtain ⟨nodes, found⟩ := operands_of_visit visitedNames refers
    have visited := visitedAttributes
    rw [attributesOfCall_eq _ function name args nodes reads found] at visited ⊢
    rw [← operandsOutcome_agree keyed visitedNames agree each]
    cases resolved : (operandsOutcome ⟨digests, stack⟩ function name args).2 with
    | error e => simp [resolved, Except.bind] at visited
    | ok values =>
      rw [resolved] at visited
      cases values with
      | nil => exact visited
      | cons first rest =>
        simp only [operandsOutcome, found] at resolved
        obtain ⟨resource, twin, known, knownTwin, alike, held, heldTwin, same⟩ :=
          twin_of_first keyed visitedNames agree nodes _ first rest refers found resolved
        have sameName := twinsKeyed.named _ _ heldTwin
        rw [← visited]
        cases rest with
        | nil =>
          simp only [Except.bind, known, knownTwin, Except.map, sameName, alike.attributeNames]
        | cons head path =>
          cases head with
          | string attributeName =>
            simp only [Except.bind, known, knownTwin, Except.map, sameName]
          | _ => rfl
  · cases function with
    | getAttr => exact absurd (.inl rfl) reads
    | getAttrAll => exact absurd (.inr rfl) reads
    | _ => exact visitedAttributes

end Call

end Node

end Orchestration
