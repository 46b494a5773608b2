import Orchestration.Proofs.Template.Sessions
import Orchestration.Proofs.Template.Widening

/-!
# The newer version extends the older one

A template of the older version that has no map with one entry by the name of an added function is
read by the newer version as the widened tree.  In a session whose questions are all answered, the
two trees give the same answers, and in the end they remember the same.
-/

set_option autoImplicit false

namespace Orchestration

namespace Node

/-! ## Questions -/

theorem stepAt_widened {β : Type} (act wider : Node → Node × β) (good : β → Prop)
    (carries : ∀ x, good (act x).2 → wider x.widened = ((act x).1.widened, (act x).2))
    (path : List Json) (node : Node)
    (fine : ∀ answer, (stepAt act path node).map Prod.snd = some answer → good answer) :
    stepAt wider path node.widened =
      (stepAt act path node).map fun reached => (reached.1.widened, reached.2) := by
  fun_induction stepAt act path node with
  | case1 node => simp [stepAt, carries node (fine _ rfl)]
  | case2 key path entries missing => simp [stepAt, Entries.get?_mapValues, missing]
  | case3 key path entries x found ih =>
    have below := ih fun answer found => fine answer (by rw [Option.map_map]; exact found)
    simp only [widened_map, stepAt, Entries.get?_mapValues, found, Option.map_some, below,
      Option.map_map]
    congr 1
    funext reached
    simp [Entries.mapValues_put]
  | case4 i path items negative => simp [stepAt, negative]
  | case5 i path items notNegative missing => simp [stepAt, notNegative, missing]
  | case6 i path items notNegative x found ih =>
    have below := ih fun answer found => fine answer (by rw [Option.map_map]; exact found)
    simp only [widened_list, stepAt, if_neg notNegative, List.getElem?_map, found, Option.map_some,
      below, Option.map_map]
    congr 1
    funext reached
    simp [List.map_set]
  | case7 path function name args memo ih =>
    have below := ih fun answer found => fine answer (by rw [Option.map_map]; exact found)
    simp only [widened_call, stepAt, below, Option.map_map, Function.comp_def]
  | case8 path node notEmpty notKey notPosition notArgs =>
    have nowhere : stepAt wider path node.widened = none := by
      rw [stepAt]
      · exact notEmpty
      · rintro key rest entries rfl form
        cases node <;> simp at form
        exact notKey key rest _ rfl rfl
      · rintro i rest items rfl form
        cases node <;> simp at form
        exact notPosition i rest _ rfl rfl
      · rintro rest function name args memo rfl form
        cases node <;> simp at form
        exact notArgs rest _ _ _ _ rfl rfl
    rw [nowhere]
    rfl

end Node

/-- The question was answered without an error, also where there is no node at its path. -/
def Answer.succeeded : Answer → Bool
  | .noNode => true
  | .value result => result.isOk
  | .valid result => result.isOk
  | .resources result => result.isOk
  | .attributes result => result.isOk

namespace Node

theorem askAt_widened (act wider : Node → Node × Answer)
    (carries : ∀ x, (act x).2.succeeded = true →
      wider x.widened = ((act x).1.widened, (act x).2))
    (path : List Json) (node : Node) (good : (askAt act path node).2.succeeded = true) :
    askAt wider path node.widened =
      ((askAt act path node).1.widened, (askAt act path node).2) := by
  have carried := stepAt_widened act wider (fun answer => answer.succeeded = true) carries path node
  unfold askAt at good ⊢
  cases here : stepAt act path node with
  | none =>
    rw [here] at carried
    rw [carried (by simp)]
    rfl
  | some reached =>
    rw [here] at carried good
    rw [carried (by rintro answer ⟨⟩; exact good)]
    rfl

theorem ask_widened (scope : Scope) (question : Question) (node : Node)
    (good : (ask scope question node).2.succeeded = true) :
    ask scope question node.widened =
      ((ask scope question node).1.widened, (ask scope question node).2) := by
  cases question with
  | resolve path =>
    refine askAt_widened _ _ ?_ path node good
    intro x resolved
    obtain ⟨value, done⟩ := (isOk_iff _).mp resolved
    rw [resolve_widened scope x value done, done]
  | validate path =>
    refine askAt_widened _ _ ?_ path node good
    intro x valid
    obtain ⟨_, done⟩ := (isOk_iff _).mp valid
    obtain ⟨found, done, _⟩ := (map_eq_ok_iff _ _ _).mp done
    have visited := walk_widened _ _ (validateCall_widened scope) x found done
    simp only [validate, visited, done]
  | dependencies =>
    obtain ⟨_, done⟩ := (isOk_iff _).mp good
    obtain ⟨found, done, _⟩ := (map_eq_ok_iff _ _ _).mp done
    have visited := walk_widened _ _ (resourceOfCall_widened scope) node found done
    simp only [ask, dependencies, visited, done]
  | attributeDependencies =>
    obtain ⟨_, done⟩ := (isOk_iff _).mp good
    obtain ⟨found, done, _⟩ := (map_eq_ok_iff _ _ _).mp done
    have visited := walk_widened _ _ (attributesOfCall_widened scope) node found done
    simp only [ask, attributeDependencies, visited, done]
  | attributeDependenciesOn resource =>
    obtain ⟨_, done⟩ := (isOk_iff _).mp good
    obtain ⟨_, done, _⟩ := (map_eq_ok_iff _ _ _).mp done
    obtain ⟨found, done, _⟩ := (map_eq_ok_iff _ _ _).mp done
    have visited := walk_widened _ _ (attributesOfCall_widened scope) node found done
    simp only [ask, attributeDependenciesOn, attributeDependencies, visited, done]

/-! ## Parsing -/

theorem shapeFault?_widened (function : Intrinsic) (args : Node)
    (possible : shapeFault? function args = none) :
    shapeFault? function.widened args.widened = none := by
  cases function with
  | getAttr | getAttrAll | join | joinMultiple | equals =>
    cases args with
    | list items =>
      rcases items with _ | ⟨x, _ | ⟨y, _ | ⟨z, rest⟩⟩⟩ <;>
        simp_all [shapeFault?, Intrinsic.widened]
    | _ => simp [shapeFault?] at possible
  | replace | replaceJson =>
    cases args with
    | map entries =>
      simp only [shapeFault?, Intrinsic.widened, widened_map, Entries.get?_mapValues] at possible ⊢
      cases params : Entries.get? entries "params" with
      | none => simp [params] at possible
      | some params' =>
        cases template : Entries.get? entries "template" with
        | none => simp [params, template] at possible
        | some template' => cases params' <;> simp_all
    | _ => simp [shapeFault?] at possible
  | repeatList | repeatWithMap =>
    cases args with
    | map entries =>
      simp only [shapeFault?, Intrinsic.widened, widened_map, Entries.get?_mapValues] at possible ⊢
      cases forEach : Entries.get? entries "for_each" with
      | none => simp [forEach] at possible
      | some forEach' =>
        cases template : Entries.get? entries "template" with
        | none => simp [forEach, template] at possible
        | some template' => simp
    | _ => simp [shapeFault?] at possible
  | strSplit => cases args <;> simp_all [shapeFault?, Intrinsic.widened]
  | resourceFacade => cases args <;> simp_all [shapeFault?, Intrinsic.widened]
  | _ => rfl

theorem parseItems_widened (raw : List Json) (items : List Node)
    (each : ∀ x ∈ raw, ∀ node, parse .v20150430 x = .ok node →
      parse .v20161014 x = .ok node.widened)
    (read : parseItems .v20150430 raw = .ok items) :
    parseItems .v20161014 raw = .ok (items.map widened) := by
  induction raw generalizing items with
  | nil =>
    simp only [parseItems, Except.ok.injEq] at read ⊢
    simp [← read]
  | cons x rest ih =>
    simp only [parseItems, bind, bind_eq_ok_iff] at read ⊢
    obtain ⟨node, first, nodes, more, done⟩ := read
    cases done
    exact ⟨node.widened, each x (List.mem_cons_self ..) node first, nodes.map widened,
      ih nodes (fun y member => each y (List.mem_cons_of_mem _ member)) more, rfl⟩

theorem parseEntries_widened (entries : List (String × Json)) (nodes : List (String × Node))
    (each : ∀ x ∈ entries.map Prod.snd, ∀ node, parse .v20150430 x = .ok node →
      parse .v20161014 x = .ok node.widened)
    (read : parseEntries .v20150430 entries = .ok nodes) :
    parseEntries .v20161014 entries = .ok (Entries.mapValues widened nodes) := by
  rw [parseEntries_eq] at read ⊢
  obtain ⟨items, parsed, rfl⟩ := (map_eq_ok_iff _ _ _).mp read
  rw [parseItems_widened _ items each parsed, Entries.mapValues_zip]
  rfl

theorem parse_widened (raw : Json) (plain : ∀ name ∈ raw.loneKeys, name ∉ Version.addedNames)
    (node : Node) (read : parse .v20150430 raw = .ok node) :
    parse .v20161014 raw = .ok node.widened := by
  induction raw using Json.parts_induction generalizing node with
  | list items ih =>
    have below := fun x member inner found => ih x member
      (fun name lone => plain name (Json.loneKeys_item items x member lone)) inner found
    simp only [parse] at read ⊢
    obtain ⟨nodes, parsed, rfl⟩ := (map_eq_ok_iff _ _ _).mp read
    rw [parseItems_widened items nodes below parsed, widened_list]
    rfl
  | object entries ih =>
    have below := fun x member inner found => ih x member
      (fun name lone => plain name (Json.loneKeys_entry entries x member lone)) inner found
    have asMap : (parseEntries .v20150430 entries).map Node.map = .ok node →
        (parseEntries .v20161014 entries).map Node.map = .ok node.widened := by
      intro read
      obtain ⟨nodes, parsed, rfl⟩ := (map_eq_ok_iff _ _ _).mp read
      rw [parseEntries_widened _ nodes below parsed, widened_map]
      rfl
    rcases entries with _ | ⟨⟨name, value⟩, _ | ⟨second, rest⟩⟩
    · simp only [parse] at read ⊢
      exact asMap read
    · have inside := below value (List.mem_singleton.mpr rfl)
      simp only [parse] at read ⊢
      cases known : Version.v20150430.function? name with
      | some function =>
        rw [Version.function?_widened name function known]
        cases first : parse .v20150430 value with
        | error e => simp [known, first, bind, Except.bind] at read
        | ok args =>
          simp only [known, first, bind, Except.bind, ofCall] at read
          cases shape : shapeFault? function args with
          | some fault => simp [shape] at read
          | none =>
            simp only [shape, Except.ok.injEq] at read
            simp only [inside args first, bind, Except.bind, ofCall,
              shapeFault?_widened function args shape, ← read, widened_call]
      | none =>
        have lone : name ∈ (Json.object [(name, value)]).loneKeys := by simp [Json.loneKeys]
        rw [Version.function?_of_not_added name (plain name lone) known]
        simp only [known] at read
        obtain ⟨inner, first, rfl⟩ := (map_eq_ok_iff _ _ _).mp read
        simp [inside inner first, Except.map]
    · simp only [parse] at read ⊢
      exact asMap read
  | _ =>
    simp only [parse, Except.ok.injEq] at read ⊢
    rw [← read, widened_literal]

end Node

/-! ## Sessions -/

namespace Template

def treeAfter (template : Template) : Stack → Node → List SessionEvent → Node
  | _, node, [] => node
  | _, node, .change next :: rest => template.treeAfter next node rest
  | stack, node, .ask question :: rest =>
    template.treeAfter stack (node.ask ⟨template.digests, stack⟩ question).1 rest

theorem answers_widened (digests : List String) (stack : Stack) (node : Node)
    (events : List SessionEvent)
    (good : ∀ answer ∈ answers ⟨.v20150430, digests⟩ stack node events, answer.succeeded = true) :
    answers ⟨.v20161014, digests⟩ stack node.widened events =
        answers ⟨.v20150430, digests⟩ stack node events ∧
      treeAfter ⟨.v20161014, digests⟩ stack node.widened events =
        (treeAfter ⟨.v20150430, digests⟩ stack node events).widened := by
  induction events generalizing stack node with
  | nil => exact ⟨rfl, rfl⟩
  | cons event rest ih =>
    cases event with
    | change next => exact ih next node good
    | ask question =>
      simp only [answers, List.forall_mem_cons] at good
      obtain ⟨first, later⟩ := good
      obtain ⟨sameAnswers, sameTree⟩ := ih stack _ later
      have asked := Node.ask_widened ⟨digests, stack⟩ question node first
      simp only [answers, treeAfter, asked]
      exact ⟨congrArg _ sameAnswers, sameTree⟩

/-- A template of the older version that calls nothing by the names of added functions is one of
the newer version.  As long as its questions are answered, both versions give the same answers, and
the trees remember the same. -/
theorem newer_version_extends (digests : List String) (raw : Json)
    (plain : ∀ name ∈ raw.loneKeys, name ∉ Version.addedNames) (node : Node)
    (read : Node.parse .v20150430 raw = .ok node) :
    Node.parse .v20161014 raw = .ok node.widened ∧
      ∀ (stack : Stack) (events : List SessionEvent),
        (∀ answer ∈ answers ⟨.v20150430, digests⟩ stack node events, answer.succeeded = true) →
        answers ⟨.v20161014, digests⟩ stack node.widened events =
            answers ⟨.v20150430, digests⟩ stack node events ∧
          treeAfter ⟨.v20161014, digests⟩ stack node.widened events =
            (treeAfter ⟨.v20150430, digests⟩ stack node events).widened :=
  ⟨Node.parse_widened raw plain node read, fun stack events => answers_widened digests stack node
    events⟩

def addressAndSize : Json :=
  .object [("list_join", .list [.string ", ", .list
    [.object [("get_attr", .list [.string "server", .string "address"])],
      .object [("str_replace", .object [("template", .string "n GB"), ("params", .object
        [("n", .object [("get_attr", .list [.string "volume", .string "size"])])])])]]])]

def addressAndSizeTree : Node :=
  .call .join "list_join" (.list [.literal (.string ", "), .list
    [.call .getAttr "get_attr"
        (.list [.literal (.string "server"), .literal (.string "address")]) none,
      .call .replace "str_replace" (.map [("template", .literal (.string "n GB")), ("params", .map
        [("n", .call .getAttr "get_attr"
          (.list [.literal (.string "volume"), .literal (.string "size")]) none)])]) none]]) none

def asServerComesUp : List SessionEvent :=
  [.ask (.resolve []), .change volumeAndServer, .ask (.validate []), .ask .dependencies,
    .ask .attributeDependencies, .ask (.resolve [])]

theorem addressAndSize_extended :
    (∀ name ∈ addressAndSize.loneKeys, name ∉ Version.addedNames) ∧
      Node.parse .v20150430 addressAndSize = .ok addressAndSizeTree ∧
      (∀ answer ∈ answers ⟨.v20150430, []⟩ volumeOnly addressAndSizeTree asServerComesUp,
        answer.succeeded = true) ∧
      Node.parse .v20161014 addressAndSize = .ok addressAndSizeTree.widened ∧
      answers ⟨.v20161014, []⟩ volumeOnly addressAndSizeTree.widened asServerComesUp =
        answers ⟨.v20150430, []⟩ volumeOnly addressAndSizeTree asServerComesUp ∧
      treeAfter ⟨.v20161014, []⟩ volumeOnly addressAndSizeTree.widened asServerComesUp =
        (treeAfter ⟨.v20150430, []⟩ volumeOnly addressAndSizeTree asServerComesUp).widened := by
  have plain : ∀ name ∈ addressAndSize.loneKeys, name ∉ Version.addedNames := by decide
  have read : Node.parse .v20150430 addressAndSize = .ok addressAndSizeTree := rfl
  have good : ∀ answer ∈ answers ⟨.v20150430, []⟩ volumeOnly addressAndSizeTree asServerComesUp,
      answer.succeeded = true := by decide +kernel
  obtain ⟨reads, alike⟩ := newer_version_extends [] addressAndSize plain addressAndSizeTree read
  exact ⟨plain, read, good, reads, alike volumeOnly asServerComesUp good⟩

end Template
end Orchestration
