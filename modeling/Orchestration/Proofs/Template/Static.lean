import Orchestration.Proofs.Template.PlainData
import Orchestration.Proofs.Template.Visits

/-!
# Templates without calls

A tree counts as static exactly if it was read from plain data: a map with one entry whose key names
a function of the version becomes a call, and a map that only looks like one stays data.  Every
operation leaves a static tree as it is and finds nothing in it, and resolving gives back the data.
-/

set_option autoImplicit false

namespace Orchestration

namespace Json

variable {version : Version}

theorem plainIn_list_iff (items : List Json) :
    PlainIn version (.list items) ↔ ∀ x ∈ items, PlainIn version x := by
  refine ⟨PlainIn.item, fun each name lone => ?_⟩
  rw [loneKeys] at lone
  induction items with
  | nil => cases lone
  | cons x rest ih =>
    obtain ⟨here, later⟩ := List.forall_mem_cons.mp each
    rw [loneKeysOfItems] at lone
    exact (List.mem_append.mp lone).elim (here name) (ih later)

theorem plainIn_object_iff (entries : List (String × Json)) :
    PlainIn version (.object entries) ↔
      (∀ name args, entries = [(name, args)] → version.function? name = none) ∧
        ∀ x ∈ entries.map Prod.snd, PlainIn version x := by
  constructor
  · intro plain
    refine ⟨?_, plain.entry⟩
    rintro name args rfl
    exact plain name (by simp [loneKeys])
  · rintro ⟨alone, each⟩ name lone
    have below (inside : name ∈ loneKeysOfEntries entries) : version.function? name = none := by
      clear alone lone
      induction entries with
      | nil => cases inside
      | cons entry rest ih =>
        obtain ⟨here, later⟩ := List.forall_mem_cons.mp each
        rw [loneKeysOfEntries] at inside
        exact (List.mem_append.mp inside).elim (here name) (ih later)
    cases entries with
    | nil => cases lone
    | cons entry rest =>
      cases rest with
      | nil =>
        obtain ⟨key, args⟩ := entry
        rw [loneKeys] at lone
        rcases List.mem_cons.mp lone with rfl | deeper
        · exact alone name args rfl
        · exact each args (List.mem_singleton.mpr rfl) name deeper
      | cons =>
        simp only [loneKeys] at lone
        exact below lone

end Json

namespace Node

/-! ## Which trees are static -/

theorem all_isStatic_parseItems {version : Version} {items : List Json} {nodes : List Node}
    (read : parseItems version items = .ok nodes)
    (each : ∀ x ∈ items, ∀ node, parse version x = .ok node →
      (node.isStatic = true ↔ x.PlainIn version)) :
    nodes.all isStatic = true ↔ ∀ x ∈ items, x.PlainIn version := by
  rw [parseItems_eq_ok_iff] at read
  induction read with
  | nil => simp
  | cons first rest ih =>
    obtain ⟨here, later⟩ := List.forall_mem_cons.mp each
    rw [List.all_cons, Bool.and_eq_true, here _ first, ih later, List.forall_mem_cons]

theorem isStatic_iff_of_parse (version : Version) (value : Json) (node : Node)
    (parsed : parse version value = .ok node) :
    node.isStatic = true ↔ value.PlainIn version := by
  induction value using Json.parts_induction generalizing node with
  | list items ih =>
    rw [parse, map_eq_ok_iff] at parsed
    obtain ⟨nodes, read, rfl⟩ := parsed
    rw [isStatic, areStatic_eq_all, Json.plainIn_list_iff]
    exact all_isStatic_parseItems read ih
  | object entries ih =>
    by_cases called : ∃ name args, entries = [(name, args)] ∧ version.function? name ≠ none
    · obtain ⟨name, args, rfl, known⟩ := called
      have notPlain : ¬ (Json.object [(name, args)]).PlainIn version := fun plain =>
        known (((Json.plainIn_object_iff _).mp plain).1 name args rfl)
      obtain ⟨function, is⟩ := Option.ne_none_iff_exists'.mp known
      simp only [parse, is, bind, bind_eq_ok_iff] at parsed
      obtain ⟨tree, -, made⟩ := parsed
      rw [ofCall] at made
      split at made
      · cases made
      · cases made
        simpa [isStatic] using notPlain
    · have alone : ∀ name args, entries = [(name, args)] → version.function? name = none := by
        intro name args same
        exact Classical.byContradiction fun known => called ⟨name, args, same, known⟩
      rcases parse_object version entries node parsed with
        ⟨name, args, function, _, same, known, _⟩ | ⟨nodes, read, rfl⟩
      · rw [alone name args same] at known
        cases known
      · have length : nodes.length = (Entries.keys entries).length := by
          simpa [Entries.keys] using ((parseItems_eq_ok_iff ..).mp read).length_eq.symm
        rw [isStatic, entriesStatic_eq_all, List.map_snd_zip (Nat.le_of_eq length),
          Json.plainIn_object_iff, and_iff_right alone]
        exact all_isStatic_parseItems read ih
  | _ =>
    simp only [parse, Except.ok.injEq] at parsed
    subst parsed
    simp [isStatic, Json.PlainIn, Json.loneKeys]

/-! ## What operations do with them -/

theorem eq_of_fuller_items {scope : Scope} {items others : List Node}
    (pairs : List.Forall₂ (Fuller scope) items others)
    (below : ∀ x ∈ items, ∀ {y}, Fuller scope x y → x.isStatic = true → y = x)
    (static : items.all isStatic = true) : others = items := by
  induction pairs with
  | nil => rfl
  | cons first rest ih =>
    obtain ⟨here, later⟩ := List.forall_mem_cons.mp below
    rw [List.all_cons, Bool.and_eq_true] at static
    rw [here first static.1, ih later static.2]

theorem eq_of_fuller_static {scope : Scope} {before after : Node}
    (fuller : Fuller scope before after) (static : before.isStatic = true) : after = before := by
  induction before using parts_induction generalizing after with
  | literal value =>
    cases fuller
    rfl
  | list items ih =>
    cases fuller with
    | list _ after pairs =>
      rw [isStatic, areStatic_eq_all] at static
      rw [eq_of_fuller_items pairs ih static]
  | map entries ih =>
    cases fuller with
    | map _ after keys pairs =>
      rw [isStatic, entriesStatic_eq_all] at static
      have values := eq_of_fuller_items pairs ih static
      rw [← Entries.zip_keys_values after, keys, values, Entries.zip_keys_values]
  | call function name args memo ih => cases static

theorem walkItems_quiet {α : Type} (visit : Intrinsic → String → Node → Visit Node α)
    (items : List Node) (each : ∀ x ∈ items, walk visit x = (x, .ok [])) :
    walkItems visit items = (items, .ok []) := by
  induction items with
  | nil => rfl
  | cons x rest ih =>
    obtain ⟨here, later⟩ := List.forall_mem_cons.mp each
    simp [walkItems, here, ih later, Except.map]

theorem walkEntries_quiet {α : Type} (visit : Intrinsic → String → Node → Visit Node α)
    (entries : List (String × Node))
    (each : ∀ x ∈ entries.map Prod.snd, walk visit x = (x, .ok [])) :
    walkEntries visit entries = (entries, .ok []) := by
  induction entries with
  | nil => rfl
  | cons entry rest ih =>
    obtain ⟨here, later⟩ := List.forall_mem_cons.mp each
    simp [walkEntries, here, ih later, Except.map]

theorem walk_of_isStatic {α : Type} (visit : Intrinsic → String → Node → Visit Node α)
    (node : Node) (static : node.isStatic = true) : walk visit node = (node, .ok []) := by
  induction node using parts_induction with
  | literal value => rw [walk]
  | list items ih =>
    rw [isStatic, areStatic_eq_all, List.all_eq_true] at static
    rw [walk, walkItems_quiet visit items fun x member => ih x member (static x member)]
  | map entries ih =>
    rw [isStatic, entriesStatic_eq_all, List.all_eq_true] at static
    rw [walk, walkEntries_quiet visit entries fun x member => ih x member (static x member)]
  | call function name args memo ih => cases static

theorem resolve_of_isStatic {scope : Scope} {node : Node} {value : Json}
    (settles : Settles scope node value) (static : node.isStatic = true) :
    resolve scope node = ⟨node, true, .ok value⟩ := by
  have tree := eq_of_fuller_static (fuller_resolve scope node) static
  unfold Settles at settles
  generalize resolve scope node = step at tree settles ⊢
  obtain ⟨left, ready, answer⟩ := step
  cases tree
  cases settles
  rfl

/-- Data in which no map calls a function is a template that every operation leaves as it is, finds
nothing in and resolves to the data itself.  No other template counts as static. -/
theorem plain_templates_untouched (version : Version) (value : Json) :
    (value.PlainIn version → ∃ node, parse version value = .ok node ∧ node.isStatic = true ∧
      ∀ scope, resolve scope node = ⟨node, true, .ok value⟩ ∧
        validate scope node = (node, .ok ()) ∧ dependencies scope node = (node, .ok []) ∧
        attributeDependencies scope node = (node, .ok [])) ∧
    ∀ node, parse version value = .ok node → ¬ value.PlainIn version → node.isStatic = false := by
  constructor
  · intro plain
    obtain ⟨node, parsed, settles⟩ := settles_of_plain version value plain
    have static := (isStatic_iff_of_parse version value node parsed).mpr plain
    refine ⟨node, parsed, static, fun scope => ⟨resolve_of_isStatic (settles scope) static, ?_⟩⟩
    simp only [validate, dependencies, attributeDependencies, walk_of_isStatic _ node static]
    exact ⟨rfl, rfl, rfl⟩
  · intro node parsed calls
    rw [← isStatic_iff_of_parse version value node parsed] at calls
    exact Bool.eq_false_iff.mpr calls

/-- An empty map, a map with two entries, a function's name as a text, and a function that only the
newer version has. -/
def nearlyCalls : Json :=
  .object [("none", .object []),
    ("two", .object [("get_param", .string "zone"), ("get_attr", .list [])]),
    ("name", .string "get_file"),
    ("newer", .object [("map_merge", .list [.object [("zone", .ofInt 1)]])])]

theorem plain_templates_untouched_nearlyCalls :
    nearlyCalls.PlainIn .v20150430 ∧ ¬ nearlyCalls.PlainIn .v20161014 ∧
      (∃ node, parse .v20150430 nearlyCalls = .ok node ∧ node.isStatic = true ∧
        ∀ scope, (resolve scope node).value = .ok nearlyCalls) ∧
      ∃ node, parse .v20161014 nearlyCalls = .ok node ∧ node.isStatic = false := by
  have plain : nearlyCalls.PlainIn .v20150430 := by
    unfold Json.PlainIn
    decide
  have calls : ¬ nearlyCalls.PlainIn .v20161014 := by
    unfold Json.PlainIn
    decide
  refine ⟨plain, calls, ?_, ?_⟩
  · obtain ⟨node, parsed, static, untouched⟩ :=
      (plain_templates_untouched .v20150430 nearlyCalls).1 plain
    exact ⟨node, parsed, static, fun scope => congrArg Step.value (untouched scope).1⟩
  · obtain ⟨node, parsed⟩ : ∃ node, parse .v20161014 nearlyCalls = .ok node := ⟨_, rfl⟩
    exact ⟨node, parsed, (plain_templates_untouched .v20161014 nearlyCalls).2 node parsed calls⟩

end Node

end Orchestration
