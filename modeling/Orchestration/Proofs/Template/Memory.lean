import Orchestration.Proofs.Json
import Orchestration.Proofs.Template.Fuller

/-!
# What a tree remembers

`forget` takes every remembered value out of a tree.  A tree is faithful to a scope if each value
that it remembers is the final value of its call there.  `resolve_recalls`: resolving a faithful
tree says what resolving the forgetful one says, and leaves a faithful tree of the same template.
-/

set_option autoImplicit false

namespace Orchestration

namespace Node

mutual

def forget : Node → Node
  | .literal value => .literal value
  | .list items => .list (forgetItems items)
  | .map entries => .map (forgetEntries entries)
  | .call function name args _ => .call function name (forget args) none

def forgetItems : List Node → List Node
  | [] => []
  | x :: rest => forget x :: forgetItems rest

def forgetEntries : List (String × Node) → List (String × Node)
  | [] => []
  | (key, x) :: rest => (key, forget x) :: forgetEntries rest

end

theorem forgetItems_eq_map (items : List Node) : forgetItems items = items.map forget := by
  induction items with
  | nil => simp [forgetItems]
  | cons x rest ih => simp [forgetItems, ih]

theorem forgetEntries_eq_mapValues (entries : List (String × Node)) :
    forgetEntries entries = Entries.mapValues forget entries := by
  induction entries with
  | nil => simp [forgetEntries]
  | cons entry rest ih =>
    obtain ⟨key, x⟩ := entry
    simp [forgetEntries, ih]

@[simp] theorem forget_literal (value : Json) : forget (.literal value) = .literal value := by
  simp [forget]

@[simp] theorem forget_list (items : List Node) :
    forget (.list items) = .list (items.map forget) := by
  simp [forget, forgetItems_eq_map]

@[simp] theorem forget_map (entries : List (String × Node)) :
    forget (.map entries) = .map (Entries.mapValues forget entries) := by
  simp [forget, forgetEntries_eq_mapValues]

@[simp] theorem forget_call (function : Intrinsic) (name : String) (args : Node)
    (memo : Option Json) :
    forget (.call function name args memo) = .call function name (forget args) none := by
  simp [forget]

theorem parts_forget (node : Node) : node.forget.parts = node.parts.map forget := by
  cases node <;> simp [parts, Entries.map_snd_mapValues]

theorem forget_forget (node : Node) : node.forget.forget = node.forget := by
  induction node using parts_induction with
  | literal value => simp
  | list items ih => simpa using ih
  | map entries ih =>
    rw [forget_map, forget_map, Node.map.injEq]
    simp only [Entries.mapValues, List.map_map]
    apply List.map_congr_left
    intro entry member
    simp [ih entry.2 (List.mem_map_of_mem member)]
  | call function name args memo ih => simpa using ih args (List.mem_cons_self ..)

/-- Each remembered value is the final value of its call. -/
inductive Faithful (scope : Scope) : Node → Prop where
  | literal (value : Json) : Faithful scope (.literal value)
  | list (items : List Node) (below : ∀ x ∈ items, Faithful scope x) :
      Faithful scope (.list items)
  | map (entries : List (String × Node)) (below : ∀ x ∈ entries.map Prod.snd, Faithful scope x) :
      Faithful scope (.map entries)
  | call (function : Intrinsic) (name : String) (args : Node) (memo : Option Json)
      (below : Faithful scope args)
      (final : ∀ value, memo = some value →
        Settles scope (.call function name args.forget none) value) :
      Faithful scope (.call function name args memo)

theorem Faithful.parts {scope : Scope} {node : Node} (faithful : node.Faithful scope) :
    ∀ x ∈ node.parts, x.Faithful scope := by
  cases faithful with
  | literal value => simp [Node.parts]
  | list items below => exact below
  | map entries below => exact below
  | call function name args memo below final => simpa [Node.parts] using below

theorem fuller_forget_iff (scope : Scope) (node : Node) :
    Fuller scope node.forget node ↔ node.Faithful scope := by
  induction node using parts_induction with
  | literal value => simpa using ⟨fun _ => .literal value, fun _ => .refl⟩
  | list items ih =>
    rw [forget_list]
    constructor
    · intro fuller
      have each := List.forall₂_same.mp (List.forall₂_map_left_iff.mp fuller.parts)
      exact .list items fun x member => (ih x member).mp (each x member)
    · intro faithful
      exact .list _ _ (List.forall₂_map_left_iff.mpr (List.forall₂_same.mpr fun x member =>
        (ih x member).mpr (faithful.parts x member)))
  | map entries ih =>
    rw [forget_map]
    constructor
    · intro fuller
      have each := fuller.parts
      rw [Node.parts, Entries.map_snd_mapValues] at each
      have same := List.forall₂_same.mp (List.forall₂_map_left_iff.mp each)
      exact .map entries fun x member => (ih x member).mp (same x member)
    · intro faithful
      refine .map _ _ (by rw [Entries.keys_mapValues]) ?_
      rw [Entries.map_snd_mapValues]
      exact List.forall₂_map_left_iff.mpr (List.forall₂_same.mpr fun x member =>
        (ih x member).mpr (faithful.parts x member))
  | call function name args memo ih =>
    have below := ih args (List.mem_cons_self ..)
    rw [forget_call]
    constructor
    · intro fuller
      cases fuller with
      | call _ _ _ _ _ _ inner _ final =>
        exact .call function name args memo (below.mp inner) fun value => final value rfl
    · intro faithful
      cases faithful with
      | call _ _ _ _ inner final =>
        exact .call _ _ _ _ _ _ (below.mpr inner) (by simp) fun value _ => final value

theorem faithful_forget (scope : Scope) (node : Node) : node.forget.Faithful scope := by
  rw [← fuller_forget_iff, forget_forget]
  exact .refl

theorem forget_each {scope : Scope} {items after : List Node}
    (each : List.Forall₂ (Fuller scope) items after)
    (same : ∀ x ∈ items, ∀ {y}, Fuller scope x y → y.forget = x.forget) :
    after.map forget = items.map forget := by
  induction each with
  | nil => rfl
  | cons first rest ih =>
    rw [List.map_cons, List.map_cons, same _ (List.mem_cons_self ..) first,
      ih fun x member => same x (List.mem_cons_of_mem _ member)]

theorem Fuller.template {scope : Scope} {before after : Node} (fuller : Fuller scope before after) :
    after.forget = before.forget := by
  induction before using parts_induction generalizing after with
  | literal value =>
    cases fuller
    rfl
  | list items ih =>
    cases fuller with
    | list _ after each =>
      rw [forget_list, forget_list, forget_each each ih]
  | map entries ih =>
    cases fuller with
    | map _ after keys each =>
      rw [forget_map, forget_map, Entries.mapValues_eq_zip, Entries.mapValues_eq_zip, keys,
        forget_each each ih]
  | call function name args memo ih =>
    cases fuller with
    | call _ _ _ after _ later below kept final =>
      rw [forget_call, forget_call, ih args (List.mem_cons_self ..) below]

/-- The second tree is of the same template as the first, and faithful. -/
structure Kept (scope : Scope) (before after : Node) : Prop where
  template : after.forget = before.forget
  faithful : after.Faithful scope

theorem Fuller.kept {scope : Scope} {before after : Node} (fuller : Fuller scope before after)
    (faithful : before.Faithful scope) : Kept scope before after :=
  ⟨fuller.template, (fuller_forget_iff scope after).mp
    (fuller.template ▸ ((fuller_forget_iff scope before).mpr faithful).trans fuller)⟩

/-- Resolving a faithful tree says the same as resolving it with nothing remembered, and the tree
that is left is faithful again. -/
theorem resolve_recalls (scope : Scope) (node : Node) (faithful : node.Faithful scope) :
    (resolve scope node).outcome = (resolve scope node.forget).outcome ∧
      Kept scope node (resolve scope node).tree :=
  ⟨((fuller_forget_iff scope node).mpr faithful).outcome, (fuller_resolve scope node).kept faithful⟩

/-! ## Parsed trees -/

theorem parseEntries_eq (version : Version) (entries : List (String × Json)) :
    parseEntries version entries =
      (parseItems version (entries.map Prod.snd)).map fun nodes =>
        (Entries.keys entries).zip nodes := by
  induction entries with
  | nil => simp [parseEntries, parseItems, Except.map]
  | cons entry rest ih =>
    obtain ⟨key, x⟩ := entry
    rw [parseEntries, List.map_cons, parseItems, ih]
    cases parse version x with
    | error e => rfl
    | ok node => cases parseItems version (rest.map Prod.snd) <;> rfl

theorem parse_object (version : Version) (entries : List (String × Json)) (node : Node)
    (parsed : parse version (.object entries) = .ok node) :
    (∃ name raw function args, entries = [(name, raw)] ∧ version.function? name = some function ∧
        parse version raw = .ok args ∧ shapeFault? function args = none ∧
        node = .call function name args none) ∨
      ∃ nodes, parseItems version (entries.map Prod.snd) = .ok nodes ∧
        node = .map ((Entries.keys entries).zip nodes) := by
  have asMap : (parseEntries version entries).map Node.map = .ok node →
      ∃ nodes, parseItems version (entries.map Prod.snd) = .ok nodes ∧
        node = .map ((Entries.keys entries).zip nodes) := by
    intro read
    rw [parseEntries_eq] at read
    cases items : parseItems version (entries.map Prod.snd) with
    | error e => simp [items, Except.map] at read
    | ok nodes =>
      simp only [items, Except.map, Except.ok.injEq] at read
      exact ⟨nodes, rfl, read.symm⟩
  match entries with
  | [(name, raw)] =>
    simp only [parse] at parsed
    cases known : version.function? name with
    | none =>
      right
      apply asMap
      simp only [known] at parsed
      rw [← parsed, parseEntries, parseEntries]
      cases parse version raw <;> rfl
    | some function =>
      left
      simp only [known] at parsed
      cases read : parse version raw with
      | error e => simp [read, bind, Except.bind] at parsed
      | ok args =>
        simp only [read, bind, Except.bind, ofCall] at parsed
        cases shape : shapeFault? function args with
        | some fault => simp [shape] at parsed
        | none =>
          simp only [shape, Except.ok.injEq] at parsed
          exact ⟨name, raw, function, args, rfl, known, read, shape, parsed.symm⟩
  | [] =>
    simp only [parse] at parsed
    exact .inr (asMap parsed)
  | _ :: _ :: _ =>
    simp only [parse] at parsed
    exact .inr (asMap parsed)

theorem parseItems_eq_ok_iff (version : Version) (items : List Json) (nodes : List Node) :
    parseItems version items = .ok nodes ↔
      List.Forall₂ (fun x node => parse version x = .ok node) items nodes := by
  induction items generalizing nodes with
  | nil => cases nodes <;> simp [parseItems]
  | cons x rest ih =>
    simp only [parseItems, bind, bind_eq_ok_iff, List.forall₂_cons_left_iff]
    constructor
    · rintro ⟨node, first, others, more, done⟩
      cases done
      exact ⟨node, others, first, (ih others).mp more, rfl⟩
    · rintro ⟨node, others, first, more, rfl⟩
      exact ⟨node, first, others, (ih others).mpr more, rfl⟩

/-- Induction over a tree that was just parsed: its calls remember nothing and have a possible
shape. -/
theorem parsed_induction {motive : Node → Prop} (version : Version)
    (literal : ∀ value, motive (.literal value))
    (list : ∀ items, (∀ x ∈ items, motive x) → motive (.list items))
    (map : ∀ entries, (∀ x ∈ entries.map Prod.snd, motive x) → motive (.map entries))
    (call : ∀ function name args, shapeFault? function args = none → motive args →
      motive (.call function name args none))
    (raw : Json) (node : Node) (parsed : parse version raw = .ok node) : motive node := by
  have every : ∀ (items : List Json) (nodes : List Node),
      (∀ x ∈ items, ∀ node, parse version x = .ok node → motive node) →
      parseItems version items = .ok nodes → ∀ x ∈ nodes, motive x := by
    intro items nodes each read
    rw [parseItems_eq_ok_iff] at read
    induction read with
    | nil => simp
    | cons first rest ih =>
      obtain ⟨here, later⟩ := List.forall_mem_cons.mp each
      exact List.forall_mem_cons.mpr ⟨here _ first, ih later⟩
  induction raw using Json.parts_induction generalizing node with
  | list items ih =>
    simp only [parse, map_eq_ok_iff] at parsed
    obtain ⟨nodes, read, rfl⟩ := parsed
    exact list nodes (every items nodes ih read)
  | object entries ih =>
    rcases parse_object version entries node parsed with
      ⟨name, raw, function, args, rfl, _, read, shape, rfl⟩ | ⟨nodes, read, rfl⟩
    · exact call function name args shape (ih raw (List.mem_singleton.mpr rfl) args read)
    · have length : (Entries.keys entries).length = nodes.length := by
        simpa [Entries.keys] using ((parseItems_eq_ok_iff ..).mp read).length_eq
      refine map _ ?_
      rw [List.map_snd_zip (Nat.le_of_eq length.symm)]
      exact every _ nodes ih read
  | _ =>
    simp only [parse, Except.ok.injEq] at parsed
    exact parsed ▸ literal _

theorem forget_parse (version : Version) (raw : Json) (node : Node)
    (parsed : parse version raw = .ok node) : node.forget = node := by
  refine parsed_induction (motive := fun node => node.forget = node) version forget_literal ?_ ?_ ?_
    raw node parsed
  · intro items each
    rw [forget_list, List.map_congr_left each, List.map_id']
  · intro entries each
    rw [forget_map, Entries.mapValues, Node.map.injEq]
    refine (List.map_congr_left fun entry member => ?_).trans (List.map_id' _)
    simp [each entry.2 (List.mem_map_of_mem member)]
  · intro function name args _ same
    rw [forget_call, same]

end Node
end Orchestration
