import Orchestration.Proofs.Migration.Parameters
import Orchestration.Proofs.Template.PlainData

/-!
# Values in place of references

A value that was put in place of a reference to a parameter is read as a template again.  So the
properties keep their meaning exactly if each such value stands for itself; plain data does, and a
value in which a map calls a function need not.
-/

set_option autoImplicit false

namespace Orchestration

namespace Node

theorem value_resolveFirst_iff (scope : Scope) (nodes : List Node) (position : Nat)
    (values : List Json) :
    (resolveFirst scope unchecked position nodes.length nodes).value = .ok values ↔
      List.Forall₂ (fun node value => (resolve scope node).value = .ok value) nodes values := by
  change (resolveFirst scope unchecked position nodes.length nodes).outcome.2 = .ok values ↔ _
  induction nodes generalizing position values with
  | nil => cases values <;> simp [resolveFirst, Step.outcome]
  | cons node rest ih =>
    rw [List.length_cons, values_resolveFirst_cons_iff, List.forall₂_cons_left_iff]
    simp only [unchecked, true_and, ih]

end Node

namespace Migration

namespace Context

theorem resolve_of_plain (context : Context) (value : Json)
    (plain : value.PlainIn context.template.version) : context.resolve value = .ok value := by
  obtain ⟨node, read, settled⟩ := Node.settles_of_plain context.template.version value plain
  simp only [resolve, bind, read, Except.bind]
  exact congrArg Prod.snd (settled ⟨context.template.digests, context.stack⟩)

theorem resolve_list_iff (context : Context) (items : List Json) (result : Json) :
    context.resolve (.list items) = .ok result ↔
      ∃ values, result = .list values ∧
        List.Forall₂ (fun x value => context.resolve x = .ok value) items values := by
  have answer : ∀ nodes : List Node,
      (Node.resolve ⟨context.template.digests, context.stack⟩ (.list nodes)).value =
        (Node.resolveFirst ⟨context.template.digests, context.stack⟩ Node.unchecked 0 nodes.length
          nodes).value.map .list :=
    fun nodes => congrArg Prod.snd (Node.outcome_list _ nodes)
  simp only [resolve, bind, bind_eq_ok_iff, Node.parse, map_eq_ok_iff]
  constructor
  · rintro ⟨_, ⟨nodes, read, rfl⟩, done⟩
    rw [answer, map_eq_ok_iff] at done
    obtain ⟨values, resolved, rfl⟩ := done
    refine ⟨values, rfl, ?_⟩
    rw [Node.parseItems_eq_ok_iff] at read
    rw [Node.value_resolveFirst_iff] at resolved
    clear answer
    induction read generalizing values with
    | nil => cases resolved; exact .nil
    | cons first rest ih =>
      cases resolved with
      | cons here more => exact .cons ⟨_, first, here⟩ (ih _ more)
  · rintro ⟨values, rfl, each⟩
    obtain ⟨nodes, read, resolved⟩ : ∃ nodes,
        List.Forall₂ (fun x node => Node.parse context.template.version x = .ok node) items nodes ∧
          List.Forall₂ (fun node value =>
            (Node.resolve ⟨context.template.digests, context.stack⟩ node).value = .ok value)
            nodes values := by
      clear answer
      induction each with
      | nil => exact ⟨[], .nil, .nil⟩
      | cons first rest ih =>
        obtain ⟨node, parsed, here⟩ := first
        obtain ⟨nodes, read, resolved⟩ := ih
        exact ⟨node :: nodes, .cons parsed read, .cons here resolved⟩
    refine ⟨_, ⟨nodes, (Node.parseItems_eq_ok_iff _ _ _).mpr read, rfl⟩, ?_⟩
    rw [answer, (Node.value_resolveFirst_iff _ nodes 0 values).mpr resolved]
    rfl

theorem resolve_removed (context : Context) (value result : Json)
    (known : context.function? value = some .removed) :
    context.resolve value ≠ .ok result := by
  intro done
  obtain ⟨name, raw, rfl, own⟩ := context.function?_eq_some value .removed known
  obtain ⟨node, parsed, settled⟩ := (bind_eq_ok_iff _ _ _).mp done
  obtain ⟨args, rfl⟩ := parse_of_function? _ name raw .removed own node parsed
  have outcome := congrArg Prod.snd
    (Node.outcome_call ⟨context.template.digests, context.stack⟩ .removed name args)
  rw [Step.outcome, settled] at outcome
  split at outcome
  · cases outcome
  · cases outcome

end Context

mutual

/-- The values that are put in place of the references in a value. -/
def substitutes (context : Context) : Json → List Json
  | .list items => substitutesOfItems context items
  | value =>
    match context.function? value with
    | some .getParam =>
      match context.resolve value with
      | .ok resolved => [resolved]
      | .error _ => []
    | _ => []

def substitutesOfItems (context : Context) : List Json → List Json
  | [] => []
  | x :: rest => substitutes context x ++ substitutesOfItems context rest

end

section Meaning

variable (context : Context)

theorem substitutes_of_not_list (value : Json) (other : ∀ items, value ≠ .list items) :
    substitutes context value =
      match context.function? value with
      | some .getParam =>
        match context.resolve value with
        | .ok resolved => [resolved]
        | .error _ => []
      | _ => [] := by
  unfold substitutes
  split
  · exact absurd rfl (other _)
  · rfl

theorem resolveItems_meaning (items values : List Json)
    (each : ∀ x ∈ items, ∀ result, context.resolve x = .ok result →
      (resolveParameter context x).1 = .ok true ∧
        (context.resolve (resolveParameter context x).2 = .ok result ↔
          ∀ held ∈ substitutes context x, context.resolve held = .ok held))
    (resolved : List.Forall₂ (fun x value => context.resolve x = .ok value) items values) :
    (resolveItems context items).1 = .ok true ∧
      (List.Forall₂ (fun x value => context.resolve x = .ok value)
          (resolveItems context items).2 values ↔
        ∀ held ∈ substitutesOfItems context items, context.resolve held = .ok held) := by
  induction resolved with
  | nil => simp [resolveItems, substitutesOfItems]
  | cons first rest ih =>
    rename_i x value items values
    obtain ⟨goesOn, here⟩ := each x (List.mem_cons_self ..) value first
    obtain ⟨all, below⟩ := ih fun y member => each y (List.mem_cons_of_mem _ member)
    rw [resolveItems]
    cases slot : resolveParameter context x with
    | mk answer left =>
      rw [slot] at goesOn here
      cases goesOn
      simp only [substitutesOfItems, List.forall₂_cons, List.forall_mem_append]
      exact ⟨all, by rw [here, below]⟩

theorem resolveParameter_meaning (value result : Json)
    (resolved : context.resolve value = .ok result) :
    (resolveParameter context value).1 = .ok true ∧
      (context.resolve (resolveParameter context value).2 = .ok result ↔
        ∀ held ∈ substitutes context value, context.resolve held = .ok held) := by
  have single : ∀ value result : Json, (∀ items, value ≠ .list items) →
      context.resolve value = .ok result →
      (resolveParameter context value).1 = .ok true ∧
        (context.resolve (resolveParameter context value).2 = .ok result ↔
          ∀ held ∈ substitutes context value, context.resolve held = .ok held) := by
    intro value result other resolved
    rw [resolveParameter_of_not_list value other, substitutes_of_not_list context value other]
    cases known : context.function? value with
    | none => simp [resolved]
    | some function =>
      cases function with
      | removed => exact absurd resolved (context.resolve_removed value result known)
      | getParam => simp [resolveReference, resolved]
      | _ => simp [resolved]
  induction value using Json.parts_induction generalizing result with
  | list items ih =>
    obtain ⟨values, rfl, each⟩ := (context.resolve_list_iff items result).mp resolved
    obtain ⟨all, kept⟩ := resolveItems_meaning context items values ih each
    rw [resolveParameter, substitutes, ← kept, context.resolve_list_iff]
    simp only [all, true_and, Json.list.injEq, exists_eq_left']
  | _ => exact single _ result (by simp) resolved

/-- Resolving the references in a template with a value keeps the value exactly if everything that
is put in place of a reference stands for itself.  Plain data does. -/
theorem references_keep_meaning (value result : Json)
    (resolved : context.resolve value = .ok result) :
    (resolveParameter context value).1 = .ok true ∧
      (context.resolve (resolveParameter context value).2 = .ok result ↔
        ∀ held ∈ substitutes context value, context.resolve held = .ok held) ∧
      ((∀ held ∈ substitutes context value, held.PlainIn context.template.version) →
        context.resolve (resolveParameter context value).2 = .ok result) := by
  obtain ⟨all, kept⟩ := resolveParameter_meaning context value result resolved
  exact ⟨all, kept, fun plain =>
    kept.mpr fun held member => context.resolve_of_plain held (plain held member)⟩

end Meaning

def zoneContext : Context :=
  ⟨⟨.v20161014, []⟩, ⟨[("limits", .object [("size", .ofInt 5)]), ("zone", .string "north"),
    ("code", .object [("get_param", .string "zone")])], [], [], none⟩, fun _ name => .ok name⟩

def zoneSettings : Json :=
  .list [.object [("get_param", .list [.string "limits", .string "size"])],
    .list [.object [("get_param", .string "limits")]],
    .object [("list_join", .list [.string "-", .list [.string "a",
      .object [("get_param", .string "zone")]]])]]

theorem references_of_zoneSettings :
    zoneContext.resolve zoneSettings =
        .ok (.list [.ofInt 5, .list [.object [("size", .ofInt 5)]], .string "a-north"]) ∧
      (∀ held ∈ substitutes zoneContext zoneSettings, held.PlainIn .v20161014) ∧
      zoneContext.resolve (resolveParameter zoneContext zoneSettings).2 =
        .ok (.list [.ofInt 5, .list [.object [("size", .ofInt 5)]], .string "a-north"]) := by
  have resolved : zoneContext.resolve zoneSettings =
      .ok (.list [.ofInt 5, .list [.object [("size", .ofInt 5)]], .string "a-north"]) := rfl
  have put : substitutes zoneContext zoneSettings =
      [.ofInt 5, .object [("size", .ofInt 5)]] := rfl
  have plain : ∀ held ∈ substitutes zoneContext zoneSettings, held.PlainIn .v20161014 := by
    rw [put]
    simp [Json.PlainIn, Json.loneKeys, Json.ofInt, Version.function?, Version.common?,
      Version.own?, Version.removedNames]
  exact ⟨resolved, plain,
    (references_keep_meaning zoneContext zoneSettings _ resolved).2.2 plain⟩

/-- A parameter whose value has the form of a reference is resolved twice. -/
example :
    zoneContext.resolve (.object [("get_param", .string "code")]) =
        .ok (.object [("get_param", .string "zone")]) ∧
      zoneContext.resolve
          (resolveParameter zoneContext (.object [("get_param", .string "code")])).2 =
        .ok (.string "north") := ⟨rfl, rfl⟩

end Migration

end Orchestration
