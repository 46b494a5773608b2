import Orchestration.Proofs.Template.Memory
import Orchestration.Template.Dependencies

/-!
# Visits and what a tree remembers

`survey` is a visit of every call without the tree that it leaves behind.  A steady operation
answers alike on fuller trees and only makes a tree fuller: resolving is one, and so are the three
visits (validation, resources, attributes), which find what a survey of the tree finds.  On a
faithful tree a steady operation answers as if nothing were remembered.
-/

set_option autoImplicit false

namespace Orchestration

namespace Node

variable {α β : Type}

/-- The operation answers alike on fuller trees, and makes a tree fuller at most. -/
structure Steady (scope : Scope) (act : Node → Node × β) : Prop where
  fuller : ∀ node, Fuller scope node (act node).1
  alike : ∀ before after, Fuller scope before after → (act after).2 = (act before).2

theorem Steady.map {scope : Scope} {act : Node → Node × α} (steady : Steady scope act)
    (f : α → β) : Steady scope fun node => ((act node).1, f (act node).2) :=
  ⟨steady.fuller, fun before after fuller => congrArg f (steady.alike before after fuller)⟩

/-- The operation answers on a faithful tree as if nothing were remembered, and keeps the tree. -/
def Forgetful (scope : Scope) (act : Node → Node × β) : Prop :=
  ∀ node, node.Faithful scope →
    (act node).2 = (act node.forget).2 ∧ Kept scope node (act node).1

theorem Steady.forgetful {scope : Scope} {act : Node → Node × β} (steady : Steady scope act) :
    Forgetful scope act := fun node faithful =>
  ⟨steady.alike _ _ ((fuller_forget_iff scope node).mpr faithful),
    (steady.fuller node).kept faithful⟩

theorem steady_resolve (scope : Scope) :
    Steady scope fun node => ((resolve scope node).tree, (resolve scope node).value) :=
  ⟨fuller_resolve scope, fun _ _ fuller => fuller.value⟩

mutual

def survey (visit : Intrinsic → String → Node → Visit Node α) : Node → Except TemplateError (List α)
  | .literal _ => .ok []
  | .list items => surveyItems visit items
  | .map entries => surveyEntries visit entries
  | .call function name args _ =>
    (survey visit args).bind fun found => (visit function name args).2.map (found ++ ·)

def surveyItems (visit : Intrinsic → String → Node → Visit Node α) :
    List Node → Except TemplateError (List α)
  | [] => .ok []
  | x :: rest => (survey visit x).bind fun found => (surveyItems visit rest).map (found ++ ·)

def surveyEntries (visit : Intrinsic → String → Node → Visit Node α) :
    List (String × Node) → Except TemplateError (List α)
  | [] => .ok []
  | (_, x) :: rest => (survey visit x).bind fun found => (surveyEntries visit rest).map (found ++ ·)

end

theorem surveyEntries_eq (visit : Intrinsic → String → Node → Visit Node α)
    (entries : List (String × Node)) :
    surveyEntries visit entries = surveyItems visit (entries.map Prod.snd) := by
  induction entries with
  | nil => simp [surveyEntries, surveyItems]
  | cons entry rest ih =>
    obtain ⟨key, x⟩ := entry
    simp only [surveyEntries, List.map_cons, surveyItems, ih]

/-! ## Visits find what a survey finds -/

section Walk

variable (scope : Scope) (visit : Intrinsic → String → Node → Visit Node α)

theorem walkItems_survey (items : List Node)
    (each : ∀ x ∈ items,
      (walk visit x).2 = survey visit x ∧ Fuller scope x (walk visit x).1) :
    (walkItems visit items).2 = surveyItems visit items ∧
      List.Forall₂ (Fuller scope) items (walkItems visit items).1 := by
  induction items with
  | nil => simp [walkItems, surveyItems]
  | cons x rest ih =>
    obtain ⟨answer, fuller⟩ := each x (List.mem_cons_self ..)
    obtain ⟨more, fullerMore⟩ := ih fun y member => each y (List.mem_cons_of_mem x member)
    rw [walkItems, surveyItems, ← answer]
    generalize walk visit x = first at fuller ⊢
    obtain ⟨after, result⟩ := first
    cases result with
    | error e => exact ⟨rfl, .cons fuller (List.forall₂_same.mpr fun _ _ => .refl)⟩
    | ok found => exact ⟨congrArg (Except.map (found ++ ·)) more, .cons fuller fullerMore⟩

theorem walkEntries_survey (entries : List (String × Node))
    (each : ∀ x ∈ entries.map Prod.snd,
      (walk visit x).2 = survey visit x ∧ Fuller scope x (walk visit x).1) :
    (walkEntries visit entries).2 = surveyEntries visit entries ∧
      Fuller scope (.map entries) (.map (walkEntries visit entries).1) := by
  induction entries with
  | nil => simpa [walkEntries, surveyEntries] using Fuller.refl
  | cons entry rest ih =>
    obtain ⟨key, x⟩ := entry
    obtain ⟨answer, fuller⟩ := each x (List.mem_cons_self ..)
    obtain ⟨more, fullerMore⟩ := ih fun y member => each y (List.mem_cons_of_mem x member)
    rw [walkEntries, surveyEntries, ← answer]
    generalize walk visit x = first at fuller ⊢
    obtain ⟨after, result⟩ := first
    cases result with
    | error e =>
      exact ⟨rfl, .map _ _ rfl (.cons fuller (List.forall₂_same.mpr fun _ _ => .refl))⟩
    | ok found =>
      cases fullerMore with
      | map _ _ keys later =>
        exact ⟨congrArg (Except.map (found ++ ·)) more,
          .map _ _ (congrArg (key :: ·) keys) (.cons fuller later)⟩

theorem surveyItems_alike (items after : List Node)
    (each : List.Forall₂ (fun x y => survey visit y = survey visit x) items after) :
    surveyItems visit after = surveyItems visit items := by
  induction each with
  | nil => rfl
  | cons first rest ih => rw [surveyItems, surveyItems, first, ih]

variable (steady : ∀ function name, Steady scope (visit function name))
include steady

theorem walk_survey (node : Node) :
    (walk visit node).2 = survey visit node ∧ Fuller scope node (walk visit node).1 := by
  induction node using parts_induction with
  | literal value => simpa [walk, survey] using Fuller.refl
  | list items ih =>
    obtain ⟨answer, fuller⟩ := walkItems_survey scope visit items ih
    rw [walk, survey]
    exact ⟨answer, .list _ _ fuller⟩
  | map entries ih =>
    obtain ⟨answer, fuller⟩ := walkEntries_survey scope visit entries ih
    rw [walk, survey]
    exact ⟨answer, fuller⟩
  | call function name args memo ih =>
    obtain ⟨answer, fuller⟩ := ih args (List.mem_cons_self ..)
    rw [walk, survey, ← answer]
    generalize walk visit args = walked at fuller ⊢
    obtain ⟨after, result⟩ := walked
    cases result with
    | error e => exact ⟨rfl, fuller.args⟩
    | ok found =>
      -- The visitor sees the arguments as the walk below left them, which are only fuller.
      have same := (steady function name).alike args after fuller
      have visited := fuller.trans ((steady function name).fuller after)
      exact ⟨congrArg (Except.map (found ++ ·)) same, visited.args⟩

theorem survey_alike (before after : Node) (fuller : Fuller scope before after) :
    survey visit after = survey visit before := by
  induction before using parts_induction generalizing after with
  | literal value =>
    cases fuller
    rfl
  | list items ih =>
    cases fuller with
    | list _ after each =>
      rw [survey, survey]
      exact surveyItems_alike visit items after (related_of_mem each ih)
  | map entries ih =>
    cases fuller with
    | map _ after keys each =>
      rw [survey, survey, surveyEntries_eq, surveyEntries_eq]
      exact surveyItems_alike visit _ _ (related_of_mem each ih)
  | call function name args memo ih =>
    cases fuller with
    | call _ _ _ after _ later below kept final =>
      rw [survey, survey, ih args (List.mem_cons_self ..) after below,
        (steady function name).alike args after below]

theorem steady_walk : Steady scope (walk visit) := by
  constructor
  · intro node
    exact (walk_survey scope visit steady node).2
  · intro before after fuller
    rw [(walk_survey scope visit steady before).1, (walk_survey scope visit steady after).1,
      survey_alike scope visit steady before after fuller]

end Walk

/-! ## The three visitors -/

section Visitors

variable (scope : Scope)

theorem fuller_resolveItems (check : Check) (fault : TemplateError) (count : Nat) (node : Node) :
    Fuller scope node (resolveItems scope check fault count node).tree := by
  cases node with
  | list items =>
    exact .list _ _ (fuller_resolveFirst scope check items 0 count fun x _ =>
      fuller_resolve scope x)
  | _ => exact .refl

theorem outcome_resolveItems_alike (check : Check) (fault : TemplateError) (count : Nat)
    (before after : Node) (fuller : Fuller scope before after) :
    (resolveItems scope check fault count after).outcome =
      (resolveItems scope check fault count before).outcome := by
  cases fuller with
  | list items after each =>
    simp only [resolveItems, Step.outcome_onTree]
    exact outcome_resolveFirst_alike scope check items after 0 count
      (each.imp fun _ _ one => one.outcome)
  | _ => rfl

theorem steady_reference (function : Intrinsic) (name : String) (count : Nat) :
    Steady scope fun args => ((reference scope function name count args).tree,
      (reference scope function name count args).value) := by
  constructor
  · intro args
    unfold reference
    split
    · exact fuller_resolveItems scope _ _ count args
    · rw [Step.tree_andThen]
      exact fuller_resolve scope args
  · intro before after fuller
    apply Step.value_congr
    unfold reference
    split
    · exact outcome_resolveItems_alike scope _ _ count before after fuller
    · rw [Step.outcome_andThen, Step.outcome_andThen, fuller.outcome]

theorem areStatic_eq_all (items : List Node) : areStatic items = items.all isStatic := by
  induction items with
  | nil => simp [areStatic]
  | cons x rest ih => rw [areStatic, List.all_cons, ih]

theorem entriesStatic_eq_all (entries : List (String × Node)) :
    entriesStatic entries = (entries.map Prod.snd).all isStatic := by
  induction entries with
  | nil => simp [entriesStatic]
  | cons entry rest ih =>
    obtain ⟨key, x⟩ := entry
    rw [entriesStatic, List.map_cons, List.all_cons, ih]

theorem all_isStatic_map (f : Node → Node) (items : List Node)
    (each : ∀ x ∈ items, isStatic (f x) = isStatic x) :
    (items.map f).all isStatic = items.all isStatic := by
  induction items with
  | nil => rfl
  | cons x rest ih =>
    rw [List.map_cons, List.all_cons, List.all_cons, each x (List.mem_cons_self ..),
      ih fun y member => each y (List.mem_cons_of_mem _ member)]

theorem all_isStatic_alike (items after : List Node)
    (each : List.Forall₂ (fun x y => isStatic y = isStatic x) items after) :
    after.all isStatic = items.all isStatic := by
  induction each with
  | nil => rfl
  | cons first rest ih => rw [List.all_cons, List.all_cons, first, ih]

theorem Fuller.isStatic {scope : Scope} {before after : Node} (fuller : Fuller scope before after) :
    after.isStatic = before.isStatic := by
  induction before using parts_induction generalizing after with
  | literal value =>
    cases fuller
    rfl
  | list items ih =>
    cases fuller with
    | list _ after each =>
      rw [Node.isStatic, Node.isStatic, areStatic_eq_all, areStatic_eq_all]
      exact all_isStatic_alike items after (related_of_mem each fun x member y => ih x member)
  | map entries ih =>
    cases fuller with
    | map _ after keys each =>
      rw [Node.isStatic, Node.isStatic, entriesStatic_eq_all, entriesStatic_eq_all]
      exact all_isStatic_alike _ _ (related_of_mem each fun x member y => ih x member)
  | call function name args memo ih =>
    cases fuller
    simp [Node.isStatic]

theorem steady_validateCall (function : Intrinsic) (name : String) :
    Steady scope (validateCall scope function name) := by
  have nothing : ∀ result : Node → Except TemplateError (List Unit),
      (∀ before after, Fuller scope before after → result after = result before) →
      Steady scope fun args => (args, result args) := fun _ alike => ⟨fun _ => .refl, alike⟩
  have resolved : ∀ goOn : Json → Except TemplateError (List Unit),
      Steady scope fun args =>
        if args.isStatic then ((resolve scope args).tree, (resolve scope args).value.bind goOn)
        else (args, .ok []) := by
    intro goOn
    constructor
    · intro args
      split
      · exact fuller_resolve scope args
      · exact .refl
    · intro before after fuller
      rw [fuller.isStatic]
      split
      · exact congrArg (Except.bind · goOn) fuller.value
      · rfl
  cases function with
  | getResource => exact (steady_reference scope .getResource name 1).map (Except.map fun _ => [])
  | getAttr | getAttrAll => exact (steady_reference scope _ name 2).map (Except.bind · _)
  | getFile => exact resolved _
  | digest => exact resolved _
  | repeatList | repeatWithMap =>
    constructor
    · intro args
      cases args with
      | map entries =>
        simp only [validateCall]
        split <;> exact .refl
      | _ => exact .refl
    · intro before after fuller
      cases fuller with
      | map entries after keys each =>
        simp only [validateCall]
        rcases Entries.get?_related entries after keys each "for_each" with
          ⟨missing, missing'⟩ | ⟨x, y, found, found', one⟩
        · rw [missing, missing']
        · rw [found, found']
          cases one <;> rfl
      | _ => rfl
  | removed => exact nothing (fun _ => .error (.removed name)) fun _ _ _ => rfl
  | _ => exact nothing (fun _ => .ok []) fun _ _ _ => rfl

theorem steady_resourceOfCall (function : Intrinsic) (name : String) :
    Steady scope (resourceOfCall scope function name) := by
  cases function with
  | getResource | getAttr | getAttrAll =>
    exact (steady_reference scope _ name 1).map (Except.bind · _)
  | _ => exact ⟨fun _ => .refl, fun _ _ _ => rfl⟩

theorem steady_attributesOfCall (function : Intrinsic) (name : String) :
    Steady scope (attributesOfCall scope function name) := by
  cases function with
  | getAttr | getAttrAll =>
    constructor
    · intro args
      exact (steady_reference scope _ name (itemCount args)).fuller args
    · intro before after fuller
      simp only [attributesOfCall, fuller.itemCount]
      exact congrArg (Except.bind · _)
        ((steady_reference scope _ name (itemCount before)).alike before after fuller)
  | _ => exact ⟨fun _ => .refl, fun _ _ _ => rfl⟩

end Visitors

end Node
end Orchestration
