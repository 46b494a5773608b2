import Orchestration.Proofs.Template.Operands

/-!
# Calls whose operands have values

A call comes to what its function makes of the values of its operands, once each of them passed its
check.
-/

set_option autoImplicit false

namespace Orchestration.Node

def Gives (scope : Scope) (node : Node) (value : Json) : Prop :=
  (resolve scope node).value = .ok value

theorem values_resolveFirst_iff (scope : Scope) (check : Check) (xs : List Node) (position : Nat)
    (values : List Json) :
    (resolveFirst scope check position xs.length xs).outcome.2 = .ok values ↔
      List.Forall₂ (Gives scope) xs values ∧
        ∀ i value, values[i]? = some value → check (position + i) value = .ok () := by
  induction xs generalizing position values with
  | nil => cases values <;> simp [resolveFirst, Step.outcome]
  | cons x rest ih =>
    rw [List.length_cons, values_resolveFirst_cons_iff, List.forall₂_cons_left_iff]
    simp only [ih]
    constructor
    · rintro ⟨value, more, given, checked, ⟨others, checks⟩, rfl⟩
      exact ⟨⟨value, more, given, others, rfl⟩, (checked_cons_iff ..).mpr ⟨checked, checks⟩⟩
    · rintro ⟨⟨value, more, given, others, rfl⟩, checks⟩
      obtain ⟨checked, later⟩ := (checked_cons_iff ..).mp checks
      exact ⟨value, more, given, checked, ⟨others, later⟩, rfl⟩

theorem value_list (scope : Scope) (items : List Node) :
    (resolve scope (.list items)).value =
      (resolveFirst scope unchecked 0 items.length items).outcome.2.map .list :=
  congrArg Prod.snd (outcome_list scope items)

theorem value_map (scope : Scope) (entries : List (String × Node)) :
    (resolve scope (.map entries)).value =
      (resolveFirst scope unchecked 0 entries.length (entries.map Prod.snd)).outcome.2.map
        fun values => Json.object ((Entries.keys entries).zip values) :=
  congrArg Prod.snd (outcome_map scope entries)

theorem gives_list_iff (scope : Scope) (items : List Node) (value : Json) :
    Gives scope (.list items) value ↔
      ∃ values, List.Forall₂ (Gives scope) items values ∧ value = .list values := by
  rw [Gives, value_list, map_eq_ok_iff]
  simp only [values_resolveFirst_iff, unchecked, implies_true, and_true]
  exact exists_congr fun values => and_congr_right fun _ => eq_comm

theorem value_unremembered (scope : Scope) (function : Intrinsic) (name : String) (args : Node) :
    (resolve scope (.call function name args none)).value =
      (operandsOutcome scope function name args).2.bind fun values =>
        (scope.finish function name values).map Prod.fst := by
  refine (congrArg Prod.snd (outcome_call scope function name args)).trans ?_
  obtain ⟨ready, answer⟩ := operandsOutcome scope function name args
  cases answer with
  | error e => rfl
  | ok values =>
    simp only [Except.bind]
    cases scope.finish function name values <;> rfl

theorem gives_call_iff (scope : Scope) (function : Intrinsic) (name : String) (args : Node)
    (value : Json) :
    Gives scope (.call function name args none) value ↔
      ∃ values, (operandsOutcome scope function name args).2 = .ok values ∧
        (scope.finish function name values).map Prod.fst = .ok value := by
  rw [Gives, value_unremembered, bind_eq_ok_iff]

section Call

variable (scope : Scope) (function : Intrinsic) (name : String) (args : Node) (nodes : List Node)
  (values : List Json) (found : operands? function args = some nodes)
  (given : List.Forall₂ (Gives scope) nodes values)
  (accepted : ∀ i value, values[i]? = some value → scope.accept function name i value = .ok ())

include found given accepted

theorem values_operands : (operandsOutcome scope function name args).2 = .ok values := by
  simp only [operandsOutcome, found]
  refine (values_resolveFirst_iff ..).mpr ⟨given, fun i value there => ?_⟩
  rw [Nat.zero_add]
  exact accepted i value there

theorem value_call :
    (resolve scope (.call function name args none)).value =
      (scope.finish function name values).map Prod.fst := by
  rw [value_unremembered,
    values_operands scope function name args nodes values found given accepted]
  rfl

end Call

end Orchestration.Node
