import Orchestration.Migration.Parameters
import Orchestration.Proofs.Json
import Orchestration.Proofs.Results
import Orchestration.Proofs.Template.Growth

/-!
# What stands for a parameter

A reference to a parameter resolves to a part of the parameter's value, or to an empty text.  So
resolving the references in properties never gives a map a key twice, and it changes nothing at
another key.
-/

set_option autoImplicit false

namespace Orchestration.Migration

namespace Context

/-- No parameter has a value in which a map has a key twice. -/
def WellFormed (context : Context) : Prop :=
  ∀ name held, context.stack.parameter? name = some held → held.WellFormed

theorem function?_eq_some (context : Context) (value : Json) (function : Intrinsic)
    (known : context.function? value = some function) :
    ∃ name args, value = .object [(name, args)] ∧
      context.template.version.function? name = some function := by
  match value with
  | .object [(name, args)] => exact ⟨name, args, rfl, known⟩
  | .object [] | .object (_ :: _ :: _) => cases known
  | .null | .bool _ | .number _ | .string _ | .list _ => cases known

theorem function?_of_keys (context : Context) (first second : Object)
    (same : Entries.keys first = Entries.keys second) :
    context.function? (.object first) = context.function? (.object second) := by
  match first, second with
  | [], [] => rfl
  | [(a, _)], [(b, _)] =>
    simp only [Entries.keys, List.map_cons, List.map_nil, List.cons.injEq, and_true] at same
    rw [same]
    rfl
  | _ :: _ :: _, _ :: _ :: _ => rfl
  | [], _ :: _ | _ :: _, [] | [_], _ :: _ :: _ | _ :: _ :: _, [_] => simp [Entries.keys] at same

theorem parse_of_function? (version : Version) (name : String) (raw : Json) (function : Intrinsic)
    (known : version.function? name = some function) (node : Node)
    (parsed : Node.parse version (.object [(name, raw)]) = .ok node) :
    ∃ args, node = .call function name args none := by
  simp only [Node.parse, known] at parsed
  obtain ⟨args, -, shaped⟩ := (bind_eq_ok_iff _ _ _).mp parsed
  refine ⟨args, ?_⟩
  unfold Node.ofCall at shaped
  split at shaped
  · cases shaped
  · exact (Except.ok.inj shaped).symm

theorem finish_getParam (scope : Scope) (name : String) (values : List Json) (value : Json)
    (ready : Bool) (done : scope.finish .getParam name values = .ok (value, ready)) :
    ∃ parameter held path, scope.stack.parameter? parameter = some held ∧
      value = (held.at? path).getD (.string "") := by
  match values with
  | [args] =>
    obtain ⟨found, looked, same⟩ := (map_eq_ok_iff _ _ _).mp done
    cases same
    rw [Scope.parameter_eq] at looked
    obtain ⟨⟨parameter, path⟩, -, read⟩ := (bind_eq_ok_iff _ _ _).mp looked
    simp only at read
    split at read
    · cases read
    · rename_i held holds
      exact ⟨parameter, held, path, holds, (Except.ok.inj read).symm⟩
  | [] | _ :: _ :: _ => cases done

theorem resolve_getParam (context : Context) (value resolved : Json)
    (known : context.function? value = some .getParam)
    (done : context.resolve value = .ok resolved) :
    ∃ name held path, context.stack.parameter? name = some held ∧
      resolved = (held.at? path).getD (.string "") := by
  obtain ⟨name, raw, rfl, own⟩ := context.function?_eq_some value .getParam known
  obtain ⟨node, parsed, settled⟩ := (bind_eq_ok_iff _ _ _).mp done
  obtain ⟨args, rfl⟩ := parse_of_function? _ name raw .getParam own node parsed
  have outcome := congrArg Prod.snd
    (Node.outcome_call ⟨context.template.digests, context.stack⟩ .getParam name args)
  rw [Step.outcome, settled] at outcome
  split at outcome
  · cases outcome
  · split at outcome
    · cases outcome
    · rename_i result ready finished
      cases outcome
      exact finish_getParam _ name _ resolved ready finished

theorem WellFormed.getParam {context : Context} (parameters : context.WellFormed)
    (value resolved : Json) (known : context.function? value = some .getParam)
    (done : context.resolve value = .ok resolved) : resolved.WellFormed := by
  obtain ⟨name, held, path, holds, rfl⟩ := context.resolve_getParam value resolved known done
  cases there : held.at? path with
  | none => simp [Json.WellFormed]
  | some part => exact (parameters name held holds).descendant held part path there

end Context

variable {context : Context}

theorem not_reference_of_list (items : List Json) :
    context.function? (.list items) ≠ some .getParam := by
  intro known
  cases known

theorem resolveReference_wellFormed (parameters : context.WellFormed) (value : Json)
    (known : context.function? value = some .getParam) (good : value.WellFormed) :
    (resolveReference context value).2.WellFormed := by
  unfold resolveReference
  split
  · rename_i resolved done
    exact parameters.getParam value resolved known done
  · exact good
  · exact good

theorem resolveItems_wellFormed (items : List Json)
    (each : ∀ x ∈ items, (resolveParameter context x).2.WellFormed)
    (good : ∀ x ∈ items, x.WellFormed) :
    ∀ x ∈ (resolveItems context items).2, x.WellFormed := by
  induction items with
  | nil =>
    intro x member
    rw [resolveItems] at member
    cases member
  | cons first rest ih =>
    have here := each first (List.mem_cons_self ..)
    have below := ih (fun x member => each x (List.mem_cons_of_mem _ member))
      fun x member => good x (List.mem_cons_of_mem _ member)
    intro x member
    rw [resolveItems] at member
    split at member
    · rename_i resolved done
      rw [done] at here
      rcases List.mem_cons.mp member with rfl | later
      · exact here
      · exact below x later
    · rename_i answer resolved stopped done
      rw [done] at here
      rcases List.mem_cons.mp member with rfl | later
      · exact here
      · exact good x (List.mem_cons_of_mem _ later)

theorem resolveParameter_of_not_list (value : Json) (other : ∀ items, value ≠ .list items) :
    resolveParameter context value =
      match context.function? value with
      | some .removed => (.ok false, value)
      | some .getParam => resolveReference context value
      | _ => (.ok true, value) := by
  unfold resolveParameter
  split
  · rename_i items
    exact absurd rfl (other items)
  · rfl

theorem resolveItems_length (items : List Json) :
    (resolveItems context items).2.length = items.length := by
  induction items with
  | nil => rw [resolveItems]
  | cons x rest ih =>
    rw [resolveItems]
    split
    · simp [ih]
    · simp

theorem resolveItems_item (items : List Json) (i : Nat) (x : Json) (there : items[i]? = some x) :
    (resolveItems context items).2[i]? = some (resolveParameter context x).2 ∨
      (resolveItems context items).2[i]? = some x := by
  induction items generalizing i with
  | nil => simp at there
  | cons y rest ih =>
    rw [resolveItems]
    cases i with
    | zero =>
      cases there
      split <;> simp_all
    | succ i =>
      split
      · exact ih i there
      · exact .inr there

theorem resolveItems_all (items : List Json) (all : (resolveItems context items).1 = .ok true)
    (i : Nat) (x : Json) (there : items[i]? = some x) :
    (resolveParameter context x).1 = .ok true ∧
      (resolveItems context items).2[i]? = some (resolveParameter context x).2 := by
  induction items generalizing i with
  | nil => simp at there
  | cons y rest ih =>
    rw [resolveItems] at all ⊢
    split
    · rename_i resolved done
      simp only [done] at all
      cases i with
      | zero =>
        cases there
        simp [done]
      | succ i => exact ih all i there
    · rename_i answer resolved stopped done
      simp only [done] at all
      exact absurd all stopped

theorem resolveItems_settled (items : List Json)
    (each : ∀ x ∈ items, resolveParameter context x = (.ok true, x)) :
    resolveItems context items = (.ok true, items) := by
  induction items with
  | nil => rw [resolveItems]
  | cons x rest ih =>
    rw [resolveItems, each x (List.mem_cons_self ..)]
    simp only [ih fun y member => each y (List.mem_cons_of_mem _ member)]

theorem resolveParameter_wellFormed (parameters : context.WellFormed) (value : Json)
    (good : value.WellFormed) : (resolveParameter context value).2.WellFormed := by
  have plain : ∀ value : Json, (∀ items, value ≠ .list items) → value.WellFormed →
      (resolveParameter context value).2.WellFormed := by
    intro value other good
    rw [resolveParameter_of_not_list value other]
    split
    · exact good
    · rename_i known
      exact resolveReference_wellFormed parameters value known good
    · exact good
  induction value using Json.parts_induction with
  | list items each =>
    rw [resolveParameter]
    have every := (Json.wellFormed_list_iff items).mp good
    exact (Json.wellFormed_list_iff _).mpr
      (resolveItems_wellFormed items (fun x member => each x member (every x member)) every)
  | _ => exact plain _ (by simp) good

theorem resolveSlot_absent (data : Object) (key : String)
    (absent : Entries.get? data key = none) :
    resolveSlot context data key = (.ok true, data) := by
  rw [resolveSlot, absent]

theorem resolveSlot_present (data : Object) (key : String) (value : Json)
    (present : Entries.get? data key = some value) :
    resolveSlot context data key =
      ((resolveParameter context value).1,
        Entries.put data key (resolveParameter context value).2) := by
  rw [resolveSlot, present]

theorem get?_resolveSlot_of_ne (data : Object) (key other : String) (apart : key ≠ other) :
    Entries.get? (resolveSlot context data key).2 other = Entries.get? data other := by
  cases present : Entries.get? data key with
  | none => rw [resolveSlot_absent data key present]
  | some value => rw [resolveSlot_present data key value present, Entries.get?_put, if_neg apart]

theorem keys_resolveSlot (data : Object) (key : String) :
    Entries.keys (resolveSlot context data key).2 = Entries.keys data := by
  cases present : Entries.get? data key with
  | none => rw [resolveSlot_absent data key present]
  | some x =>
    rw [resolveSlot_present data key x present]
    exact Entries.keys_put_of_present data key x _ present

theorem slot_entered (data resolved : Object) (key : String) (value : Json)
    (slot : resolveSlot context data key = (.ok true, resolved))
    (holds : Entries.get? resolved key = some value) :
    ∃ x, Entries.get? data key = some x ∧ resolved = Entries.put data key value ∧
      (resolveParameter context x).1 = .ok true ∧ (resolveParameter context x).2 = value := by
  cases present : Entries.get? data key with
  | none =>
    rw [resolveSlot_absent data key present] at slot
    cases slot
    rw [present] at holds
    cases holds
  | some x =>
    rw [resolveSlot_present data key x present] at slot
    obtain ⟨goesOn, rfl⟩ := Prod.mk.inj slot
    rw [Entries.get?_put, if_pos rfl] at holds
    cases holds
    exact ⟨x, rfl, rfl, goesOn, rfl⟩

theorem resolveSlot_wellFormed (parameters : context.WellFormed) (data : Object) (key : String)
    (good : (Json.object data).WellFormed) :
    (Json.object (resolveSlot context data key).2).WellFormed := by
  cases present : Entries.get? data key with
  | none => rwa [resolveSlot_absent data key present]
  | some value =>
    rw [resolveSlot_present data key value present]
    have inside := good.entry key value present
    exact good.put key _ (resolveParameter_wellFormed parameters value inside)

end Orchestration.Migration
