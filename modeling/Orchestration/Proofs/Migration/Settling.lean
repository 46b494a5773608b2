import Orchestration.Migration.Apply
import Orchestration.Proofs.Migration.Parameters

/-!
# References that give way to their values

A rule resolves the references to parameters that it meets on the way of its path and of its value
path, also as items of lists that stand there.  `Settled` relates a value to the one in which some of
these references have been replaced by their values, and nothing else is different.
-/

set_option autoImplicit false

namespace Orchestration.Migration

/-- The keys are on the way of the path of a rule or of its value path. -/
structure Rule.Reads (rule : Rule) (keys : List String) : Prop where
  below : keys ≠ []
  leads : keys <+: rule.path ∨ ∃ source, rule.valuePath = some source ∧ keys <+: source

section Settled

variable (context : Context) (rule : Rule)

/-- References on the way of a rule, below some keys, have been replaced by their values. -/
inductive Settled : List String → Json → Json → Prop where
  | same (front : List String) (value : Json) : Settled front value value
  | reference {front : List String} {value result : Json} (reads : rule.Reads front)
    (call : context.function? value = some .getParam)
    (resolved : context.resolve value = .ok result) : Settled front value result
  | list {front : List String} {before after : List Json} (length : after.length = before.length)
    (each : ∀ (i : Nat) (x y : Json), before[i]? = some x → after[i]? = some y →
      Settled front x y) : Settled front (.list before) (.list after)
  | map {front : List String} {before after : Object}
    (keys : Entries.keys after = Entries.keys before)
    (each : ∀ (key : String) (x y : Json), Entries.get? before key = some x →
      Entries.get? after key = some y → Settled (front ++ [key]) x y) :
    Settled front (.object before) (.object after)
  | trans {front : List String} {x y z : Json} (first : Settled front x y)
    (second : Settled front y z) : Settled front x z

end Settled

variable {context : Context} {rule : Rule} {front : List String}

namespace Settled

theorem put {data : Object} {key : String} {x y : Json} (there : Entries.get? data key = some x)
    (settled : Settled context rule (front ++ [key]) x y) :
    Settled context rule front (.object data) (.object (Entries.put data key y)) := by
  refine .map (Entries.keys_put_of_present data key x y there) fun other a b before after => ?_
  rw [Entries.get?_put] at after
  split at after
  · rename_i same
    subst same
    cases there.symm.trans before
    cases after
    exact settled
  · cases before.symm.trans after
    exact .same ..

theorem of_forall₂ {before after : List Json}
    (pairs : List.Forall₂ (Settled context rule front) before after) :
    Settled context rule front (.list before) (.list after) := by
  refine .list pairs.length_eq.symm fun i x y first second => ?_
  obtain ⟨missing, -⟩ | ⟨_, _, before, after, settled⟩ := forall₂_getElem? pairs i
  · cases missing.symm.trans first
  · cases before.symm.trans first
    cases after.symm.trans second
    exact settled

theorem of_empty {x y : Json} (settled : Settled context rule front x y) (empty : x = .object []) :
    y = .object [] := by
  induction settled with
  | same => exact empty
  | reference reads call =>
    rw [empty] at call
    cases call
  | list => cases empty
  | map keys =>
    cases empty
    rw [Entries.keys, Entries.keys, List.map_nil, List.map_eq_nil_iff] at keys
    rw [keys]
  | trans first second ihFirst ihSecond => exact ihSecond (ihFirst empty)

theorem resolveParameter (reads : rule.Reads front) (value : Json) :
    Settled context rule front value (resolveParameter context value).2 := by
  have single : ∀ value : Json, (∀ items, value ≠ .list items) →
      Settled context rule front value (Migration.resolveParameter context value).2 := by
    intro value other
    rw [resolveParameter_of_not_list value other]
    split
    · exact .same ..
    · rename_i call
      rw [resolveReference]
      split
      · rename_i result resolved
        exact .reference reads call resolved
      · exact .same ..
      · exact .same ..
    · exact .same ..
  induction value using Json.parts_induction with
  | list items ih =>
    rw [Migration.resolveParameter]
    refine .list (resolveItems_length items) fun i x y before after => ?_
    rcases resolveItems_item items i x before with done | untouched
    · cases done.symm.trans after
      exact ih x (List.mem_of_getElem? before)
    · cases untouched.symm.trans after
      exact .same ..
  | _ => exact single _ (by simp)

theorem resolveSlot (data : Object) (key : String) (reads : rule.Reads (front ++ [key])) :
    Settled context rule front (.object data) (.object (resolveSlot context data key).2) := by
  cases present : Entries.get? data key with
  | none =>
    rw [resolveSlot_absent data key present]
    exact .same ..
  | some x =>
    rw [resolveSlot_present data key x present]
    exact put present (resolveParameter reads x)

theorem valueAt (path : List String) (source : rule.valuePath = some (front ++ path))
    (data : Object) :
    Settled context rule front (.object data) (.object (valueAt context path data).2) := by
  induction path generalizing front data with
  | nil => exact .same ..
  | cons key rest ih =>
    have reads : rule.Reads (front ++ [key]) := ⟨by simp, .inr ⟨_, source, rest, by simp⟩⟩
    have slot : Settled context rule front (.object data)
        (.object (Migration.resolveSlot context data key).2) := resolveSlot data key reads
    rw [Migration.valueAt]
    generalize Migration.resolveSlot context data key = found at slot
    obtain ⟨answer, resolved⟩ := found
    rcases answer with _ | _ | _
    · exact slot
    · exact slot
    · simp only
      split
      · exact slot
      · rename_i next others child here
        exact slot.trans (put here (ih (by simpa using source) child))
      · exact slot
      · exact slot

end Settled

end Orchestration.Migration
