import Orchestration.Proofs.Entries
import Orchestration.Migration.Apply

/-!
# Acting on a target

What an act leaves behind: the target with another value, or as it was, and no sibling where that was
moved.  Nothing else changes.
-/

set_option autoImplicit false

namespace Orchestration.Migration

/-! ## Adding -/

def addition (rule : Rule) (source : Source) (data : Object) : Option Json :=
  match rule.valueName with
  | some name =>
    match Entries.get? data name with
    | some .null | none => none
    | some value => some value
  | none => source.value

def itemsOf : Json → List Json
  | .list items => items
  | other => [other]

def extended (declared : Bool) (items : List Json) : Option Json → Option (List Json)
  | some (.list present) => some (present ++ items)
  | none | some .null => if declared then some items else none
  | some _ => none

def declaresList (schema : Option Schema) (key : String) : Bool :=
  ((schema.bind fun s => Entries.get? s key).map PropertyType.isList).getD false

theorem addTo_eq (rule : Rule) (schema : Option Schema) (source : Source) (data : Object)
    (key : String) : addTo rule schema source data key =
      match addition rule source data with
      | none => (.ok false, data)
      | some value =>
        match extended (declaresList schema key) (itemsOf value) (Entries.get? data key) with
        | some items => (.ok true, Entries.put data key (.list items))
        | none => (.error (.notAList key), data) := by
  change (match addition rule source data with
    | none => (.ok false, data)
    | some value =>
      match Entries.get? data key with
      | some (.list present) => (.ok true, Entries.put data key (.list (present ++ itemsOf value)))
      | none | some .null =>
        if declaresList schema key then (.ok true, Entries.put data key (.list (itemsOf value)))
        else (.error (.notAList key), data)
      | some _ => (.error (.notAList key), data) : Change Object Bool) = _
  cases addition rule source data with
  | none => rfl
  | some value =>
    cases Entries.get? data key with
    | none => cases declaresList schema key <;> rfl
    | some held =>
      cases held with
      | null => cases declaresList schema key <;> rfl
      | _ => rfl

/-! ## What an act leaves -/

section Act

variable (context : Context) (rule : Rule) (below : Option Schema) (source : Source)
  (data : Object) (key : String)

theorem addTo_leaves : (addTo rule below source data key).2 = data ∨
    ∃ items, (addTo rule below source data key).2 = Entries.put data key (.list items) := by
  rw [addTo]
  split
  · exact .inl rfl
  · simp only
    split
    · exact .inr ⟨_, rfl⟩
    · split
      · exact .inr ⟨_, rfl⟩
      · exact .inl rfl
    · split
      · exact .inr ⟨_, rfl⟩
      · exact .inl rfl
    · exact .inl rfl

theorem resolveAt_leaves : (resolveAt context rule data key).2 = data ∨
    ∃ ids, (resolveAt context rule data key).2 = Entries.put data key ids := by
  rw [resolveAt]
  split
  · split
    · exact .inl rfl
    · simp only
      split
      · exact .inl rfl
      · exact .inl rfl
      · exact .inr ⟨_, rfl⟩
  · exact .inl rfl

theorem replaceAt_leaves : ∃ left,
    (left = data ∨ ∃ name, rule.valueName = some name ∧ left = Entries.erase data name) ∧
      ((replaceAt rule source data key).2 = left ∨
        ∃ value, (replaceAt rule source data key).2 = Entries.put left key value) := by
  rw [replaceAt]
  split
  · rename_i name named
    simp only
    split
    · exact ⟨data, .inl rfl, .inl rfl⟩
    · refine ⟨_, .inr ⟨name, named, rfl⟩, ?_⟩
      split
      · split
        · exact .inr ⟨_, rfl⟩
        · exact .inl rfl
      · split
        · exact .inr ⟨_, rfl⟩
        · exact .inl rfl
      · exact .inr ⟨_, rfl⟩
  · refine ⟨data, .inl rfl, ?_⟩
    split
    · exact .inl rfl
    · simp only
      split
      · exact .inl rfl
      · exact .inr ⟨_, rfl⟩

theorem get?_actAt (distinct : Entries.Distinct data) (other : String) (apart : key ≠ other) :
    Entries.get? (actAt context rule below source data key).2 other = Entries.get? data other ∨
      Entries.get? (actAt context rule below source data key).2 other = none ∧
        rule.kind = .replace ∧ rule.valueName = some other := by
  have put (left : Object) (value : Json) :
      Entries.get? (Entries.put left key value) other = Entries.get? left other := by
    rw [Entries.get?_put, if_neg apart]
  rw [actAt]
  cases kind : rule.kind with
  | add =>
    rcases addTo_leaves rule below source data key with same | ⟨items, written⟩
    · exact .inl (by rw [same])
    · exact .inl (by rw [written, put])
  | replace =>
    obtain ⟨left, removed, written⟩ := replaceAt_leaves rule source data key
    have after : Entries.get? (replaceAt rule source data key).2 other =
        Entries.get? left other := by
      rcases written with same | ⟨value, written⟩
      · rw [same]
      · rw [written, put]
    rw [after]
    rcases removed with rfl | ⟨name, named, rfl⟩
    · exact .inl rfl
    · rw [Entries.get?_erase data distinct]
      split
      · rename_i same
        exact .inr ⟨rfl, rfl, same ▸ named⟩
      · exact .inl rfl
  | delete => exact .inl (by rw [deleteAt, Entries.get?_erase data distinct, if_neg apart])
  | resolve =>
    rcases resolveAt_leaves context rule data key with same | ⟨ids, written⟩
    · exact .inl (by rw [same])
    · exact .inl (by rw [written, put])

end Act

end Orchestration.Migration
