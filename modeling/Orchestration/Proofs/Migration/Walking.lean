import Orchestration.Proofs.Migration.Contents
import Orchestration.Proofs.Migration.Descent

/-!
# Walks and removals are descents

Where nothing is resolved, walking to the targets of a rule is a descent that goes through lists and
may create maps, and taking away a source is one that goes through maps only.
-/

set_option autoImplicit false

namespace Orchestration.Migration

open Json (Inert)

variable {context : Context} {version : Version} {rule : Rule}

/-! ## Walking -/

def walking (context : Context) (rule : Rule) (source : Source) : Descent where
  opens := !rule.skipsMissing
  spreads := true
  beside := rule.valueName
  act schema data key := actAt context rule schema source data key

section Acts

variable (source : Source) (schema : Option Schema) (data : Object) (key : String)

theorem act_walking_add (adds : rule.kind = .add) :
    (walking context rule source).act schema data key = addTo rule schema source data key := by
  simp only [walking, actAt, adds]

theorem act_walking_replace (replaces : rule.kind = .replace) :
    (walking context rule source).act schema data key = replaceAt rule source data key := by
  simp only [walking, actAt, replaces]

theorem act_walking_delete (deletes : rule.kind = .delete) :
    (walking context rule source).act schema data key = deleteAt data key := by
  simp only [walking, actAt, deletes]

end Acts

theorem walk_eq_run_of_free (source : Source) (path : List String) (schema : Option Schema)
    (data : Object) (free : context.FreeAlong true path data) :
    walk context rule source path schema data =
      (walking context rule source).run path schema data := by
  induction path generalizing schema data with
  | nil => rfl
  | cons key path ih =>
    cases path with
    | nil =>
      rw [walk, resolveSlot_free data key fun x present => (free x present).1]
      rfl
    | cons next rest =>
      have below := ih (schema.bind fun s => s.child? key)
      rw [walk, resolveSlot_free data key fun x present => (free x present).1, Descent.run_cons]
      rcases slot_cases (Entries.get? data key) with ⟨child, here⟩ | ⟨items, here⟩ | vacant | closed
      · simp only [openBelow, here]
        rw [below child ((free _ here).2.1 child rfl)]
        rfl
      · simp only [openBelow, here]
        rw [overMaps_congr _ _ items fun child member =>
          below child ((free _ here).2.2 rfl items child rfl member)]
        rfl
      · rw [Descent.inside_vacant _ _ _ _ vacant]
        by_cases opened : (declaresMap schema key && (walking context rule source).opens) = true
        · have created : openBelow rule schema data key = Entries.put data key (.object []) := by
            rcases vacant with here | here <;> rw [openBelow, here] <;> exact if_pos opened
          simp only [created, Entries.get?_put, if_true, if_pos opened, below [] (.empty true _),
            Entries.put_put, store]
        · have left : openBelow rule schema data key = data := by
            rcases vacant with here | here <;> rw [openBelow, here] <;> exact if_neg opened
          simp only [left, if_neg opened, store_get?]
          rcases vacant with here | here <;> rw [here]
      · rw [Descent.inside_closed _ _ _ _ closed]
        obtain ⟨value, here, notMap, notList, notNull⟩ := closed
        have left : openBelow rule schema data key = data := by
          rw [openBelow, here]
          cases value with
          | null => exact absurd rfl notNull
          | _ => rfl
        simp only [left, store_get?]
        rw [here]
        cases value with
        | object child => exact absurd rfl (notMap child)
        | list items => exact absurd rfl (notList items)
        | _ => rfl

theorem walk_eq_run (source : Source) (path : List String) (schema : Option Schema) (data : Object)
    (inert : Inert context.template.version (.object data)) :
    walk context rule source path schema data =
      (walking context rule source).run path schema data :=
  walk_eq_run_of_free source path schema data (.of_inert true path data inert)

theorem lawful_walking {source : Source}
    (sourced : ∀ value, source.value = some value → value.Inert context.template.version)
    (single : ∀ name, rule.valueName = some name → source.value = none) :
    (walking context rule source).Lawful context.template.version where
  acts schema key named := confined_actAt rule sourced schema named
  quiet shut schema key := by
    have skips : rule.skipsMissing = true := by simpa [walking] using shut
    change actAt context rule schema source [] key = _
    rw [actAt]
    rw [Rule.skipsMissing] at skips
    cases kind : rule.kind with
    | add =>
      rw [kind] at skips
      cases skips
    | replace =>
      rw [kind] at skips
      obtain ⟨name, named⟩ := Option.isSome_iff_exists.mp skips
      simp only
      rw [replaceAt_vacant rule source [] key name named (by rintro _ ⟨⟩), single name named]
      rfl
    | delete => rfl
    | resolve => cases finds : rule.finder <;> simp only [resolveAt, finds, Entries.get?_nil]

/-! ## Taking away -/

def removing : Descent where
  opens := false
  spreads := false
  beside := none
  act _ data key := (.ok false, Entries.erase data key)

theorem inside_removing (declared : Bool) (visit : Object → Change Object Bool)
    (slot : Option Json) (other : ∀ child, slot ≠ some (.object child)) :
    removing.inside declared visit slot = (.ok false, slot) := by
  rcases slot_cases slot with ⟨child, rfl⟩ | ⟨items, rfl⟩ | vacant | closed
  · exact absurd rfl (other child)
  · rfl
  · rw [Descent.inside_vacant _ _ _ _ vacant, removing, Bool.and_false, if_neg Bool.false_ne_true]
  · rw [Descent.inside_closed _ _ _ _ closed]

theorem run_removing (path : List String) (schema : Option Schema) (data : Object) :
    removing.run path schema data = (.ok false, removeAt path data) := by
  induction path generalizing schema data with
  | nil => rfl
  | cons key path ih =>
    cases path with
    | nil => rfl
    | cons next rest =>
      rw [Descent.run_cons, removeAt]
      by_cases map : ∃ child, Entries.get? data key = some (.object child)
      · obtain ⟨child, here⟩ := map
        rw [here, Descent.inside_map, ih]
        rfl
      · rw [inside_removing _ _ _ fun child here => map ⟨child, here⟩]
        simp only [store_get?]
        split
        · rename_i child here
          exact absurd ⟨child, here⟩ map
        · rfl

theorem lawful_removing : removing.Lawful version where
  acts schema key named :=
    { frame := fun data inert other outside => by
        have apart : key ≠ other := by
          rintro rfl
          exact outside (List.mem_cons_self ..)
        change Entries.get? (Entries.erase data key) other = _
        rw [Entries.get?_erase data inert.wellFormed.distinct, if_neg apart]
      depends := fun first second inert inert' same => by
        refine ⟨rfl, fun other member => ?_⟩
        rw [removing, contentAt_erase _ _ _ inert.wellFormed.distinct,
          contentAt_erase _ _ _ inert'.wellFormed.distinct, same other member]
      keeps := fun data inert => inert.erase key }
  quiet _ _ _ := rfl

end Orchestration.Migration
