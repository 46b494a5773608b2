import Orchestration.Proofs.Migration.Places

/-!
# Replacing a target

What a replacing rule does to one map: a sibling that is there goes before the value of the rule,
and two populated spellings conflict.
-/

set_option autoImplicit false

namespace Orchestration.Migration

def Supplied (data : Object) (key : String) : Prop :=
  ∃ value, Entries.get? data key = some value ∧ isPopulated value = true

def Vacant (data : Object) (key : String) : Prop :=
  ∀ value, Entries.get? data key = some value → value = .null

theorem supplied_iff (data : Object) (key : String) :
    Supplied data key ↔ ((Entries.get? data key).map isPopulated).getD false = true := by
  unfold Supplied
  cases Entries.get? data key with
  | none => simp
  | some value => simp

theorem Vacant.not_supplied {data : Object} {key : String} (vacant : Vacant data key) :
    ¬ Supplied data key := by
  rintro ⟨value, found, populated⟩
  rw [vacant value found] at populated
  cases populated

theorem act_replaces {rule : Rule} (replaces : rule.kind = .replace) (context : Context)
    (source : Source) (key : String) (place : Place) :
    place.act context rule source key = replaceAt rule source place.data key := by
  simp only [Place.act, actAt, replaces]

/-! ## Replacing a target by its sibling -/

variable (rule : Rule) (source : Source) (data : Object) (key name : String)

theorem replaceAt_conflict (named : rule.valueName = some name) (target : Supplied data key)
    (sibling : Supplied data name) :
    replaceAt rule source data key = (.error (.conflict key name), data) := by
  rw [supplied_iff] at target sibling
  simp only [replaceAt, named, target, sibling, Bool.and_self, if_true]

theorem replaceAt_single (named : rule.valueName = some name)
    (single : ¬ (Supplied data key ∧ Supplied data name)) :
    replaceAt rule source data key =
      match Entries.get? data name with
      | some .null | none =>
        match source.value with
        | some value => (.ok true, Entries.put (Entries.erase data name) key value)
        | none => (.ok false, Entries.erase data name)
      | some sibling => (.ok true, Entries.put (Entries.erase data name) key sibling) := by
  rw [supplied_iff, supplied_iff, ← Bool.and_eq_true] at single
  simp only [replaceAt, named]
  exact if_neg single

theorem replaceAt_sibling (named : rule.valueName = some name)
    (single : ¬ (Supplied data key ∧ Supplied data name)) (value : Json)
    (found : Entries.get? data name = some value) (present : value ≠ .null) :
    replaceAt rule source data key =
      (.ok true, Entries.put (Entries.erase data name) key value) := by
  rw [replaceAt_single rule source data key name named single, found]
  cases value with
  | null => exact absurd rfl present
  | _ => rfl

theorem replaceAt_vacant (named : rule.valueName = some name) (vacant : Vacant data name) :
    replaceAt rule source data key =
      match source.value with
      | some value => (.ok true, Entries.put (Entries.erase data name) key value)
      | none => (.ok false, Entries.erase data name) := by
  rw [replaceAt_single rule source data key name named fun both => vacant.not_supplied both.2]
  cases found : Entries.get? data name with
  | none => rfl
  | some value =>
    cases vacant value found
    rfl

theorem sibling_cases :
    (Supplied data key ∧ Supplied data name) ∨ Vacant data name ∨
      (¬ (Supplied data key ∧ Supplied data name) ∧
        ∃ value, Entries.get? data name = some value ∧ value ≠ .null) := by
  by_cases both : Supplied data key ∧ Supplied data name
  · exact .inl both
  · cases found : Entries.get? data name with
    | none =>
      refine .inr (.inl fun value there => ?_)
      rw [found] at there
      cases there
    | some value =>
      by_cases null : value = .null
      · refine .inr (.inl fun other there => ?_)
        rw [found] at there
        exact (Option.some.inj there).symm.trans null
      · exact .inr (.inr ⟨both, value, rfl, null⟩)

/-! ## Replacing a target by a found value -/

variable (value : Json)

theorem replaceAt_occupied (unnamed : rule.valueName = none) (sourced : source.value = some value)
    (fromPath : source.fromPath = true) (target : Supplied data key) :
    replaceAt rule source data key = (.error (.conflict key source.name), data) := by
  rw [supplied_iff] at target
  simp only [replaceAt, unnamed, sourced, fromPath, target, Bool.and_self, if_true]

theorem replaceAt_free (unnamed : rule.valueName = none) (sourced : source.value = some value)
    (free : ¬ Supplied data key) :
    replaceAt rule source data key = (.ok true, Entries.put data key value) := by
  rw [supplied_iff, Bool.not_eq_true] at free
  simp only [replaceAt, unnamed, sourced, free, Bool.and_false]
  rfl

theorem replaceAt_wrote (sourced : source.value = some value) (wrote : Bool)
    (done : (replaceAt rule source data key).1 = .ok wrote) : wrote = true := by
  cases named : rule.valueName with
  | none =>
    simp only [replaceAt, named, sourced] at done
    split at done
    · cases done
    · exact (Except.ok.inj done).symm
  | some name =>
    rcases sibling_cases data key name with ⟨target, sibling⟩ | vacant |
      ⟨single, held, found, present⟩
    · rw [replaceAt_conflict rule source data key name named target sibling] at done
      cases done
    · rw [replaceAt_vacant rule source data key name named vacant, sourced] at done
      exact (Except.ok.inj done).symm
    · rw [replaceAt_sibling rule source data key name named single held found present] at done
      exact (Except.ok.inj done).symm

theorem replaceAt_writes (sourced : source.value = some value)
    (fromPath : source.fromPath = true) (populated : isPopulated value = true)
    (used : ∀ name, rule.valueName = some name →
      Vacant data name ∨ Entries.get? data name = some value)
    (wrote : Bool) (left : Object) (done : replaceAt rule source data key = (.ok wrote, left)) :
    Entries.get? left key = some value := by
  cases named : rule.valueName with
  | none =>
    by_cases target : Supplied data key
    · rw [replaceAt_occupied rule source data key value named sourced fromPath target] at done
      cases done
    · rw [replaceAt_free rule source data key value named sourced target] at done
      cases done
      rw [Entries.get?_put, if_pos rfl]
  | some name =>
    have present : value ≠ .null := by
      rintro rfl
      cases populated
    rcases sibling_cases data key name with ⟨target, sibling⟩ | vacant |
      ⟨single, held, found, there⟩
    · rw [replaceAt_conflict rule source data key name named target sibling] at done
      cases done
    · rw [replaceAt_vacant rule source data key name named vacant, sourced] at done
      cases done
      rw [Entries.get?_put, if_pos rfl]
    · rw [replaceAt_sibling rule source data key name named single held found there] at done
      cases done
      rw [Entries.get?_put, if_pos rfl]
      rcases used name named with vacant | same
      · exact absurd (vacant held found) there
      · rw [← found, same]

theorem replaceAt_wellFormed (good : (Json.object data).WellFormed)
    (sourceGood : ∀ value, source.value = some value → value.WellFormed) :
    (Json.object (replaceAt rule source data key).2).WellFormed := by
  cases named : rule.valueName with
  | none =>
    simp only [replaceAt, named]
    cases sourced : source.value with
    | none => exact good
    | some value =>
      simp only
      split
      · exact good
      · exact good.put key value (sourceGood value sourced)
  | some name =>
    rcases sibling_cases data key name with ⟨target, sibling⟩ | vacant |
      ⟨single, held, found, there⟩
    · rw [replaceAt_conflict rule source data key name named target sibling]
      exact good
    · rw [replaceAt_vacant rule source data key name named vacant]
      cases sourced : source.value with
      | none => exact good.erase name
      | some value => exact (good.erase name).put key value (sourceGood value sourced)
    · rw [replaceAt_sibling rule source data key name named single held found there]
      exact (good.erase name).put key held (good.entry name held found)

/-- A walk that replaces keeps maps well-formed if its source is. -/
theorem walk_replaces_wellFormed {context : Context} {rule : Rule} {source : Source}
    (parameters : context.WellFormed) (replaces : rule.kind = .replace)
    (sourceGood : ∀ value, source.value = some value → value.WellFormed) (path : List String)
    (schema : Option Schema) {data : Object} (good : (Json.object data).WellFormed) :
    (Json.object (walk context rule source path schema data).2).WellFormed := by
  refine walk_wellFormed context rule parameters source (fun below inner key innerGood => ?_)
    path schema data good
  rw [actAt, replaces]
  exact replaceAt_wellFormed rule source inner key innerGood sourceGood

end Orchestration.Migration
