import Mathlib.Data.List.Nodup
import Orchestration.Proofs.Migration.Moving
import Orchestration.Proofs.Migration.Renaming
import Orchestration.Proofs.Template.PlainData

/-!
# Two ways to name a source

A property is renamed by a rule that names the old key as the sibling of the new one, or as a value
path.  Both move a populated value alike.  A value that is there but does not count as populated is
moved by the first way only; the second leaves the properties as they are.
-/

set_option autoImplicit false

namespace Orchestration

theorem Entries.perm_of_get? {α : Type} {first second : Entries α} (distinct : Distinct first)
    (distinct' : Distinct second) (same : ∀ key, get? first key = get? second key) :
    first.Perm second := by
  have nodup : List.Nodup first := .of_map Prod.fst distinct
  have nodup' : List.Nodup second := .of_map Prod.fst distinct'
  refine (List.perm_ext_iff_of_nodup nodup nodup').mpr fun entry => ?_
  rw [← get?_eq_some_iff first distinct, ← get?_eq_some_iff second distinct', same]

namespace Migration

variable {context : Context}

/-! ## Values without calls -/

theorem Context.function?_plain (value : Json) (plain : value.PlainIn context.template.version) :
    context.function? value = none := by
  match value with
  | .object [(name, args)] => exact plain name (by simp [Json.loneKeys])
  | .object [] | .object (_ :: _ :: _) => rfl
  | .null | .bool _ | .number _ | .string _ | .list _ => rfl

theorem resolveParameter_plain (value : Json) (plain : value.PlainIn context.template.version) :
    resolveParameter context value = (.ok true, value) := by
  induction value using Json.parts_induction with
  | list items ih =>
    rw [resolveParameter,
      resolveItems_settled items fun x member => ih x member (plain.item x member)]
  | _ => rw [resolveParameter_of_not_list _ (by simp), context.function?_plain _ plain]

theorem not_populated_iff (value : Json) (present : value ≠ .null) : isPopulated value = false ↔
    value ∈ [.bool false, .string "", .list [], .object []] := by
  cases value <;> simp [isPopulated] at present ⊢

/-! ## The two rules -/

namespace Rule

def fromSibling (old new : String) : Rule :=
  ⟨.replace, [new], none, some old, none, none⟩

def fromKey (old new : String) : Rule :=
  ⟨.replace, [new], none, none, some [old], none⟩

theorem fromSibling_renames (old new : String) (apart : old ≠ new) :
    (fromSibling old new).Renames old new :=
  ⟨rfl, rfl, rfl, rfl, rfl, apart⟩

theorem fromKey_valid (old new : String) : (fromKey old new).Valid := rfl

variable (schema : Schema) (data : Object) (old new : String) (value : Json)

theorem execute_fromSibling (apart : old ≠ new)
    (settled : resolveSlot context data new = (.ok true, data)) (vacant : Vacant data new)
    (held : Entries.get? data old = some value) (present : value ≠ .null) :
    (fromSibling old new).execute context schema data =
      (.ok (), Entries.put (Entries.erase data old) new value) := by
  have walks : walk context (fromSibling old new) ((fromSibling old new).source none)
      (fromSibling old new).path (some schema) data =
      (.ok true, Entries.put (Entries.erase data old) new value) := by
    rw [show (fromSibling old new).path = [new] from rfl, walk, settled]
    exact replaceAt_sibling (fromSibling old new) ((fromSibling old new).source none) data new old
      rfl (fun both => vacant.not_supplied both.1) value held present
  rw [(fromSibling_renames old new apart).execute_eq, walks]
  rfl

theorem valueAt_key (settled : resolveSlot context data old = (.ok true, data))
    (held : Entries.get? data old = some value) :
    valueAt context [old] data =
      (.ok (if isPopulated value then .found value else .missing), data) := by
  simp only [valueAt, settled, held]

theorem execute_fromKey (source : resolveSlot context data old = (.ok true, data))
    (target : resolveSlot context data new = (.ok true, data)) (vacant : Vacant data new)
    (held : Entries.get? data old = some value) (populated : isPopulated value = true) :
    (fromKey old new).execute context schema data =
      (.ok (), Entries.erase (Entries.put data new value) old) := by
  have walks : walk context (fromKey old new) ((fromKey old new).source (some value))
      (fromKey old new).path (some schema) data = (.ok true, Entries.put data new value) := by
    rw [show (fromKey old new).path = [new] from rfl, walk, target]
    exact replaceAt_free (fromKey old new) ((fromKey old new).source (some value)) data new value
      rfl rfl vacant.not_supplied
  have path : (fromKey old new).valuePath = some [old] := rfl
  have found := valueAt_key data old value source held
  rw [if_pos populated] at found
  simp only [execute, path, found, write, walks]
  rfl

theorem execute_fromKey_empty (source : resolveSlot context data old = (.ok true, data))
    (held : Entries.get? data old = some value) (empty : isPopulated value = false) :
    (fromKey old new).execute context schema data = (.ok (), data) := by
  have missing := valueAt_key data old value source held
  simp only [empty, Bool.false_eq_true, if_false] at missing
  simp only [execute, fromKey, missing]
  rfl

end Rule

theorem resolveSlot_plain (data : Object) (key : String)
    (plain : ∀ value ∈ data.map Prod.snd, value.PlainIn context.template.version) :
    resolveSlot context data key = (.ok true, data) := by
  cases held : Entries.get? data key with
  | none => exact resolveSlot_absent data key held
  | some value =>
    have member := List.mem_map_of_mem (f := Prod.snd) (Entries.mem_of_get? data key value held)
    exact resolveSlot_settled data key value held
      (resolveParameter_plain value (plain value member))

/-- Both ways of naming the source leave the same properties if its value is populated.  Otherwise
only the sibling is moved. -/
theorem spellings_agree (schema : Schema) (data : Object) (distinct : Entries.Distinct data)
    (plain : ∀ value ∈ data.map Prod.snd, value.PlainIn context.template.version)
    (old new : String) (apart : old ≠ new) (vacant : Vacant data new) (value : Json)
    (held : Entries.get? data old = some value) (present : value ≠ .null) :
    (Rule.fromSibling old new).Valid ∧ (Rule.fromKey old new).Valid ∧
      ∃ moved, (Rule.fromSibling old new).execute context schema data = (.ok (), moved) ∧
        (∀ other, Entries.get? moved other =
          if other = new then some value else if other = old then none
            else Entries.get? data other) ∧
        (isPopulated value = true → ∃ also,
          (Rule.fromKey old new).execute context schema data = (.ok (), also) ∧
            also.Perm moved) ∧
        (value ∈ [.bool false, .string "", .list [], .object []] →
          (Rule.fromKey old new).execute context schema data = (.ok (), data)) := by
  have source : resolveSlot context data old = (.ok true, data) := resolveSlot_plain data old plain
  have target : resolveSlot context data new = (.ok true, data) := resolveSlot_plain data new plain
  have lookup : ∀ other,
      Entries.get? (Entries.put (Entries.erase data old) new value) other =
        if other = new then some value else if other = old then none
          else Entries.get? data other := by
    intro other
    simp only [Entries.get?_put, Entries.get?_erase data distinct, eq_comm]
  refine ⟨(Rule.fromSibling_renames old new apart).valid, Rule.fromKey_valid old new,
    Entries.put (Entries.erase data old) new value,
    Rule.execute_fromSibling schema data old new value apart target vacant held present, lookup,
    fun populated => ?_, fun empty => ?_⟩
  -- One rule takes the old key away before it writes and the other after, so only the order of the
  -- keys can differ.
  · have written := Entries.distinct_put distinct new value
    refine ⟨Entries.erase (Entries.put data new value) old,
      Rule.execute_fromKey schema data old new value source target vacant held populated, ?_⟩
    refine Entries.perm_of_get? (Entries.distinct_erase _ written old)
      (Entries.distinct_put (Entries.distinct_erase data distinct old) new value) fun other => ?_
    rw [lookup, Entries.get?_erase _ written, Entries.get?_put]
    by_cases here : other = new
    · subst here
      rw [if_neg apart, if_pos rfl, if_pos rfl]
    · rw [if_neg (Ne.symm here), if_neg here]
      simp only [eq_comm]
  · refine Rule.execute_fromKey_empty schema data old new value source held ?_
    exact (not_populated_iff value present).mpr empty

def serverBefore : Object :=
  [("size", .string "large"), ("flavor", .null), ("locked", .bool false)]

theorem spellings_of_size_and_lock :
    (∃ moved also, (Rule.fromSibling "size" "flavor").execute emptyContext [] serverBefore =
        (.ok (), moved) ∧
      (Rule.fromKey "size" "flavor").execute emptyContext [] serverBefore = (.ok (), also) ∧
      also.Perm moved ∧ Entries.get? moved "flavor" = some (.string "large")) ∧
    (∃ moved, (Rule.fromSibling "locked" "frozen").execute emptyContext [] serverBefore =
        (.ok (), moved) ∧ Entries.get? moved "frozen" = some (.bool false)) ∧
    (Rule.fromKey "locked" "frozen").execute emptyContext [] serverBefore =
      (.ok (), serverBefore) := by
  have distinct : Entries.Distinct serverBefore := by
    simp [Entries.Distinct, Entries.keys, serverBefore]
  have plain : ∀ value ∈ serverBefore.map Prod.snd,
      value.PlainIn emptyContext.template.version := by
    simp [serverBefore, Json.PlainIn, Json.loneKeys]
  have noFlavor : Vacant serverBefore "flavor" := fun value found => (Option.some.inj found).symm
  have notFrozen : Vacant serverBefore "frozen" := fun value found => by cases found
  obtain ⟨-, -, moved, sibling, lookup, key, -⟩ := spellings_agree [] serverBefore distinct plain
    "size" "flavor" (by decide) noFlavor (.string "large") rfl (by simp)
  obtain ⟨also, same, perm⟩ := key rfl
  obtain ⟨-, -, frozen, switched, switchedTo, -, idle⟩ := spellings_agree [] serverBefore distinct
    plain "locked" "frozen" (by decide) notFrozen (.bool false) rfl (by simp)
  exact ⟨⟨moved, also, sibling, same, perm, (lookup "flavor").trans (if_pos rfl)⟩,
    ⟨frozen, switched, (switchedTo "frozen").trans (if_pos rfl)⟩, idle (List.mem_cons_self ..)⟩

end Migration

end Orchestration
