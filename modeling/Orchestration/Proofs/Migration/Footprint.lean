import Orchestration.Proofs.Migration.Acting

/-!
# The footprint of a rule

The paths of a rule are its footprint: its target, the sibling and the value path.  A map on the way
of a rule keeps every entry that the footprint does not touch, gets new keys where the rule brings
something, and loses keys where the rule takes something away.
-/

set_option autoImplicit false

namespace Orchestration

inductive Json.Segment where
  | key (name : String)
  | item (i : Nat)

namespace Json

def part? : List Segment → Json → Option Json
  | [], value => some value
  | .key name :: rest, .object entries => (Entries.get? entries name).bind (part? rest)
  | .item i :: rest, .list items => items[i]?.bind (part? rest)
  | _ :: _, _ => none

theorem part?_cons (value found : Json) (segment : Segment) (rest : List Segment)
    (there : value.part? (segment :: rest) = some found) :
    (∃ entries name next, value = .object entries ∧ segment = .key name ∧
        Entries.get? entries name = some next ∧ next.part? rest = some found) ∨
      ∃ items i next, value = .list items ∧ segment = .item i ∧
        items[i]? = some next ∧ next.part? rest = some found := by
  cases segment with
  | key name =>
    cases value with
    | object entries =>
      obtain ⟨next, here, below⟩ := Option.bind_eq_some_iff.mp there
      exact .inl ⟨entries, name, next, rfl, rfl, here, below⟩
    | _ => simp [part?] at there
  | item i =>
    cases value with
    | list items =>
      obtain ⟨next, here, below⟩ := Option.bind_eq_some_iff.mp there
      exact .inr ⟨items, i, next, rfl, rfl, here, below⟩
    | _ => simp [part?] at there

theorem part?_append (first second : List Segment) (value : Json) :
    value.part? (first ++ second) = (value.part? first).bind (part? second) := by
  induction first generalizing value with
  | nil => rfl
  | cons segment rest ih =>
    cases segment with
    | key name =>
      cases value with
      | object entries =>
        rw [List.cons_append, part?, part?, Option.bind_assoc]
        exact Option.bind_congr fun next _ => ih next
      | _ => rfl
    | item i =>
      cases value with
      | list items =>
        rw [List.cons_append, part?, part?, Option.bind_assoc]
        exact Option.bind_congr fun next _ => ih next
      | _ => rfl

/-- The keys on the way to a location; positions in lists are skipped. -/
def Segment.keys : List Segment → List String
  | [] => []
  | .key name :: rest => name :: keys rest
  | .item _ :: rest => keys rest

@[simp] theorem Segment.keys_append (first second : List Segment) :
    keys (first ++ second) = keys first ++ keys second := by
  induction first with
  | nil => rfl
  | cons segment rest ih => cases segment <;> simp [keys, ih]

end Json

namespace Migration

def declaredAt : Option Schema → List String → Option PropertyType
  | _, [] => none
  | schema, [key] => schema.bind fun s => Entries.get? s key
  | schema, key :: next :: rest => declaredAt (schema.bind fun s => s.child? key) (next :: rest)

/-- Below the keys, the first schema declares what the second one declares. -/
def DeclaredBelow (schema : Schema) (front : List String) (below : Option Schema) : Prop :=
  ∀ more, more ≠ [] → declaredAt (some schema) (front ++ more) = declaredAt below more

namespace DeclaredBelow

theorem root (schema : Schema) : DeclaredBelow schema [] (some schema) :=
  fun _ _ => rfl

variable {schema : Schema} {front : List String} {below : Option Schema}
  (declared : DeclaredBelow schema front below) (key : String)
include declared

theorem here :
    declaredAt (some schema) (front ++ [key]) = below.bind fun s => Entries.get? s key :=
  declared [key] (List.cons_ne_nil _ _)

theorem child : DeclaredBelow schema (front ++ [key]) (below.bind fun s => s.child? key) := by
  intro more nonempty
  rw [List.append_assoc, declared _ (by simp)]
  cases more with
  | nil => exact absurd rfl nonempty
  | cons => rfl

end DeclaredBelow

namespace Rule

variable (rule : Rule) (schema : Schema) (path : List String)

/-- The rule may create a map at the path, on the way to its target. -/
structure Opens : Prop where
  above : path <+: rule.path
  apart : path ≠ rule.path
  creates : rule.skipsMissing = false
  declared : ((declaredAt (some schema) path).map PropertyType.isMap).getD false = true

/-- The rule may write a list at the path, its target, where nothing is. -/
structure Starts : Prop where
  target : path = rule.path
  adds : rule.kind = .add
  declared : ((declaredAt (some schema) path).map PropertyType.isList).getD false = true

inductive Creates : Prop where
  | opens (here : rule.Opens schema path)
  | starts (here : rule.Starts schema path)

/-- The rule may write a key into a map, below some keys, that does not have it: what it creates,
or the target of a rule that has a source or finds the sibling in the map. -/
inductive Brings (front : List String) (before : Object) (key : String) : Prop where
  | creates (here : rule.Creates schema (front ++ [key]))
  | supplies (target : front ++ [key] = rule.path) (replaces : rule.kind = .replace)
    (sourced : rule.value ≠ none ∨ rule.valuePath ≠ none)
  | renames (name : String) (target : front ++ [key] = rule.path) (replaces : rule.kind = .replace)
    (named : rule.valueName = some name) (present : Entries.get? before name ≠ none)

/-- The rule may take away what is at the path: a deleted target, or the source of a move. -/
inductive TakesAway : Prop where
  | deletes (target : path = rule.path) (deletes : rule.kind = .delete)
  | source (reads : rule.valuePath = some path) (replaces : rule.kind = .replace)
  | sibling (name : String) (named : rule.valueName = some name)
    (beside : path = rule.path.dropLast ++ [name]) (replaces : rule.kind = .replace)

/-- The path is on the way to something that the rule reads or writes. -/
inductive Touches : Prop where
  | target (leads : path <+: rule.path)
  | source (source : List String) (reads : rule.valuePath = some source) (leads : path <+: source)
  | taken (takes : rule.TakesAway path)

end Rule

structure Rule.Rekeys (rule : Rule) (schema : Schema) (front : List String)
    (before after : Object) : Prop where
  brought : ∀ key, Entries.get? before key = none → Entries.get? after key ≠ none →
    rule.Brings schema front before key
  taken : ∀ key, Entries.get? before key ≠ none → Entries.get? after key = none →
    rule.TakesAway (front ++ [key])

structure Rule.Reshapes (rule : Rule) (schema : Schema) (front : List String)
    (before after : Object) : Prop extends rule.Rekeys schema front before after where
  distinct : Entries.Distinct after
  kept : ∀ key value, Entries.get? before key = some value → ¬rule.Touches (front ++ [key]) →
    Entries.get? after key = some value

variable {context : Context} {rule : Rule} {schema : Schema} {front : List String}

namespace Rule

namespace Brings

variable {before : Object} {key : String}

theorem mono {first second : Object} (brings : rule.Brings schema front first key)
    (more : ∀ name, Entries.get? first name ≠ none → Entries.get? second name ≠ none) :
    rule.Brings schema front second key := by
  cases brings with
  | creates here => exact .creates here
  | supplies target replaces sourced => exact .supplies target replaces sourced
  | renames name target replaces named present =>
    exact .renames name target replaces named (more name present)

theorem leads (brings : rule.Brings schema front before key) : front ++ [key] <+: rule.path := by
  cases brings with
  | creates here =>
    cases here with
    | opens here => exact here.above
    | starts here => exact here.target ▸ List.prefix_rfl
  | supplies target => exact target ▸ List.prefix_rfl
  | renames name target => exact target ▸ List.prefix_rfl

theorem unique {first second : String} (one : rule.Brings schema front before first)
    (two : rule.Brings schema front before second) : first = second := by
  have same := List.prefix_of_prefix_length_le one.leads two.leads (by simp)
  simpa using same

end Brings

theorem Rekeys.refl (front : List String) (data : Object) :
    rule.Rekeys schema front data data where
  brought _ absent present := absurd absent present
  taken _ present absent := absurd absent present

namespace Reshapes

theorem refl (front : List String) {data : Object} (distinct : Entries.Distinct data) :
    rule.Reshapes schema front data data where
  toRekeys := .refl front data
  distinct := distinct
  kept _ _ present _ := present

variable {before after : Object} (shape : rule.Reshapes schema front before after) (key : String)
include shape

theorem put (value : Json) (touched : rule.Touches (front ++ [key]))
    (brings : Entries.get? before key = none → Entries.get? after key = none →
      rule.Brings schema front before key) :
    rule.Reshapes schema front before (Entries.put after key value) where
  distinct := Entries.distinct_put shape.distinct key value
  kept other x there untouched := by
    have apart : key ≠ other := fun same => untouched (same ▸ touched)
    rw [Entries.get?_put, if_neg apart]
    exact shape.kept other x there untouched
  brought other missing there := by
    by_cases gone : Entries.get? after other = none
    · rw [Entries.get?_put, gone] at there
      split at there
      · rename_i same
        subst same
        exact brings missing gone
      · exact absurd rfl there
    · exact shape.brought other missing gone
  taken other there missing := by
    rw [Entries.get?_put] at missing
    split at missing
    · cases missing
    · exact shape.taken other there missing

theorem erase (takes : rule.TakesAway (front ++ [key])) :
    rule.Reshapes schema front before (Entries.erase after key) := by
  have left := Entries.get?_erase after shape.distinct key
  refine ⟨⟨?_, ?_⟩, Entries.distinct_erase after shape.distinct key, ?_⟩
  · intro other absent present
    rw [left] at present
    split at present
    · exact absurd rfl present
    · exact shape.brought other absent present
  · intro other present absent
    rw [left] at absent
    split at absent
    · rename_i same
      exact same ▸ takes
    · exact shape.taken other present absent
  · intro other value present untouched
    have apart : key ≠ other := fun same => untouched (.taken (same ▸ takes))
    rw [left, if_neg apart]
    exact shape.kept other value present untouched

end Reshapes

theorem Reshapes.of_put {data after : Object} {key : String} {x y : Json}
    (there : Entries.get? data key = some x) (touched : rule.Touches (front ++ [key]))
    (shape : rule.Reshapes schema front (Entries.put data key y) after) :
    rule.Reshapes schema front data after := by
  have missing : ∀ other, Entries.get? data other = none ↔
      Entries.get? (Entries.put data key y) other = none := by
    intro other
    rw [Entries.get?_put]
    split
    · rename_i same
      subst same
      simp [there]
    · rfl
  refine ⟨⟨fun other absent present => ?_, ?_⟩, shape.distinct, ?_⟩
  · exact (shape.brought other ((missing other).mp absent) present).mono fun name held =>
      mt (missing name).mp held
  · exact fun other present => shape.taken other (mt (missing other).mpr present)
  · intro other value present untouched
    have apart : key ≠ other := fun same => untouched (same ▸ touched)
    apply shape.kept other value _ untouched
    rw [Entries.get?_put, if_neg apart, present]

end Rule

/-! ## Acting on a target -/

namespace Rule.Reshapes

variable {key : String} (target : front ++ [key] = rule.path) {data : Object}
  (distinct : Entries.Distinct data)
include target distinct

theorem of_addTo (adds : rule.kind = .add) (below : Option Schema) (source : Source)
    (declared : declaredAt (some schema) rule.path = below.bind fun s => Entries.get? s key) :
    rule.Reshapes schema front data (addTo rule below source data key).2 := by
  rw [addTo_eq]
  split
  · exact refl front distinct
  · split
    · rename_i items extends_
      refine (refl front distinct).put key _ (.target (target ▸ List.prefix_rfl)) fun absent _ => ?_
      rw [absent, extended] at extends_
      split at extends_
      · rename_i list
        exact .creates (.starts ⟨target, adds, by rwa [target, declared]⟩)
      · cases extends_
    · exact refl front distinct

theorem of_replaceAt (replaces : rule.kind = .replace) (source : Source)
    (sourced : source.value ≠ none → rule.value ≠ none ∨ rule.valuePath ≠ none) :
    rule.Reshapes schema front data (replaceAt rule source data key).2 := by
  have unchanged : rule.Reshapes schema front data data := refl front distinct
  have touched : rule.Touches (front ++ [key]) := .target (target ▸ List.prefix_rfl)
  have moved : ∀ name, rule.valueName = some name →
      rule.Reshapes schema front data (Entries.erase data name) := fun name named =>
    unchanged.erase name (.sibling name named (by simp [← target]) replaces)
  have supplied : ∀ value, source.value = some value → rule.Brings schema front data key :=
    fun value found => .supplies target replaces (sourced (by simp [found]))
  unfold replaceAt
  split
  · rename_i name named
    simp only
    split
    · exact unchanged
    · split
      -- A sibling that is null, or none, makes room for the source.
      iterate 2
        split
        · rename_i value found
          exact (moved name named).put key value touched fun _ _ => supplied value found
        · exact moved name named
      · rename_i sibling _ present
        exact (moved name named).put key sibling touched fun _ _ =>
          .renames name target replaces named (by simp [present])
  · simp only
    split
    · exact unchanged
    · split
      · exact unchanged
      · rename_i value found _
        exact unchanged.put key value touched fun _ _ => supplied value found

theorem of_resolveAt : rule.Reshapes schema front data (resolveAt context rule data key).2 := by
  unfold resolveAt
  split
  · rename_i finder current _ there
    split
    · exact refl front distinct
    · simp only
      split
      · exact refl front distinct
      · exact refl front distinct
      · refine (refl front distinct).put key _ (.target (target ▸ List.prefix_rfl))
          fun missing => ?_
        rw [there] at missing
        cases missing
  · exact refl front distinct

theorem of_actAt (below : Option Schema) (source : Source)
    (sourced : source.value ≠ none → rule.value ≠ none ∨ rule.valuePath ≠ none)
    (declared : declaredAt (some schema) rule.path = below.bind fun s => Entries.get? s key) :
    rule.Reshapes schema front data (actAt context rule below source data key).2 := by
  unfold actAt
  cases kind : rule.kind with
  | add => exact of_addTo target distinct kind below source declared
  | replace => exact of_replaceAt target distinct kind source sourced
  | delete => exact (refl front distinct).erase key (.deletes target kind)
  | resolve => exact of_resolveAt target distinct

end Rule.Reshapes

end Migration

end Orchestration
