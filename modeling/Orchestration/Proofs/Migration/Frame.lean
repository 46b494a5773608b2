import Orchestration.Proofs.Migration.Footprint
import Orchestration.Proofs.Paths

/-!
# Before and after a rule, location by location

The footprint of a rule are its path, the path of the sibling and the value path.  `Framed` says what
may become of what stands at the locations below some keys: nothing changes apart from the footprint;
what is added is at the target, below it, or a map on the way to it; and above the target lists keep
their items in order.
-/

set_option autoImplicit false

namespace Orchestration.Migration

open Json (Segment)

namespace Rule

variable (rule : Rule) (schema : Schema) (keys : List String)

/-- The paths of a rule: its target, the sibling of it, and the value path. -/
def footprint : List (List String) :=
  rule.path :: ((rule.valueName.map fun name => rule.path.dropLast ++ [name]).toList ++
    rule.valuePath.toList)

/-- The rule may take away the source of a move at the keys or above them. -/
def Uproots : Prop :=
  rule.kind = .replace ∧ ∃ source, rule.valuePath = some source ∧ source <+: keys

/-- What may become of what stands above the target. -/
inductive Above : Option Json → Option Json → Prop where
  | same (value : Option Json) : Above value value
  | created {before : Option Json} (opens : rule.Opens schema keys)
    (vacant : before = none ∨ before = some .null) (after : Object) :
    Above before (some (.object after))
  | map (before after : Object) : Above (some (.object before)) (some (.object after))
  | list {before after : List Json} (length : after.length = before.length)
    (each : ∀ (i : Nat) (x : Json), before[i]? = some x → after[i]? = some x ∨
      ∃ first second, x = .object first ∧ after[i]? = some (.object second)) :
    Above (some (.list before)) (some (.list after))
  | gone (before : Option Json) (uproots : rule.Uproots keys) : Above before none

structure Kept (before after : Option Json) : Prop where
  outside : (∀ path ∈ rule.footprint, Apart path keys) → after = before
  added : before = none → after ≠ none → rule.path <+: keys ∨ rule.Opens schema keys
  above : keys <+: rule.path → keys ≠ rule.path → rule.Above schema keys before after

/-- What may become of what stands below some keys, location by location. -/
def Framed (front : List String) (before after : Option Json) : Prop :=
  ∀ location, rule.Kept schema (front ++ Segment.keys location)
    (before.bind (Json.part? location)) (after.bind (Json.part? location))

end Rule

variable {context : Context} {rule : Rule} {schema : Schema}

theorem Rule.path_mem_footprint (rule : Rule) : rule.path ∈ rule.footprint :=
  List.mem_cons_self ..

theorem Rule.sibling_mem_footprint {name : String} (named : rule.valueName = some name) :
    rule.path.dropLast ++ [name] ∈ rule.footprint := by
  simp [Rule.footprint, named]

theorem Rule.source_mem_footprint {source : List String} (reads : rule.valuePath = some source) :
    source ∈ rule.footprint := by
  simp [Rule.footprint, reads]

theorem Rule.TakesAway.mem_footprint {keys : List String} (takes : rule.TakesAway keys) :
    keys ∈ rule.footprint := by
  cases takes with
  | deletes target => exact target ▸ rule.path_mem_footprint
  | source reads => exact Rule.source_mem_footprint reads
  | sibling name named beside => exact beside ▸ Rule.sibling_mem_footprint named

theorem Rule.TakesAway.uproots {front keys : List String} (takes : rule.TakesAway front)
    (below : front <+: keys) (above : keys <+: rule.path) (apart : keys ≠ rule.path) :
    rule.Uproots keys := by
  cases takes with
  | deletes target => exact absurd (List.IsPrefix.eq_of_length_le above
      (target ▸ below.length_le)) apart
  | source reads replaces => exact ⟨replaces, front, reads, below⟩
  | sibling name named beside =>
    refine absurd (List.IsPrefix.eq_of_length_le above ?_) apart
    have long := below.length_le
    rw [beside, List.length_append, List.length_dropLast, List.length_singleton] at long
    omega

namespace Rule.Above

variable {keys : List String}

theorem of_list {items : List Json} {after : Option Json}
    (above : rule.Above schema keys (some (.list items)) after) :
    (∃ left, after = some (.list left) ∧ left.length = items.length ∧
      ∀ (i : Nat) (x : Json), items[i]? = some x → left[i]? = some x ∨
        ∃ first second, x = .object first ∧ left[i]? = some (.object second)) ∨
      rule.Uproots keys ∧ after = none := by
  cases above with
  | same => exact .inl ⟨items, rfl, rfl, fun i x there => .inl there⟩
  | created _ vacant => simp at vacant
  | list length each => exact .inl ⟨_, rfl, length, each⟩
  | gone _ uproots => exact .inr ⟨uproots, rfl⟩

theorem to_list {items : List Json} {before : Option Json}
    (above : rule.Above schema keys before (some (.list items))) :
    ∃ present, before = some (.list present) := by
  cases above with
  | same => exact ⟨items, rfl⟩
  | list => exact ⟨_, rfl⟩

theorem to_map {child : Object} {before : Option Json}
    (above : rule.Above schema keys before (some (.object child))) :
    (∃ present, before = some (.object present)) ∨
      rule.Opens schema keys ∧ (before = none ∨ before = some .null) := by
  cases above with
  | same => exact .inl ⟨child, rfl⟩
  | created opens vacant => exact .inr ⟨opens, vacant⟩
  | map present => exact .inl ⟨present, rfl⟩

end Rule.Above

namespace Rule.Kept

variable {keys : List String} {before after : Option Json}

theorem refl (value : Option Json) : rule.Kept schema keys value value where
  outside _ := rfl
  added missing present := absurd missing present
  above _ _ := .same value

end Rule.Kept

namespace Rule.Framed

variable {front : List String}

theorem refl (value : Option Json) : rule.Framed schema front value value :=
  fun _ => .refl _

theorem of_target (target : rule.path <+: front) (before after : Option Json) :
    rule.Framed schema front before after := by
  intro location
  have through : rule.path <+: front ++ Segment.keys location :=
    target.trans (List.prefix_append ..)
  refine ⟨fun apart => ?_, fun _ _ => .inl through, fun above different => ?_⟩
  · exact absurd through (apart _ rule.path_mem_footprint).1
  · exact absurd (List.IsPrefix.eq_of_length_le above through.length_le) different

theorem of_gone (takes : rule.TakesAway front) (before : Option Json) :
    rule.Framed schema front before none := by
  intro location
  have below : front <+: front ++ Segment.keys location := List.prefix_append ..
  refine ⟨fun apart => ?_, fun _ present => absurd rfl present, fun above different => ?_⟩
  · exact absurd below (apart _ takes.mem_footprint).1
  · exact .gone _ (takes.uproots below above different)

section Containers

variable {path : List String} (member : path ∈ rule.footprint) (leads : front <+: path)
include member leads

theorem of_object {before after : Object}
    (each : ∀ key, rule.Framed schema (front ++ [key]) (Entries.get? before key)
      (Entries.get? after key)) :
    rule.Framed schema front (some (.object before)) (some (.object after)) := by
  intro location
  match location with
  | [] =>
    rw [Segment.keys, List.append_nil]
    refine ⟨fun apart => absurd leads (apart path member).2, fun missing => ?_, fun _ _ => ?_⟩
    · cases missing
    · exact .map before after
  | .key name :: rest =>
    have below := each name rest
    rwa [List.append_assoc, List.singleton_append] at below
  | .item i :: rest => exact .refl none

theorem of_list {before after : List Json}
    (pairs : List.Forall₂ (fun x y => rule.Framed schema front (some x) (some y) ∧
      (y = x ∨ ∃ first second, x = .object first ∧ y = .object second)) before after) :
    rule.Framed schema front (some (.list before)) (some (.list after)) := by
  intro location
  match location with
  | [] =>
    rw [Segment.keys, List.append_nil]
    refine ⟨fun apart => absurd leads (apart path member).2, fun missing => ?_, fun _ _ => ?_⟩
    · cases missing
    · refine .list pairs.length_eq.symm fun i x there => ?_
      obtain ⟨missing, -⟩ | ⟨_, y, first, second, -, same | visited⟩ := forall₂_getElem? pairs i
      · cases missing.symm.trans there
      · cases first.symm.trans there
        exact .inl (same ▸ second)
      · cases first.symm.trans there
        obtain ⟨child, left, rfl, rfl⟩ := visited
        exact .inr ⟨child, left, rfl, second⟩
  | .key name :: rest => exact .refl none
  | .item i :: rest =>
    change rule.Kept schema _ (before[i]?.bind _) (after[i]?.bind _)
    obtain ⟨first, second⟩ | ⟨x, y, first, second, framed, -⟩ := forall₂_getElem? pairs i
    · rw [first, second]
      exact .refl none
    · rw [first, second]
      exact framed rest

end Containers

theorem of_created (opens : rule.Opens schema front) {before : Option Json}
    (vacant : before = none ∨ before = some .null) {after : Object}
    (inside : rule.Framed schema front (some (.object [])) (some (.object after))) :
    rule.Framed schema front before (some (.object after)) := by
  intro location
  match location with
  | [] =>
    have here : before.bind (Json.part? []) = before := by cases before <;> rfl
    rw [Segment.keys, List.append_nil, here]
    exact ⟨fun apart => absurd opens.above (apart _ rule.path_mem_footprint).2,
      fun _ _ => .inr opens, fun _ _ => .created opens vacant after⟩
  | segment :: rest =>
    have nothing : before.bind (Json.part? (segment :: rest)) =
        (some (Json.object [])).bind (Json.part? (segment :: rest)) := by
      rcases vacant with rfl | rfl <;> cases segment <;> rfl
    rw [nothing]
    exact inside (segment :: rest)

end Rule.Framed

end Orchestration.Migration
