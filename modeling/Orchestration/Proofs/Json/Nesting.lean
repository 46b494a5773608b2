import Orchestration.Proofs.Json.Reading

/-!
# Nested values read back

A text is interpreted down to a depth of lists and maps inside each other.  The text of a
well-formed value that is no deeper is interpreted as the value, if the digits of its floating-point
numbers read back.
-/

set_option autoImplicit false

namespace Orchestration.Json

/-! ## Depth -/

mutual

def depth : Json → Nat
  | .list items => depthOfItems items + 1
  | .object entries => depthOfEntries entries + 1
  | _ => 0

def depthOfItems : List Json → Nat
  | [] => 0
  | x :: rest => max (depth x) (depthOfItems rest)

def depthOfEntries : List (String × Json) → Nat
  | [] => 0
  | (_, x) :: rest => max (depth x) (depthOfEntries rest)

end

theorem depth_item_lt (items : List Json) (x : Json) (member : x ∈ items) :
    x.depth < depth (.list items) := by
  rw [depth, Nat.lt_succ_iff]
  induction items with
  | nil => cases member
  | cons y rest ih =>
    rw [depthOfItems]
    rcases List.mem_cons.mp member with rfl | later
    · exact Nat.le_max_left ..
    · exact (ih later).trans (Nat.le_max_right ..)

theorem depth_entry_lt (entries : Object) (x : Json) (member : x ∈ entries.map Prod.snd) :
    x.depth < depth (.object entries) := by
  rw [depth, Nat.lt_succ_iff]
  induction entries with
  | nil => cases member
  | cons entry rest ih =>
    obtain ⟨key, y⟩ := entry
    rw [depthOfEntries]
    rcases List.mem_cons.mp member with rfl | later
    · exact Nat.le_max_left ..
    · exact (ih later).trans (Nat.le_max_right ..)

theorem WellFormed.value {entries : Object} (wellFormed : WellFormed (.object entries)) (x : Json)
    (member : x ∈ entries.map Prod.snd) : x.WellFormed := by
  obtain ⟨⟨key, value⟩, among, rfl⟩ := List.mem_map.mp member
  exact ((wellFormed_object_iff entries).mp wellFormed).2 key value among

/-! ## Interpreting a tree -/

theorem itemsToJson?_ofItems (limit : Nat) (items : List Json)
    (each : ∀ x ∈ items, Raw.toJsonWithin? limit (.ofJson x) = some x) :
    Raw.itemsToJson? limit (Raw.ofItems items) = some items := by
  induction items with
  | nil => rw [Raw.ofItems, Raw.itemsToJson?]
  | cons x rest ih =>
    obtain ⟨here, later⟩ := List.forall_mem_cons.mp each
    rw [Raw.ofItems, Raw.itemsToJson?, here, ih later]
    rfl

theorem entriesToJson?_ofEntries (limit : Nat) (before entries : Object)
    (each : ∀ x ∈ entries.map Prod.snd, Raw.toJsonWithin? limit (.ofJson x) = some x) :
    Raw.entriesToJson? limit before (Raw.ofEntries entries) =
      some (Entries.putAll before entries) := by
  induction entries generalizing before with
  | nil => rw [Raw.ofEntries, Raw.entriesToJson?, Entries.putAll, List.foldl_nil]
  | cons entry rest ih =>
    obtain ⟨key, x⟩ := entry
    obtain ⟨here, later⟩ := List.forall_mem_cons.mp each
    rw [Raw.ofEntries, Raw.entriesToJson?, here]
    exact ih (Entries.put before key x) later

/-- A value is interpreted as itself down to its own depth. -/
theorem toJsonWithin?_ofJson (value : Json) (wellFormed : value.WellFormed) (limit : Nat)
    (shallow : value.depth ≤ limit) : Raw.toJsonWithin? limit (.ofJson value) = some value := by
  induction value using parts_induction generalizing limit with
  | list items ih =>
    cases limit with
    | zero => rw [depth] at shallow; omega
    | succ limit =>
      have each := itemsToJson?_ofItems limit items fun x member =>
        ih x member (wellFormed.item x member) limit
          (Nat.lt_succ_iff.mp ((depth_item_lt items x member).trans_le shallow))
      rw [Raw.ofJson, Raw.toJsonWithin?, each]
      rfl
  | object entries ih =>
    cases limit with
    | zero => rw [depth] at shallow; omega
    | succ limit =>
      have each := entriesToJson?_ofEntries limit [] entries fun x member =>
        ih x member (wellFormed.value x member) limit
          (Nat.lt_succ_iff.mp ((depth_entry_lt entries x member).trans_le shallow))
      rw [Entries.putAll_of_distinct [] entries wellFormed.distinct] at each
      rw [Raw.ofJson, Raw.toJsonWithin?, each]
      rfl
  | _ => rw [Raw.ofJson, Raw.toJsonWithin?] <;> rfl

theorem eq_of_ofJson_eq {first second : Json} (wellFormed : first.WellFormed)
    (wellFormed' : second.WellFormed) (same : Raw.ofJson first = Raw.ofJson second) :
    first = second := by
  have read := toJsonWithin?_ofJson first wellFormed _ (Nat.le_max_left first.depth second.depth)
  have read' := toJsonWithin?_ofJson second wellFormed' _ (Nat.le_max_right first.depth second.depth)
  rw [same] at read
  exact Option.some.inj (read.symm.trans read')

/-! ## Text -/

inductive FloatsReadBack : Json → Prop where
  | null : FloatsReadBack .null
  | bool (b : Bool) : FloatsReadBack (.bool b)
  | integer (n : Int) : FloatsReadBack (.number (.integer n))
  | float (x : Finite64) (back : (Number.float x).ReadsBack) : FloatsReadBack (.number (.float x))
  | string (s : String) : FloatsReadBack (.string s)
  | list (items : List Json) (each : ∀ x ∈ items, FloatsReadBack x) : FloatsReadBack (.list items)
  | object (entries : Object) (each : ∀ x ∈ entries.map Prod.snd, FloatsReadBack x) :
      FloatsReadBack (.object entries)

/-- Whole numbers of 64 bits read back anyway. -/
theorem FloatsReadBack.readsBack {value : Json} (floats : value.FloatsReadBack)
    (wellFormed : value.WellFormed) : value.ReadsBack := by
  induction floats with
  | null => exact .null
  | bool b => exact .bool b
  | integer n =>
    rw [WellFormed] at wellFormed
    exact .number _ (Number.readsBack_integer n wellFormed)
  | float x back => exact .number _ back
  | string s => exact .string s
  | list items each ih => exact .list items fun x member => ih x member (wellFormed.item x member)
  | object entries each ih =>
    exact .object entries fun x member => ih x member (wellFormed.value x member)

inductive IsContainer : Json → Prop where
  | list (items : List Json) : IsContainer (.list items)
  | object (entries : Object) : IsContainer (.object entries)

theorem IsContainer.inlineText_eq {value : Json} (container : value.IsContainer) :
    value.inlineText = value.spaced := by
  cases container <;> rfl

/-- A list or a map that can be told from its text: its numbers are in range, no key occurs twice in
a map, and the digits of floating-point numbers read back. -/
structure IsDocument (value : Json) : Prop where
  container : value.IsContainer
  wellFormed : value.WellFormed
  floats : value.FloatsReadBack

namespace IsDocument

variable {value other : Json}

theorem ofText?_inlineText (document : value.IsDocument) :
    Raw.ofText? value.inlineText = some (.ofJson value) := by
  rw [document.container.inlineText_eq]
  exact Raw.ofText?_write .spaced 0 value (document.floats.readsBack document.wellFormed)

theorem ofText_inlineText (document : value.IsDocument) (shallow : value.depth ≤ 127) :
    Json.ofText value.inlineText = some value := by
  rw [Json.ofText, document.ofText?_inlineText]
  exact toJsonWithin?_ofJson value document.wellFormed 127 shallow

/-- Different lists or maps have different texts, however deep they are. -/
theorem eq_of_inlineText_eq (document : value.IsDocument) (document' : other.IsDocument)
    (same : value.inlineText = other.inlineText) : value = other := by
  have read := document.ofText?_inlineText
  rw [same, document'.ofText?_inlineText] at read
  exact (eq_of_ofJson_eq document'.wellFormed document.wellFormed (Option.some.inj read)).symm

end IsDocument

end Orchestration.Json
