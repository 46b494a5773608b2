import Mathlib.Data.List.Perm.Subperm
import Orchestration.Proofs.Binary64.Canonical
import Orchestration.Proofs.Json

/-!
# When two values are the same data

`SameData` says it part by part: scalars are the same up to the sign of zero, lists have the same
items in the same order, and maps have the same keys, in any order, with the same data behind each.
This is an equivalence, and on well-formed values it is what `Json.same` computes.
-/

set_option autoImplicit false

namespace Orchestration

namespace Json

inductive SameData : Json → Json → Prop where
  | null : SameData .null .null
  | bool (b : Bool) : SameData (.bool b) (.bool b)
  | number (n : Number) : SameData (.number n) (.number n)
  | zeros (x y : Finite64) (first : x.isZero = true) (second : y.isZero = true) :
    SameData (.number (.float x)) (.number (.float y))
  | string (s : String) : SameData (.string s) (.string s)
  | list (items others : List Json) (length : items.length = others.length)
    (each : ∀ (i : Nat) (x y : Json), items[i]? = some x → others[i]? = some y → SameData x y) :
    SameData (.list items) (.list others)
  | object (entries others : Object)
    (keys : ∀ key, key ∈ Entries.keys entries ↔ key ∈ Entries.keys others)
    (each : ∀ key x y, Entries.get? entries key = some x → Entries.get? others key = some y →
      SameData x y) :
    SameData (.object entries) (.object others)

namespace SameData

theorem refl (x : Json) : SameData x x := by
  induction x using parts_induction with
  | null => exact .null
  | bool b => exact .bool b
  | number n => exact .number n
  | string s => exact .string s
  | list items ih =>
    refine .list items items rfl fun i x y first second => ?_
    obtain rfl := Option.some.inj (first.symm.trans second)
    exact ih x (List.mem_of_getElem? first)
  | object entries ih =>
    refine .object entries entries (fun _ => .rfl) fun key x y first second => ?_
    obtain rfl := Option.some.inj (first.symm.trans second)
    exact ih x (List.mem_map_of_mem (Entries.mem_of_get? entries key x first))

theorem symm {x y : Json} (same : SameData x y) : SameData y x := by
  induction same with
  | null => exact .null
  | bool b => exact .bool b
  | number n => exact .number n
  | zeros x y first second => exact .zeros y x second first
  | string s => exact .string s
  | list items others length each ih =>
    exact .list others items length.symm fun i x y first second => ih i y x second first
  | object entries others keys each ih =>
    exact .object others entries (fun key => (keys key).symm) fun key x y first second =>
      ih key y x second first

theorem trans {x y z : Json} (first : SameData x y) (second : SameData y z) : SameData x z := by
  induction first generalizing z with
  | null | bool b | number n | string s => exact second
  | zeros x y zero zero' =>
    cases second with
    | number => exact .zeros x y zero zero'
    | zeros _ z _ zero'' => exact .zeros x z zero zero''
  | list items others length each ih =>
    cases second with
    | list _ more length' each' =>
      refine .list items more (length.trans length') fun i x z here there => ?_
      have within : i < others.length := by
        rw [← length]
        exact (List.getElem?_eq_some_iff.mp here).1
      have between := List.getElem?_eq_getElem within
      exact ih i x _ here between (each' i _ z between there)
  | object entries others keys each ih =>
    cases second with
    | object _ more keys' each' =>
      refine .object entries more (fun key => (keys key).trans (keys' key)) ?_
      intro key x z here there
      obtain ⟨y, between⟩ := (Entries.mem_keys_iff others key).mp
        ((keys key).mp ((Entries.mem_keys_iff entries key).mpr ⟨x, here⟩))
      exact ih key x y here between (each' key y z between there)

end SameData

/-! ## What the comparison computes -/

theorem sameItems_iff (items others : List Json) :
    sameItems items others = true ↔ items.length = others.length ∧
      ∀ (i : Nat) (x y : Json), items[i]? = some x → others[i]? = some y → same x y = true := by
  induction items generalizing others with
  | nil => cases others <;> simp [sameItems]
  | cons x items ih =>
    cases others with
    | nil => simp [sameItems]
    | cons y others =>
      rw [sameItems, Bool.and_eq_true, ih]
      constructor
      · rintro ⟨here, length, each⟩
        refine ⟨congrArg (· + 1) length, fun i v w first second => ?_⟩
        cases i with
        | zero =>
          cases first
          cases second
          exact here
        | succ i => exact each i v w first second
      · rintro ⟨length, each⟩
        exact ⟨each 0 x y rfl rfl, Nat.succ.inj length, fun i => each (i + 1)⟩

theorem sameEntries_iff (entries others : Object) :
    sameEntries entries others = true ↔ ∀ key x, (key, x) ∈ entries →
      ∃ y, Entries.get? others key = some y ∧ same x y = true := by
  induction entries with
  | nil => simp [sameEntries]
  | cons entry rest ih =>
    obtain ⟨k, v⟩ := entry
    rw [sameEntries, Bool.and_eq_true, ih]
    constructor
    · rintro ⟨here, later⟩ key x member
      rcases List.mem_cons.mp member with same | member
      · cases same
        cases found : Entries.get? others k with
        | none =>
          rw [found] at here
          cases here
        | some y =>
          rw [found] at here
          exact ⟨y, rfl, here⟩
      · exact later key x member
    · intro each
      obtain ⟨y, found, same⟩ := each k v (List.mem_cons_self ..)
      refine ⟨?_, fun key x member => each key x (List.mem_cons_of_mem _ member)⟩
      rw [found]
      exact same

theorem sameKeys_iff (entries others : Object) (distinct : Entries.Distinct entries)
    (distinct' : Entries.Distinct others) :
    entries.length = others.length ∧ Entries.keys entries ⊆ Entries.keys others ↔
      ∀ key, key ∈ Entries.keys entries ↔ key ∈ Entries.keys others := by
  have sizes (map : Object) : (Entries.keys map).length = map.length := List.length_map ..
  constructor
  · rintro ⟨length, among⟩ key
    have sub := List.subperm_of_subset distinct among
    have perm := sub.perm_of_length_le (by rw [sizes, sizes]; exact Nat.le_of_eq length.symm)
    exact perm.mem_iff
  · intro keys
    have perm := (List.perm_ext_iff_of_nodup distinct distinct').mpr keys
    exact ⟨by rw [← sizes, ← sizes, perm.length_eq], perm.subset⟩

theorem sameNumber_iff (m n : Number) :
    m.same n = true ↔ SameData (.number m) (.number n) := by
  constructor
  · intro same
    cases m with
    | integer m =>
      cases n with
      | integer n =>
        obtain rfl : m = n := eq_of_beq same
        exact .number _
      | float y => cases same
    | float x =>
      cases n with
      | integer n => cases same
      | float y =>
        rcases (Finite64.same_iff x y).mp same with rfl | ⟨first, second⟩
        · exact .number _
        · exact .zeros x y first second
  · intro same
    cases same with
    | number =>
      cases m with
      | integer n => exact beq_self_eq_true n
      | float x => exact (Finite64.same_iff x x).mpr (.inl rfl)
    | zeros x y first second => exact (Finite64.same_iff x y).mpr (.inr ⟨first, second⟩)

theorem same_object_iff (entries others : Object) (distinct : Entries.Distinct entries)
    (distinct' : Entries.Distinct others) :
    same (.object entries) (.object others) = true ↔
      (∀ key, key ∈ Entries.keys entries ↔ key ∈ Entries.keys others) ∧
        ∀ key x y, Entries.get? entries key = some x → Entries.get? others key = some y →
          same x y = true := by
  rw [same, Bool.and_eq_true, beq_iff_eq, sameEntries_iff,
    ← sameKeys_iff entries others distinct distinct', and_assoc]
  apply and_congr_right
  intro length
  constructor
  · intro each
    refine ⟨fun key member => ?_, fun key x y first second => ?_⟩
    · obtain ⟨x, there⟩ := (Entries.mem_keys_iff entries key).mp member
      obtain ⟨y, found, -⟩ := each key x (Entries.mem_of_get? entries key x there)
      exact (Entries.mem_keys_iff others key).mpr ⟨y, found⟩
    · obtain ⟨w, found, same⟩ := each key x (Entries.mem_of_get? entries key x first)
      rwa [← Option.some.inj (found.symm.trans second)]
  · rintro ⟨among, each⟩ key x member
    have there := (Entries.get?_eq_some_iff entries distinct key x).mpr member
    obtain ⟨y, found⟩ := (Entries.mem_keys_iff others key).mp
      (among ((Entries.mem_keys_iff entries key).mpr ⟨x, there⟩))
    exact ⟨y, found, each key x y there found⟩

/-- The comparison tells whether two well-formed values are the same data. -/
theorem same_iff (x y : Json) (wellFormed : x.WellFormed) (wellFormed' : y.WellFormed) :
    same x y = true ↔ SameData x y := by
  induction x using parts_induction generalizing y with
  | null =>
    cases y with
    | null => exact ⟨fun _ => .null, fun _ => rfl⟩
    | _ => exact ⟨fun same => by simp [Json.same] at same, fun same => by cases same⟩
  | bool a =>
    cases y with
    | bool b =>
      rw [same, beq_iff_eq]
      exact ⟨fun equal => equal ▸ .bool a, fun same => by cases same; rfl⟩
    | _ => exact ⟨fun same => by simp [Json.same] at same, fun same => by cases same⟩
  | string s =>
    cases y with
    | string t =>
      rw [same, beq_iff_eq]
      exact ⟨fun equal => equal ▸ .string s, fun same => by cases same; rfl⟩
    | _ => exact ⟨fun same => by simp [Json.same] at same, fun same => by cases same⟩
  | number m =>
    cases y with
    | number n => exact sameNumber_iff m n
    | _ => exact ⟨fun same => by simp [Json.same] at same, fun same => by cases same⟩
  | list items ih =>
    cases y with
    | list others =>
      have parts : ∀ (i : Nat) (x y : Json), items[i]? = some x → others[i]? = some y →
          (same x y = true ↔ SameData x y) := fun i x y first second =>
        ih x (List.mem_of_getElem? first) y
          (wellFormed.item x (List.mem_of_getElem? first))
          (wellFormed'.item y (List.mem_of_getElem? second))
      rw [same, sameItems_iff]
      constructor
      · rintro ⟨length, each⟩
        exact .list items others length fun i x y first second =>
          (parts i x y first second).mp (each i x y first second)
      · intro same
        cases same with
        | list _ _ length each =>
          exact ⟨length, fun i x y first second =>
            (parts i x y first second).mpr (each i x y first second)⟩
    | _ => exact ⟨fun same => by simp [Json.same] at same, fun same => by cases same⟩
  | object entries ih =>
    cases y with
    | object others =>
      have parts : ∀ key x y, Entries.get? entries key = some x → Entries.get? others key = some y →
          (same x y = true ↔ SameData x y) := fun key x y first second =>
        ih x (List.mem_map_of_mem (Entries.mem_of_get? entries key x first)) y
          (wellFormed.entry key x first) (wellFormed'.entry key y second)
      rw [same_object_iff entries others wellFormed.distinct wellFormed'.distinct]
      constructor
      · rintro ⟨keys, each⟩
        exact .object entries others keys fun key x y first second =>
          (parts key x y first second).mp (each key x y first second)
      · intro same
        cases same with
        | object _ _ keys each =>
          exact ⟨keys, fun key x y first second =>
            (parts key x y first second).mpr (each key x y first second)⟩
    | _ => exact ⟨fun same => by simp [Json.same] at same, fun same => by cases same⟩

end Json

end Orchestration
