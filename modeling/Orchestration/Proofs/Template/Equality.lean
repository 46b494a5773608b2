import Orchestration.Proofs.Json.Sameness
import Orchestration.Proofs.Template.Calls

/-!
# Comparing values in a template

A call that compares two values answers whether they are the same data, and so the comparison is an
equivalence.
-/

set_option autoImplicit false

namespace Orchestration.Node

variable (scope : Scope) (name : String)

theorem value_equals (x y : Node) (left right : Json) (first : Gives scope x left)
    (second : Gives scope y right) :
    (resolve scope (.call .equals name (.list [x, y]) none)).value =
      .ok (.bool (left.same right)) :=
  value_call scope .equals name (.list [x, y]) [x, y] [left, right] rfl
    (.cons first (.cons second .nil)) fun _ _ _ => rfl

/-- A comparison says whether the two values are the same data; it is reflexive, symmetric and
transitive. -/
theorem equals_same_data :
    (∀ (x y : Node) (left right : Json), Gives scope x left → Gives scope y right →
      left.WellFormed → right.WellFormed →
      ∃ answer, (resolve scope (.call .equals name (.list [x, y]) none)).value =
          .ok (.bool answer) ∧ (answer = true ↔ left.SameData right)) ∧
    Equivalence fun x y : {x : Node // ∃ value, Gives scope x value ∧ value.WellFormed} =>
      (resolve scope (.call .equals name (.list [x.1, y.1]) none)).value = .ok (.bool true) := by
  have answers : ∀ (x y : Node) (left right : Json), Gives scope x left → Gives scope y right →
      left.WellFormed → right.WellFormed →
      ((resolve scope (.call .equals name (.list [x, y]) none)).value = .ok (.bool true) ↔
        left.SameData right) := by
    intro x y left right first second wellFormed wellFormed'
    rw [value_equals scope name x y left right first second,
      ← Json.same_iff left right wellFormed wellFormed']
    simp
  refine ⟨?_, ?_, ?_, ?_⟩
  · intro x y left right first second wellFormed wellFormed'
    exact ⟨_, value_equals scope name x y left right first second,
      Json.same_iff left right wellFormed wellFormed'⟩
  · rintro ⟨x, value, given, wellFormed⟩
    exact (answers x x value value given given wellFormed wellFormed).mpr (.refl value)
  · rintro ⟨x, left, first, wellFormed⟩ ⟨y, right, second, wellFormed'⟩ same
    have same := (answers x y left right first second wellFormed wellFormed').mp same
    exact (answers y x right left second first wellFormed' wellFormed).mpr same.symm
  · rintro ⟨x, left, first, good⟩ ⟨y, middle, second, good'⟩ ⟨z, right, third, good''⟩ same same'
    have same := (answers x y left middle first second good good').mp same
    have same' := (answers y z middle right second third good' good'').mp same'
    exact (answers x z left right first third good good'').mpr (same.trans same')

def rangeFrom (zero : Finite64) : Object :=
  [("bounds", .list [.number (.float zero), .ofInt 8]), ("label", .string "cpu")]

/-- Neither the order of the keys nor the sign of zero tells two values apart. -/
theorem equals_same_data_reordered :
    (resolve ⟨[], ⟨[], [], [], none⟩⟩ (.call .equals "equals"
      (.list [.literal (.object (rangeFrom (.zero false))),
        .literal (.object (rangeFrom (.zero true)).reverse)]) none)).value =
      .ok (.bool true) := by
  have left : (Json.object (rangeFrom (.zero false))).WellFormed := by
    simp [rangeFrom, Json.WellFormed, Json.WellFormedEntries, Json.WellFormedItems, Json.ofInt,
      Number.InRange, Entries.Distinct, Entries.keys]
  have right : (Json.object (rangeFrom (.zero true)).reverse).WellFormed := by
    simp [rangeFrom, Json.WellFormed, Json.WellFormedEntries, Json.WellFormedItems, Json.ofInt,
      Number.InRange, Entries.Distinct, Entries.keys]
  obtain ⟨answer, value, same⟩ := (equals_same_data ⟨[], ⟨[], [], [], none⟩⟩ "equals").1
    (.literal (.object (rangeFrom (.zero false))))
    (.literal (.object (rangeFrom (.zero true)).reverse)) _ _ rfl rfl left right
  have alike : (Json.object (rangeFrom (.zero false))).SameData
      (.object (rangeFrom (.zero true)).reverse) := by
    refine .object _ _ (fun key => by simp [rangeFrom, Entries.keys, or_comm]) ?_
    intro key x y first second
    have listed := Entries.mem_of_get? _ key x first
    have reversed := List.mem_reverse.mp (Entries.mem_of_get? _ key y second)
    simp only [rangeFrom, List.mem_cons, Prod.mk.injEq, List.not_mem_nil, or_false]
      at listed reversed
    rcases listed with ⟨rfl, rfl⟩ | ⟨rfl, rfl⟩ <;> rcases reversed with ⟨key, rfl⟩ | ⟨key, rfl⟩
    · refine .list _ _ rfl fun i x y first second => ?_
      rcases i with _ | _ | i
      · cases first
        cases second
        exact .zeros _ _ rfl rfl
      · cases first
        cases second
        exact .number _
      · cases first
    · exact absurd key (by decide)
    · exact absurd key (by decide)
    · exact .string _
  rw [value, same.mpr alike]

end Orchestration.Node
