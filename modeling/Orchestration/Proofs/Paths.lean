/-!
# Paths of names

Two paths are apart when neither leads through the other: what stands at one of them is no part of
what stands at the other.
-/

set_option autoImplicit false

namespace Orchestration

/-- Neither path leads through the other. -/
def Apart (path other : List String) : Prop :=
  ¬ path <+: other ∧ ¬ other <+: path

instance (path other : List String) : Decidable (Apart path other) :=
  inferInstanceAs (Decidable (_ ∧ _))

theorem Apart.symm {path other : List String} (apart : Apart path other) : Apart other path :=
  ⟨apart.2, apart.1⟩

theorem Apart.of_cons {name : String} {path other : List String}
    (apart : Apart (name :: path) (name :: other)) : Apart path other :=
  ⟨fun through => apart.1 (List.cons_prefix_cons.mpr ⟨rfl, through⟩),
    fun through => apart.2 (List.cons_prefix_cons.mpr ⟨rfl, through⟩)⟩

theorem Apart.cons {path other : List String} (apart : Apart path other) (name : String) :
    Apart (name :: path) (name :: other) :=
  ⟨fun through => apart.1 (List.cons_prefix_cons.mp through).2,
    fun through => apart.2 (List.cons_prefix_cons.mp through).2⟩

theorem Apart.exists_cons {path other : List String} (apart : Apart path other) :
    ∃ name rest, other = name :: rest := by
  cases other with
  | nil => exact absurd List.nil_prefix apart.2
  | cons name rest => exact ⟨name, rest, rfl⟩

theorem apart_beginnings {name other : String} (different : name ≠ other)
    (rest more : List String) : Apart (name :: rest) (other :: more) :=
  ⟨fun through => different (List.cons_prefix_cons.mp through).1,
    fun through => different (List.cons_prefix_cons.mp through).1.symm⟩

theorem apart_siblings (above : List String) (name other : String) (different : other ≠ name) :
    Apart (above ++ [name]) (above ++ [other]) := by
  constructor
  · intro through
    rw [List.prefix_append_right_inj, List.cons_prefix_cons] at through
    exact different through.1.symm
  · intro through
    rw [List.prefix_append_right_inj, List.cons_prefix_cons] at through
    exact different through.1

end Orchestration
