import Mathlib.Data.List.Forall2
import Orchestration.Entries

/-!
# Results that may be errors

When a chain of results came to something, every link of it did; a chain goes on with what its first
link came to.
-/

set_option autoImplicit false

namespace Orchestration

variable {ε α β : Type}

theorem bind_eq_ok_iff (result : Except ε α) (f : α → Except ε β) (b : β) :
    result.bind f = .ok b ↔ ∃ a, result = .ok a ∧ f a = .ok b := by
  cases result <;> simp [Except.bind]

theorem map_eq_ok_iff (result : Except ε α) (f : α → β) (b : β) :
    result.map f = .ok b ↔ ∃ a, result = .ok a ∧ f a = b := by
  cases result <;> simp [Except.map]

theorem map_eq_error_iff (result : Except ε α) (f : α → β) (e : ε) :
    result.map f = .error e ↔ result = .error e := by
  cases result <;> simp [Except.map]

theorem mapError_eq_ok_iff {ε' : Type} (result : Except ε α) (f : ε → ε') (a : α) :
    result.mapError f = .ok a ↔ result = .ok a := by
  cases result <;> simp [Except.mapError]

theorem forall₂_of_mapM {f : α → Except ε β} {items : List α} {results : List β}
    (done : items.mapM f = .ok results) :
    List.Forall₂ (fun item result => f item = .ok result) items results := by
  induction items generalizing results with
  | nil =>
    cases done
    exact .nil
  | cons item rest ih =>
    rw [List.mapM_cons] at done
    obtain ⟨first, here, done⟩ := (bind_eq_ok_iff ..).mp done
    obtain ⟨others, more, done⟩ := (bind_eq_ok_iff ..).mp done
    cases done
    exact .cons here (ih more)

theorem map_eq_map_cases {f : α → β} {first second : Except ε α}
    (same : first.map f = second.map f) :
    (∃ e, first = .error e ∧ second = .error e) ∨
      ∃ x y, first = .ok x ∧ second = .ok y ∧ f x = f y := by
  cases first with
  | error e =>
    cases second with
    | error e' =>
      cases same
      exact .inl ⟨e, rfl, rfl⟩
    | ok y => cases same
  | ok x =>
    cases second with
    | error e => cases same
    | ok y => exact .inr ⟨x, y, rfl, rfl, Except.ok.inj same⟩

theorem isOk_iff (result : Except ε α) : result.isOk = true ↔ ∃ a, result = .ok a := by
  cases result <;> simp [Except.isOk, Except.toBool]

/-! ## Kinds of errors -/

/-- If the result is an error it is one of this kind. -/
structure FailsWith (kind : ε → Prop) (result : Except ε α) : Prop where
  of_error : ∀ e, result = .error e → kind e

section FailsWith

variable {kind : ε → Prop}

@[simp] theorem failsWith_ok (a : α) : FailsWith kind (.ok a : Except ε α) :=
  ⟨by rintro e ⟨⟩⟩

@[simp] theorem failsWith_error_iff (e : ε) :
    FailsWith kind (.error e : Except ε α) ↔ kind e := by
  constructor
  · exact fun fails => fails.of_error e rfl
  · rintro good
    exact ⟨by rintro e ⟨⟩; exact good⟩

theorem FailsWith.bind {result : Except ε α} (first : FailsWith kind result) {f : α → Except ε β}
    (next : ∀ a, result = .ok a → FailsWith kind (f a)) : FailsWith kind (result.bind f) := by
  cases result with
  | error e => exact (failsWith_error_iff e).mpr (first.of_error e rfl)
  | ok a => exact next a rfl

theorem FailsWith.map {result : Except ε α} (first : FailsWith kind result) (f : α → β) :
    FailsWith kind (result.map f) := by
  cases result with
  | error e => exact (failsWith_error_iff e).mpr (first.of_error e rfl)
  | ok a => exact failsWith_ok _

theorem FailsWith.mapM {f : α → Except ε β} (items : List α)
    (each : ∀ item ∈ items, FailsWith kind (f item)) : FailsWith kind (items.mapM f) := by
  induction items with
  | nil => exact failsWith_ok []
  | cons item rest ih =>
    obtain ⟨first, others⟩ := List.forall_mem_cons.mp each
    rw [List.mapM_cons]
    exact first.bind fun b _ => (ih others).bind fun more _ => failsWith_ok _

end FailsWith

theorem bind_of_some {first : Option α} {x : α} {next : α → Option β} (found : first = some x) :
    (first >>= next) = next x := by
  rw [found]
  rfl

end Orchestration
