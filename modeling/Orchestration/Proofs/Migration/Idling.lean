import Orchestration.Proofs.Migration.Footprint
import Orchestration.Proofs.Migration.Replacing

/-!
# A walk that changes nothing

A walk that acts on nothing may still settle references and create maps on its way.  It changes
nothing if the way is clear.
-/

set_option autoImplicit false

namespace Orchestration.Migration

open Json (Segment)

/-- The way of a rule is clear: no reference is left on it, and no map is missing. -/
structure Rule.Clear (rule : Rule) (context : Context) (schema : Schema) (data : Object) :
    Prop where
  settled : ∀ location held name value, (Json.object data).part? location = some (.object held) →
    Segment.keys location ++ [name] <+: rule.path → Entries.get? held name = some value →
    (resolveParameter context value).2 = value
  complete : ∀ location held name, (Json.object data).part? location = some (.object held) →
    rule.Opens schema (Segment.keys location ++ [name]) → ¬ Vacant held name

variable {context : Context} {rule : Rule} {schema : Schema} {source : Source}

theorem meetings_of_inItems_nil {visit : Object → List Meeting} {items : List Json}
    (idle : inItems visit 0 items = []) {child : Object} (member : .object child ∈ items) :
    visit child = [] := by
  obtain ⟨i, there⟩ := List.mem_iff_getElem?.mp member
  have none := List.flatMap_eq_nil_iff.mp idle (.object child, i)
    (List.mem_zipIdx_iff_getElem?.mpr there)
  exact List.map_eq_nil_iff.mp none

theorem overMaps_idle {step : Object → Change Object Bool} {items : List Json}
    (each : ∀ child, .object child ∈ items → (step child).2 = child) :
    (overMaps step items).2 = items := by
  refine List.ext_getElem (overMaps_length step items) fun i reached inside => ?_
  rcases overMaps_items step items i _ _ (List.getElem?_eq_getElem inside)
    (List.getElem?_eq_getElem reached) with same | ⟨child, here, left⟩
  · exact same
  · have member : .object child ∈ items := here ▸ List.getElem_mem inside
    rw [left, each child member, here]

variable {whole : Object} (clear : rule.Clear context schema whole)
include clear

theorem Rule.Clear.walk (path : List String) (location : List Segment) (below : Option Schema)
    (data : Object) (there : (Json.object whole).part? location = some (.object data))
    (onto : Segment.keys location ++ path = rule.path)
    (declared : DeclaredBelow schema (Segment.keys location) below)
    (idle : meetings context rule path below data = []) :
    (walk context rule source path below data).2 = data := by
  induction path generalizing location below data with
  | nil => rfl
  | cons key path ih =>
    have leads : Segment.keys location ++ [key] <+: rule.path := ⟨path, by simpa using onto⟩
    have slot : (resolveSlot context data key).2 = data := by
      cases present : Entries.get? data key with
      | none => rw [resolveSlot_absent data key present]
      | some value =>
        rw [resolveSlot_present data key value present,
          clear.settled location data key value there leads present,
          Entries.put_of_get? data key value present]
    cases path with
    | nil =>
      rw [meetings] at idle
      rw [Migration.walk]
      generalize resolveSlot context data key = found at slot idle
      obtain ⟨answer, left⟩ := found
      rcases answer with _ | _ | _
      · exact slot
      · exact slot
      · cases idle
    | cons next rest =>
      have apart : Segment.keys location ++ [key] ≠ rule.path := by simp [← onto]
      have opened : openBelow rule below data key = data := by
        rcases openBelow_vacant rule below data key with same | ⟨-, vacant, creates, map⟩
        · exact same
        · rw [← declared.here key] at map
          refine absurd (fun value here => ?_)
            (clear.complete location data key there ⟨leads, apart, creates, map⟩)
          rcases vacant with absent | null
          · cases absent.symm.trans here
          · exact Option.some.inj (here.symm.trans null)
      have deeper := declared.child key
      rw [meetings_cons] at idle
      rw [walk_cons]
      cases step : ground context rule below data key with
      | mk found left =>
        obtain ⟨same, met⟩ := ground_cases context rule below data left key found step
        rw [slot, opened, or_self] at same
        subst same
        rw [step] at idle
        cases found with
        | failed e => rfl
        | closed => rfl
        | map child =>
          obtain ⟨-, -, here⟩ := met _ (.inl ⟨child, rfl, rfl⟩)
          have still := ih (location ++ [.key key]) (below.bind fun s => s.child? key) child
            (by rw [Json.part?_append, there]; simp [Json.part?, here])
            (by simpa [Segment.keys] using onto) (by simpa [Segment.keys] using deeper)
            (List.map_eq_nil_iff.mp idle)
          simp only
          rw [still, Entries.put_of_get? left key _ here]
        | list items =>
          obtain ⟨-, -, here⟩ := met _ (.inr ⟨items, rfl, rfl⟩)
          have still : (overMaps (Migration.walk context rule source (next :: rest)
              (below.bind fun s => s.child? key)) items).2 = items := by
            refine overMaps_idle fun child member => ?_
            obtain ⟨i, inside⟩ := List.mem_iff_getElem?.mp member
            exact ih (location ++ [.key key, .item i]) (below.bind fun s => s.child? key) child
              (by rw [Json.part?_append, there]; simp [Json.part?, here, inside])
              (by simpa [Segment.keys] using onto) (by simpa [Segment.keys] using deeper)
              (meetings_of_inItems_nil (List.map_eq_nil_iff.mp idle) member)
          simp only
          rw [still, Entries.put_of_get? left key _ here]

end Orchestration.Migration
