import Orchestration.Proofs.Json.Content
import Orchestration.Proofs.Migration.Inert

/-!
# Changes that do not see each other

Two changes do not see each other when each answers as it would alone, and their order does not
matter for the content that is left.  So it is with changes that concern different keys of a map, and
with changes that do not see each other in any map of a list that both go through.
-/

set_option autoImplicit false

namespace Orchestration.Migration

open Json (Inert content)

variable {version : Version} {α β : Type}

/-! ## Changes that concern a few keys -/

/-- A change that concerns some keys: it leaves the others alone, and what it does depends on the
contents at these keys only. -/
structure Confined (version : Version) (keys : List String) (f : Object → Change Object α) :
    Prop where
  frame : ∀ data, Inert version (.object data) → ∀ other, other ∉ keys →
    Entries.get? (f data).2 other = Entries.get? data other
  depends : ∀ first second, Inert version (.object first) → Inert version (.object second) →
    (∀ key ∈ keys, contentAt first key = contentAt second key) →
    (f first).1 = (f second).1 ∧
      ∀ key ∈ keys, contentAt (f first).2 key = contentAt (f second).2 key
  keeps : ∀ data, Inert version (.object data) → Inert version (.object (f data).2)

structure Independent (f : Object → Change Object α) (g : Object → Change Object β)
    (data : Object) : Prop where
  first : (f (g data).2).1 = (f data).1
  second : (g (f data).2).1 = (g data).1
  same : contentAt (g (f data).2).2 = contentAt (f (g data).2).2

theorem Independent.symm {f : Object → Change Object α} {g : Object → Change Object β}
    {data : Object} (independent : Independent f g data) : Independent g f data :=
  ⟨independent.second, independent.first, independent.same.symm⟩

namespace Confined

variable {keys others : List String} {f : Object → Change Object α} {g : Object → Change Object β}

theorem contentAt_eq (confined : Confined version keys f) (data : Object)
    (inert : Inert version (.object data)) (other : String) (outside : other ∉ keys) :
    contentAt (f data).2 other = contentAt data other := by
  rw [contentAt, contentAt, confined.frame data inert other outside]

theorem congr (confined : Confined version keys f) {first second : Object}
    (inert : Inert version (.object first)) (inert' : Inert version (.object second))
    (same : contentAt first = contentAt second) :
    (f first).1 = (f second).1 ∧ contentAt (f first).2 = contentAt (f second).2 := by
  obtain ⟨answers, contents⟩ := confined.depends first second inert inert' fun key _ => by rw [same]
  refine ⟨answers, funext fun key => ?_⟩
  by_cases member : key ∈ keys
  · exact contents key member
  · rw [confined.contentAt_eq first inert key member, confined.contentAt_eq second inert' key member,
      same]

theorem independent (confined : Confined version keys f) (confined' : Confined version others g)
    (disjoint : ∀ key ∈ keys, key ∉ others) (data : Object)
    (inert : Inert version (.object data)) : Independent f g data := by
  have disjoint' : ∀ key ∈ others, key ∉ keys := fun key member among => disjoint key among member
  have afterFirst := confined.keeps data inert
  have afterSecond := confined'.keeps data inert
  obtain ⟨first, firstContents⟩ := confined.depends _ _ afterSecond inert fun key member =>
    confined'.contentAt_eq data inert key (disjoint key member)
  obtain ⟨second, secondContents⟩ := confined'.depends _ _ afterFirst inert fun key member =>
    confined.contentAt_eq data inert key (disjoint' key member)
  refine ⟨first, second, funext fun key => ?_⟩
  by_cases member : key ∈ keys
  · rw [confined'.contentAt_eq _ afterFirst key (disjoint key member), firstContents key member]
  · rw [confined.contentAt_eq _ afterSecond key member]
    by_cases among : key ∈ others
    · exact secondContents key among
    · rw [confined'.contentAt_eq _ afterFirst key among, confined.contentAt_eq data inert key member,
        confined'.contentAt_eq data inert key among]

end Confined

/-! ## Going through lists -/

section OverMaps

variable (visit : Object → Change Object Bool)

theorem overMaps_object (child : Object) (rest : List Json) :
    overMaps visit (.object child :: rest) =
      match (visit child).1 with
      | .error e => (.error e, .object (visit child).2 :: rest)
      | .ok wrote => ((overMaps visit rest).1.map (wrote || ·),
          .object (visit child).2 :: (overMaps visit rest).2) := by
  rw [overMaps]
  obtain ⟨answer, left⟩ := visit child
  cases answer <;> rfl

theorem overMaps_other (item : Json) (rest : List Json) (other : ∀ child, item ≠ .object child) :
    overMaps visit (item :: rest) =
      ((overMaps visit rest).1, item :: (overMaps visit rest).2) := by
  rw [overMaps]
  simpa using other

inductive Passed (visit : Object → Change Object Bool) : List Json → Bool → List Json → Prop where
  | nil : Passed visit [] false []
  | map (child left : Object) (rest behind : List Json) (first more : Bool)
    (here : visit child = (.ok first, left)) (below : Passed visit rest more behind) :
    Passed visit (.object child :: rest) (first || more) (.object left :: behind)
  | other (item : Json) (rest behind : List Json) (more : Bool)
    (other : ∀ child, item ≠ .object child) (below : Passed visit rest more behind) :
    Passed visit (item :: rest) more (item :: behind)

theorem passed_iff (visit : Object → Change Object Bool) (items : List Json) (wrote : Bool)
    (left : List Json) : overMaps visit items = (.ok wrote, left) ↔ Passed visit items wrote left := by
  constructor
  · intro done
    induction items generalizing wrote left with
    | nil =>
      cases done
      exact .nil
    | cons item rest ih =>
      cases behind : overMaps visit rest with
      | mk answer after =>
      by_cases map : ∃ child, item = .object child
      · obtain ⟨child, rfl⟩ := map
        rw [overMaps_object, behind] at done
        cases here : visit child with
        | mk first child' =>
          rw [here] at done
          cases first with
          | error e => cases done
          | ok first =>
            cases answer with
            | error e => cases done
            | ok more =>
              cases done
              exact .map child child' rest after first more here (ih more after behind)
      · have other : ∀ child, item ≠ .object child := fun child same => map ⟨child, same⟩
        rw [overMaps_other _ item rest other, behind] at done
        cases done
        exact .other item rest after wrote other (ih wrote after behind)
  · intro passed
    induction passed with
    | nil => rfl
    | map child left rest behind first more here below ih =>
      rw [overMaps_object, here, ih]
      rfl
    | other item rest behind more other below ih => rw [overMaps_other _ item rest other, ih]

theorem overMaps_inert (keeps : ∀ data, Inert version (.object data) →
      Inert version (.object (visit data).2)) (items : List Json)
    (inert : ∀ x ∈ items, x.Inert version) :
    ∀ x ∈ (overMaps visit items).2, x.Inert version := by
  induction items with
  | nil => exact inert
  | cons item rest ih =>
    have here := inert item (List.mem_cons_self ..)
    have below : ∀ x ∈ rest, x.Inert version := fun x member =>
      inert x (List.mem_cons_of_mem _ member)
    by_cases map : ∃ child, item = .object child
    · obtain ⟨child, rfl⟩ := map
      rw [overMaps_object]
      split
      · exact List.forall_mem_cons.mpr ⟨keeps child here, below⟩
      · exact List.forall_mem_cons.mpr ⟨keeps child here, ih below⟩
    · rw [overMaps_other visit item rest fun child same => map ⟨child, same⟩]
      exact List.forall_mem_cons.mpr ⟨here, ih below⟩

theorem overMaps_content (congr : ∀ first second, Inert version (.object first) →
      Inert version (.object second) → contentAt first = contentAt second →
      (visit first).1 = (visit second).1 ∧
        contentAt (visit first).2 = contentAt (visit second).2)
    (items others : List Json) (inert : ∀ x ∈ items, x.Inert version)
    (inert' : ∀ x ∈ others, x.Inert version)
    (same : items.map content = others.map content) :
    (overMaps visit items).1 = (overMaps visit others).1 ∧
      (overMaps visit items).2.map content = (overMaps visit others).2.map content := by
  induction items generalizing others with
  | nil =>
    cases List.map_eq_nil_iff.mp same.symm
    exact ⟨rfl, rfl⟩
  | cons item rest ih =>
    obtain ⟨other, more, rfl, here, below⟩ := List.map_eq_cons_iff.mp same.symm
    obtain ⟨answers, contents⟩ := ih more (fun x member => inert x (List.mem_cons_of_mem _ member))
      (fun x member => inert' x (List.mem_cons_of_mem _ member)) below.symm
    rcases Json.content_cases here.symm with ⟨first, second, rfl, rfl, child⟩ |
      ⟨first, second, rfl, rfl, -⟩ | ⟨rfl, notMap, -⟩
    · obtain ⟨answer, left⟩ := congr first second (inert _ (List.mem_cons_self ..))
        (inert' _ (List.mem_cons_self ..)) child
      have left := (Json.content_object_eq_iff _ _).mpr left
      rw [overMaps_object, overMaps_object, ← answer]
      cases (visit first).1 with
      | error e => exact ⟨rfl, by simp only [List.map_cons, left, below]⟩
      | ok wrote => exact ⟨by simp only [answers], by simp only [List.map_cons, left, contents]⟩
    · rw [overMaps_other _ _ _ (by simp), overMaps_other _ _ _ (by simp)]
      exact ⟨answers, by simp only [List.map_cons, here, contents]⟩
    · rw [overMaps_other _ _ _ notMap, overMaps_other _ _ _ notMap]
      exact ⟨answers, by simp only [List.map_cons, contents]⟩

end OverMaps

theorem overMaps_independent (first second : Object → Change Object Bool) (items : List Json)
    (each : ∀ child, .object child ∈ items → Independent first second child) :
    (overMaps first (overMaps second items).2).1 = (overMaps first items).1 ∧
      (overMaps second (overMaps first items).2).1 = (overMaps second items).1 ∧
      (overMaps second (overMaps first items).2).2.map content =
        (overMaps first (overMaps second items).2).2.map content := by
  induction items with
  | nil => exact ⟨rfl, rfl, rfl⟩
  | cons item rest ih =>
    obtain ⟨answer, answer', contents⟩ := ih fun child member =>
      each child (List.mem_cons_of_mem _ member)
    by_cases map : ∃ child, item = .object child
    · obtain ⟨child, rfl⟩ := map
      have here := each child (List.mem_cons_self ..)
      have left := (Json.content_object_eq_iff _ _).mpr here.same
      rw [overMaps_object, overMaps_object]
      cases stops : (first child).1 <;> cases stops' : (second child).1 <;>
        simp only [overMaps_object, here.first, here.second, stops, stops', List.map_cons, left,
          answer, answer', contents, and_self]
    · have other : ∀ child, item ≠ .object child := fun child same => map ⟨child, same⟩
      simp only [overMaps_other _ item _ other, answer, answer', List.map_cons, contents, and_self]

end Orchestration.Migration
