import Orchestration.Proofs.Template.Visits

/-!
# What surveys find

A survey of a tree comes to something exactly if the visit of every call in it does, at any depth,
and finds what these visits find.  Validation and both kinds of dependencies are surveys; of items
that count as the same only the first is kept.
-/

set_option autoImplicit false

namespace Orchestration

/-! ## Each item once -/

section FirstSeen

variable {α : Type} (same : α → α → Bool)

def see (seen : List α) (x : α) : List α :=
  if seen.any (same · x) then seen else seen ++ [x]

def Covered (seen : List α) (x : α) : Prop :=
  x ∈ seen ∨ ∃ y ∈ seen, same y x = true

theorem covered_see (seen : List α) (x y : α) (covered : Covered same seen y ∨ x = y) :
    Covered same (see same seen x) y := by
  unfold see
  split
  · rename_i known
    rcases covered with before | rfl
    · exact before
    · obtain ⟨z, member, equal⟩ := List.any_eq_true.mp known
      exact .inr ⟨z, member, equal⟩
  · rcases covered with (member | ⟨z, member, equal⟩) | rfl
    · exact .inl (List.mem_append_left _ member)
    · exact .inr ⟨z, List.mem_append_left _ member, equal⟩
    · exact .inl (List.mem_append_right _ (List.mem_singleton.mpr rfl))

theorem covered_firstSeen (items : List α) (x : α) (member : x ∈ items) :
    Covered same (firstSeen same items) x := by
  have covered : ∀ rest seen : List α, Covered same seen x ∨ x ∈ rest →
      Covered same (rest.foldl (see same) seen) x := by
    intro rest
    induction rest with
    | nil =>
      intro seen known
      exact known.resolve_right (by simp)
    | cons y rest ih =>
      intro seen known
      apply ih
      rcases known with before | later
      · exact .inl (covered_see same seen y x (.inl before))
      · rcases List.mem_cons.mp later with rfl | later
        · exact .inl (covered_see same seen x x (.inr rfl))
        · exact .inr later
  exact covered items [] (.inr member)

theorem mem_of_mem_firstSeen (items : List α) :
    ∀ x ∈ firstSeen same items, x ∈ items := by
  refine List.foldlRecOn (motive := fun seen => ∀ x ∈ seen, x ∈ items) items (see same) (by simp)
    fun seen known y member x kept => ?_
  unfold see at kept
  split at kept
  · exact known x kept
  · rcases List.mem_append.mp kept with before | new
    · exact known x before
    · exact List.mem_singleton.mp new ▸ member

theorem pairwise_firstSeen (items : List α) :
    (firstSeen same items).Pairwise fun x y => same x y = false := by
  refine List.foldlRecOn items (see same) List.Pairwise.nil fun seen apart y _ => ?_
  unfold see
  split
  · exact apart
  · rename_i new
    refine List.pairwise_append.mpr ⟨apart, List.pairwise_singleton .., fun x member z last => ?_⟩
    rw [List.mem_singleton.mp last]
    simp only [List.any_eq_true, not_exists, not_and, Bool.not_eq_true] at new
    exact new x member

end FirstSeen

theorem mem_firstSeen_iff (names : List String) (name : String) :
    name ∈ firstSeen (· == ·) names ↔ name ∈ names := by
  constructor
  · exact mem_of_mem_firstSeen _ names name
  · intro member
    rcases covered_firstSeen (· == ·) names name member with kept | ⟨first, kept, equal⟩
    · exact kept
    · exact eq_of_beq equal ▸ kept

theorem nodup_firstSeen (names : List String) : (firstSeen (· == ·) names).Nodup :=
  (pairwise_firstSeen (· == ·) names).imp fun apart => by simpa using apart

namespace Node

/-- The tree is the other one or below it. -/
inductive Within (x : Node) : Node → Prop where
  | self : Within x x
  | part (inner node : Node) (member : inner ∈ node.parts) (deeper : Within x inner) :
      Within x node

theorem within_iff (x node : Node) :
    x.Within node ↔ x = node ∨ ∃ inner ∈ node.parts, x.Within inner := by
  constructor
  · intro within
    cases within with
    | self => exact .inl rfl
    | part inner _ member deeper => exact .inr ⟨inner, member, deeper⟩
  · rintro (rfl | ⟨inner, member, deeper⟩)
    · exact .self
    · exact .part inner node member deeper

section Calls

variable {function inner : Intrinsic} {name innerName : String} {args innerArgs : Node}
  {memo innerMemo : Option Json}

@[simp] theorem call_within_literal (value : Json) :
    ¬ (Node.call function name args memo).Within (.literal value) := by
  simp [within_iff _ (Node.literal value), parts]

@[simp] theorem call_within_list_iff (items : List Node) :
    (Node.call function name args memo).Within (.list items) ↔
      ∃ x ∈ items, (Node.call function name args memo).Within x := by
  simp [within_iff _ (Node.list items), parts]

@[simp] theorem call_within_map_iff (entries : List (String × Node)) :
    (Node.call function name args memo).Within (.map entries) ↔
      ∃ x ∈ entries.map Prod.snd, (Node.call function name args memo).Within x := by
  rw [within_iff _ (Node.map entries), parts]
  simp only [reduceCtorEq, false_or]

@[simp] theorem call_within_call_iff :
    (Node.call function name args memo).Within (.call inner innerName innerArgs innerMemo) ↔
      (function = inner ∧ name = innerName ∧ args = innerArgs ∧ memo = innerMemo) ∨
        (Node.call function name args memo).Within innerArgs := by
  rw [within_iff _ (Node.call inner innerName innerArgs innerMemo), parts]
  simp only [Node.call.injEq, List.mem_singleton, exists_eq_left]

end Calls

theorem within_forget (x node : Node) (within : x.Within node) : x.forget.Within node.forget := by
  induction within with
  | self => exact .self
  | part inner node member deeper ih =>
    refine .part inner.forget node.forget ?_ ih
    rw [parts_forget]
    exact List.mem_map_of_mem member

/-! ## What a survey finds -/

theorem append_of_ok {α : Type} (first second : Except TemplateError (List α)) (all : List α)
    (done : (first.bind fun found => second.map (found ++ ·)) = .ok all) :
    ∃ found more, first = .ok found ∧ second = .ok more ∧ all = found ++ more := by
  cases first with
  | error e => simp [Except.bind] at done
  | ok found =>
    cases second with
    | error e => simp [Except.bind, Except.map] at done
    | ok more =>
      simp only [Except.bind, Except.map, Except.ok.injEq] at done
      exact ⟨found, more, rfl, rfl, done.symm⟩

section Survey

variable {α : Type} (visit : Intrinsic → String → Node → Visit Node α)

theorem surveyItems_ok_iff (items : List Node) :
    (∃ found, surveyItems visit items = .ok found) ↔
      ∀ x ∈ items, ∃ own, survey visit x = .ok own := by
  induction items with
  | nil => simp [surveyItems]
  | cons x rest ih =>
    rw [surveyItems, List.forall_mem_cons, ← ih]
    constructor
    · rintro ⟨found, done⟩
      obtain ⟨first, more, foundFirst, foundMore, _⟩ := append_of_ok _ _ _ done
      exact ⟨⟨first, foundFirst⟩, more, foundMore⟩
    · rintro ⟨⟨first, foundFirst⟩, more, foundMore⟩
      rw [foundFirst, foundMore]
      exact ⟨_, rfl⟩

theorem mem_surveyItems (items : List Node) (found : List α)
    (done : surveyItems visit items = .ok found) (item : α) :
    item ∈ found ↔ ∃ x ∈ items, ∃ own, survey visit x = .ok own ∧ item ∈ own := by
  induction items generalizing found with
  | nil =>
    rw [surveyItems, Except.ok.injEq] at done
    simp [← done]
  | cons x rest ih =>
    rw [surveyItems] at done
    obtain ⟨first, more, foundFirst, foundMore, rfl⟩ := append_of_ok _ _ _ done
    simp only [List.mem_append, List.exists_mem_cons_iff, ← ih more foundMore, foundFirst,
      Except.ok.injEq, exists_eq_left']

def ownVisit : Node → Except TemplateError (List α)
  | .call function name args _ => (visit function name args).2
  | .literal _ | .list _ | .map _ => .ok []

theorem survey_eq (node : Node) :
    survey visit node =
      (surveyItems visit node.parts).bind fun found => (ownVisit visit node).map (found ++ ·) := by
  have alone : ∀ all : Except TemplateError (List α),
      (all.bind fun found => (Except.ok []).map (found ++ ·)) = all := by
    intro all
    cases all <;> simp [Except.bind, Except.map]
  cases node with
  | literal value => simp [survey, parts, surveyItems, ownVisit, Except.bind, Except.map]
  | list items => rw [survey, parts, ownVisit, alone]
  | map entries => rw [survey, parts, ownVisit, surveyEntries_eq, alone]
  | call function name args memo =>
    rw [survey, parts, ownVisit, surveyItems, surveyItems, alone]

theorem survey_ok_iff (node : Node) :
    (∃ found, survey visit node = .ok found) ↔
      ∀ x, x.Within node → ∃ own, ownVisit visit x = .ok own := by
  induction node using below_induction with
  | step node ih =>
    have below := surveyItems_ok_iff visit node.parts
    rw [survey_eq]
    constructor
    · rintro ⟨found, done⟩ x within
      obtain ⟨inside, own, foundInside, visited, _⟩ := append_of_ok _ _ _ done
      rcases (within_iff x node).mp within with rfl | ⟨inner, member, deeper⟩
      · exact ⟨own, visited⟩
      · exact (ih inner member).mp (below.mp ⟨inside, foundInside⟩ inner member) x deeper
    · intro each
      obtain ⟨inside, foundInside⟩ := below.mpr fun inner member => (ih inner member).mpr
        fun x deeper => each x (.part inner node member deeper)
      obtain ⟨own, visited⟩ := each node .self
      rw [foundInside, visited]
      exact ⟨_, rfl⟩

theorem surveyItems_fails {kind : TemplateError → Prop} (items : List Node)
    (each : ∀ x ∈ items, FailsWith kind (survey visit x)) :
    FailsWith kind (surveyItems visit items) := by
  induction items with
  | nil =>
    rw [surveyItems]
    exact failsWith_ok _
  | cons x rest ih =>
    obtain ⟨first, later⟩ := List.forall_mem_cons.mp each
    rw [surveyItems]
    exact first.bind fun found _ => (ih later).map _

theorem survey_fails {kind : TemplateError → Prop} (node : Node)
    (each : ∀ x, x.Within node → FailsWith kind (ownVisit visit x)) :
    FailsWith kind (survey visit node) := by
  induction node using below_induction with
  | step node ih =>
    have below : FailsWith kind (surveyItems visit node.parts) :=
      surveyItems_fails visit node.parts fun x member =>
        ih x member fun inner within => each inner (.part x node member within)
    rw [survey_eq]
    exact below.bind fun found _ => (each node .self).map _

theorem mem_survey (node : Node) (found : List α) (done : survey visit node = .ok found)
    (item : α) :
    item ∈ found ↔ ∃ x, x.Within node ∧ ∃ own, ownVisit visit x = .ok own ∧ item ∈ own := by
  induction node using below_induction generalizing found with
  | step node ih =>
    rw [survey_eq] at done
    obtain ⟨inside, own, foundInside, visited, rfl⟩ := append_of_ok _ _ _ done
    rw [List.mem_append, mem_surveyItems visit node.parts inside foundInside]
    constructor
    · rintro (⟨inner, member, some, foundSome, present⟩ | present)
      · obtain ⟨x, deeper, held⟩ := (ih inner member some foundSome).mp present
        exact ⟨x, .part inner node member deeper, held⟩
      · exact ⟨node, .self, own, visited, present⟩
    · rintro ⟨x, within, held, known, present⟩
      rcases (within_iff x node).mp within with rfl | ⟨inner, member, deeper⟩
      · rw [visited, Except.ok.injEq] at known
        exact .inr (known ▸ present)
      · obtain ⟨some, foundSome⟩ :=
          (surveyItems_ok_iff visit node.parts).mp ⟨inside, foundInside⟩ inner member
        exact .inl ⟨inner, member, some, foundSome,
          (ih inner member some foundSome).mpr ⟨x, deeper, held, known, present⟩⟩

theorem survey_part (node : Node) (found : List α) (done : survey visit node = .ok found) (x : Node)
    (member : x ∈ node.parts) : ∃ part, survey visit x = .ok part ∧ part ⊆ found := by
  rw [survey_eq] at done
  obtain ⟨inside, own, foundInside, _, rfl⟩ := append_of_ok _ _ _ done
  obtain ⟨part, known⟩ := (surveyItems_ok_iff visit node.parts).mp ⟨inside, foundInside⟩ x member
  refine ⟨part, known, fun item present => List.mem_append_left _ ?_⟩
  exact (mem_surveyItems visit node.parts inside foundInside item).mpr
    ⟨x, member, part, known, present⟩

theorem surveyItems_congr (again : Intrinsic → String → Node → Visit Node α) (items : List Node)
    (each : ∀ x ∈ items, survey again x = survey visit x) :
    surveyItems again items = surveyItems visit items := by
  induction items with
  | nil => simp [surveyItems]
  | cons x rest ih =>
    rw [surveyItems, surveyItems, each x (List.mem_cons_self ..),
      ih fun y member => each y (List.mem_cons_of_mem _ member)]

end Survey

theorem dependencies_eq (scope : Scope) (node : Node) :
    (dependencies scope node).2 =
      (survey (resourceOfCall scope) node).map (firstSeen (· == ·)) := by
  rw [dependencies, ← (walk_survey scope _ (steady_resourceOfCall scope) node).1]

theorem attributeDependencies_eq (scope : Scope) (node : Node) :
    (attributeDependencies scope node).2 =
      (survey (attributesOfCall scope) node).map (firstSeen AttributeDependency.same) := by
  rw [attributeDependencies, ← (walk_survey scope _ (steady_attributesOfCall scope) node).1]

end Node

end Orchestration
