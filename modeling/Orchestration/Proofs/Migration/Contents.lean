import Orchestration.Proofs.Migration.Acting
import Orchestration.Proofs.Migration.Independence
import Orchestration.Proofs.Migration.Replacing
import Orchestration.Proofs.Results

/-!
# Acts on contents

Where nothing is resolved, what an act does depends on the contents of its target and of the sibling
only: neither the other keys of the map nor the order of any keys matter.
-/

set_option autoImplicit false

namespace Orchestration.Migration

open Json (Inert content)

/-! ## Reading contents -/

theorem isEmpty_of_contentAt {first second : Object} (same : contentAt first = contentAt second) :
    first.isEmpty = second.isEmpty := by
  match first, second with
  | [], [] | _ :: _, _ :: _ => rfl
  | [], (key, value) :: rest | (key, value) :: rest, [] =>
    have here := congrFun same key
    simp [contentAt, Entries.get?_cons] at here

theorem isPopulated_of_content {x y : Json} (same : x.content = y.content) :
    isPopulated x = isPopulated y := by
  rcases Json.content_cases same with ⟨first, second, rfl, rfl, child⟩ |
    ⟨first, second, rfl, rfl, items⟩ | ⟨rfl, -⟩
  · rw [isPopulated, isPopulated, isEmpty_of_contentAt child]
  · have lengths := congrArg List.isEmpty items
    rw [List.isEmpty_map, List.isEmpty_map] at lengths
    rw [isPopulated, isPopulated, lengths]
  · rfl

theorem eq_null_of_content {y : Json} (same : Json.null.content = y.content) : y = .null := by
  cases y <;> simp_all [content]

section Slots

variable {first second : Object} {key : String}

theorem Supplied.of_content (same : contentAt first key = contentAt second key)
    (supplied : Supplied first key) : Supplied second key := by
  obtain ⟨value, found, populated⟩ := supplied
  rcases contentAt_cases same with ⟨absent, -⟩ | ⟨x, y, here, there, contents⟩
  · cases absent.symm.trans found
  · cases here.symm.trans found
    exact ⟨y, there, isPopulated_of_content contents ▸ populated⟩

theorem supplied_of_content_iff (same : contentAt first key = contentAt second key) :
    Supplied first key ↔ Supplied second key :=
  ⟨.of_content same, .of_content same.symm⟩

theorem Vacant.of_content (same : contentAt first key = contentAt second key)
    (vacant : Vacant first key) : Vacant second key := by
  intro value found
  rcases contentAt_cases same with ⟨-, absent⟩ | ⟨x, y, here, there, contents⟩
  · cases absent.symm.trans found
  · cases there.symm.trans found
    cases vacant x here
    exact eq_null_of_content contents

end Slots

/-! ## Changes of two maps at once -/

/-- Two changes answer the same, and leave the same content at each key where there was the same
content. -/
structure Matching (first second : Object) (left right : Change Object Bool) : Prop where
  answer : left.1 = right.1
  contents : ∀ key, contentAt first key = contentAt second key →
    contentAt left.2 key = contentAt right.2 key

namespace Matching

variable {first second : Object}

theorem idle (answer : Except Error Bool) :
    Matching first second (answer, first) (answer, second) :=
  ⟨rfl, fun _ same => same⟩

theorem put {left right : Object} {answer : Except Error Bool}
    (matching : Matching first second (answer, left) (answer, right)) (key : String) {x y : Json}
    (same : x.content = y.content) :
    Matching first second (answer, Entries.put left key x) (answer, Entries.put right key y) where
  answer := rfl
  contents other before := by
    rw [contentAt_put, contentAt_put, same, matching.contents other before]

theorem erase (distinct : Entries.Distinct first) (distinct' : Entries.Distinct second)
    (answer : Except Error Bool) (key : String) :
    Matching first second (answer, Entries.erase first key) (answer, Entries.erase second key) where
  answer := rfl
  contents other before := by
    rw [contentAt_erase _ _ _ distinct, contentAt_erase _ _ _ distinct', before]

end Matching

/-! ## Adding -/

theorem addition_content {rule : Rule} (source : Source) {first second : Object}
    (sibling : ∀ name, rule.valueName = some name → contentAt first name = contentAt second name) :
    (addition rule source first).map content = (addition rule source second).map content := by
  cases named : rule.valueName with
  | none => simp only [addition, named]
  | some name =>
    rcases contentAt_cases (sibling name named) with ⟨here, there⟩ | ⟨x, y, here, there, same⟩
    · simp only [addition, named, here, there]
    · simp only [addition, named, here, there]
      rcases Json.content_cases same with ⟨_, _, rfl, rfl, -⟩ | ⟨_, _, rfl, rfl, -⟩ | ⟨rfl, -⟩
      · exact congrArg some same
      · exact congrArg some same
      · rfl

theorem itemsOf_content {x y : Json} (same : x.content = y.content) :
    (itemsOf x).map content = (itemsOf y).map content := by
  rcases Json.content_cases same with ⟨_, _, rfl, rfl, -⟩ | ⟨_, _, rfl, rfl, items⟩ | ⟨rfl, -⟩
  · simp only [itemsOf, List.map_cons, same]
  · exact items
  · rfl

theorem extended_content (declared : Bool) {items others : List Json}
    (same : items.map content = others.map content) {slot slot' : Option Json}
    (slots : slot.map content = slot'.map content) :
    (extended declared items slot).map (List.map content) =
      (extended declared others slot').map (List.map content) := by
  cases slot with
  | none =>
    cases Option.map_eq_none_iff.mp slots.symm
    cases declared
    · rfl
    · exact congrArg some same
  | some x =>
    obtain ⟨y, rfl, here⟩ := Option.map_eq_some_iff.mp slots.symm
    rcases Json.content_cases here.symm with ⟨_, _, rfl, rfl, -⟩ |
      ⟨present, present', rfl, rfl, before⟩ | ⟨rfl, -, notList⟩
    · rfl
    · simp only [extended, Option.map_some, List.map_append, before, same]
    · cases x with
      | null =>
        cases declared
        · rfl
        · exact congrArg some same
      | list items => exact absurd rfl (notList items)
      | _ => rfl

theorem itemsOf_inert {version : Version} {value : Json} (good : value.Inert version) :
    ∀ x ∈ itemsOf value, x.Inert version := by
  cases value with
  | list items => exact good.item
  | _ =>
    intro x member
    rw [List.mem_singleton.mp member]
    exact good

theorem extended_inert {version : Version} (declared : Bool) {items left : List Json}
    {slot : Option Json} (good : ∀ x ∈ items, x.Inert version) (held : ∀ x ∈ slot, x.Inert version)
    (list : extended declared items slot = some left) : ∀ x ∈ left, x.Inert version := by
  have created : (if declared then some items else none) = some left →
      ∀ x ∈ left, x.Inert version := by
    cases declared <;> rintro ⟨⟩
    exact good
  cases slot with
  | none => exact created list
  | some value =>
    cases value with
    | null => exact created list
    | list present =>
      cases list
      exact List.forall_mem_append.mpr ⟨(held _ rfl).item, good⟩
    | _ => cases list

/-! ## Looking up ids -/

section Ids

variable (context : Context) (finder : Finder) {x y : Json}

theorem findItem_content (same : x.content = y.content) :
    (findItem context finder x).map content = (findItem context finder y).map content := by
  rcases Json.content_cases same with ⟨_, _, rfl, rfl, -⟩ | ⟨_, _, rfl, rfl, -⟩ | ⟨rfl, -⟩
  · exact congrArg Except.ok same
  · exact congrArg Except.ok same
  · rfl

theorem findItems_content {items others : List Json}
    (same : items.map content = others.map content) :
    (items.mapM (findItem context finder)).map (List.map content) =
      (others.mapM (findItem context finder)).map (List.map content) := by
  induction items generalizing others with
  | nil =>
    cases List.map_eq_nil_iff.mp same.symm
    rfl
  | cons x rest ih =>
    obtain ⟨y, more, rfl, here, below⟩ := List.map_eq_cons_iff.mp same.symm
    have first := findItem_content context finder here.symm
    have others := ih below.symm
    rw [List.mapM_cons, List.mapM_cons]
    rcases map_eq_map_cases first with ⟨e, found, found'⟩ | ⟨id, id', found, found', ids⟩
    · rw [found, found']
      rfl
    · rw [found, found']
      rcases map_eq_map_cases others with ⟨e, left, left'⟩ | ⟨more, more', left, left', contents⟩
      · rw [left, left']
        rfl
      · rw [left, left']
        exact congrArg Except.ok (congrArg₂ List.cons ids contents)

theorem findIds_content (same : x.content = y.content) :
    (findIds context finder x).map (Option.map content) =
      (findIds context finder y).map (Option.map content) := by
  rcases Json.content_cases same with ⟨_, _, rfl, rfl, -⟩ | ⟨items, others, rfl, rfl, contents⟩ |
    ⟨rfl, -⟩
  · rfl
  · have empty := congrArg List.isEmpty contents
    rw [List.isEmpty_map, List.isEmpty_map] at empty
    have found := findItems_content context finder contents
    simp only [findIds, empty]
    split
    · rfl
    · rcases map_eq_map_cases found with ⟨e, left, left'⟩ | ⟨ids, ids', left, left', contents⟩
      · rw [left, left']
      · rw [left, left']
        exact congrArg (fun x => Except.ok (some x)) ((Json.content_list_eq_iff _ _).mpr contents)
  · rfl

variable {version : Version}

theorem string_inert (text : String) : Inert version (.string text) := by
  constructor <;> trivial

theorem findItem_inert (good : x.Inert version) (found : findItem context finder x = .ok y) :
    y.Inert version := by
  cases x with
  | string name =>
    rw [findItem] at found
    split at found
    · cases found
      exact good
    · obtain ⟨id, -, rfl⟩ := (map_eq_ok_iff ..).mp found
      exact string_inert id
  | _ =>
    cases found
    exact good

theorem findItems_inert {items ids : List Json} (good : ∀ x ∈ items, x.Inert version)
    (found : items.mapM (findItem context finder) = .ok ids) : ∀ x ∈ ids, x.Inert version := by
  intro id member
  obtain ⟨j, held⟩ := List.mem_iff_getElem?.mp member
  rcases forall₂_getElem? (forall₂_of_mapM found) j with ⟨-, none⟩ | ⟨x, _, there, same, looked⟩
  · cases held.symm.trans none
  · cases held.symm.trans same
    exact findItem_inert context finder (good x (List.mem_of_getElem? there)) looked

theorem findIds_inert (good : x.Inert version) (found : findIds context finder x = .ok (some y)) :
    y.Inert version := by
  cases x with
  | string name =>
    rw [findIds] at found
    split at found
    · cases found
    · obtain ⟨id, done, same⟩ := (map_eq_ok_iff ..).mp found
      cases same
      exact findItem_inert context finder good done
  | list items =>
    rw [findIds] at found
    split at found
    · cases found
    · obtain ⟨ids, done, same⟩ := (map_eq_ok_iff ..).mp found
      cases same
      exact .list (findItems_inert context finder good.item done)
  | _ => cases found

end Ids

theorem resolveAt_of_inert {context : Context} {rule : Rule} {data : Object} {key : String}
    {finder : Finder} {value : Json} (finds : rule.finder = some finder)
    (here : Entries.get? data key = some value) (good : value.Inert context.template.version) :
    resolveAt context rule data key =
      match findIds context finder value with
      | .error e => (.error e, data)
      | .ok none => (.ok false, data)
      | .ok (some ids) => (.ok true, Entries.put data key ids) := by
  simp only [resolveAt, finds, here, context.function?_inert value good]
  rfl

/-! ## Acts on maps with one content -/

section Acts

variable {rule : Rule} {first second : Object} {key : String}
  (sibling : ∀ name, rule.valueName = some name → contentAt first name = contentAt second name)
  (target : contentAt first key = contentAt second key)
include target

theorem deleteAt_matching (distinct : Entries.Distinct first)
    (distinct' : Entries.Distinct second) :
    Matching first second (deleteAt first key) (deleteAt second key) := by
  have present : Entries.has first key = Entries.has second key := by
    have slots := congrArg Option.isSome target
    rwa [contentAt, contentAt, Option.isSome_map, Option.isSome_map] at slots
  rw [deleteAt, deleteAt, present]
  exact .erase distinct distinct' _ key

theorem resolveAt_matching (context : Context)
    (inert : Inert context.template.version (.object first))
    (inert' : Inert context.template.version (.object second)) :
    Matching first second (resolveAt context rule first key)
      (resolveAt context rule second key) := by
  cases finds : rule.finder with
  | none =>
    simp only [resolveAt, finds]
    exact .idle _
  | some finder =>
    rcases contentAt_cases target with ⟨here, there⟩ | ⟨x, y, here, there, same⟩
    · simp only [resolveAt, finds, here, there]
      exact .idle _
    · have ids := findIds_content context finder same
      rw [resolveAt_of_inert finds here (inert.entry key x here),
        resolveAt_of_inert finds there (inert'.entry key y there)]
      rcases map_eq_map_cases ids with ⟨e, found, found'⟩ | ⟨found, found', done, done', same⟩
      · rw [found, found']
        exact .idle _
      · rw [done, done']
        cases found with
        | none =>
          cases Option.map_eq_none_iff.mp same.symm
          exact .idle _
        | some value =>
          obtain ⟨other, rfl, contents⟩ := Option.map_eq_some_iff.mp same.symm
          exact (Matching.idle _).put key contents.symm

include sibling

theorem addTo_matching (schema : Option Schema) (source : Source) :
    Matching first second (addTo rule schema source first key)
      (addTo rule schema source second key) := by
  have additions := addition_content source sibling
  rw [addTo_eq, addTo_eq]
  cases added : addition rule source first with
  | none =>
    rw [added, Option.map_none, eq_comm, Option.map_eq_none_iff] at additions
    rw [additions]
    exact .idle _
  | some x =>
    rw [added] at additions
    obtain ⟨y, added', same⟩ := Option.map_eq_some_iff.mp additions.symm
    have lists := extended_content (declaresList schema key) (itemsOf_content same.symm) target
    rw [added']
    simp only
    cases list : extended (declaresList schema key) (itemsOf x) (Entries.get? first key) with
    | none =>
      rw [list, Option.map_none, eq_comm, Option.map_eq_none_iff] at lists
      rw [lists]
      exact .idle _
    | some items =>
      rw [list] at lists
      obtain ⟨others, list', same⟩ := Option.map_eq_some_iff.mp lists.symm
      rw [list']
      exact (Matching.idle _).put key ((Json.content_list_eq_iff _ _).mpr same.symm)

theorem replaceAt_matching (source : Source) (distinct : Entries.Distinct first)
    (distinct' : Entries.Distinct second) :
    Matching first second (replaceAt rule source first key) (replaceAt rule source second key) := by
  cases named : rule.valueName with
  | none =>
    have supplied := supplied_of_content_iff target
    rw [supplied_iff, supplied_iff, ← Bool.eq_iff_iff] at supplied
    simp only [replaceAt, named, supplied]
    cases source.value with
    | none => exact .idle _
    | some value =>
      simp only
      split
      · exact .idle _
      · exact (Matching.idle _).put key rfl
  | some name =>
    have beside := sibling name named
    rcases sibling_cases first key name with ⟨occupied, supplied⟩ | vacant |
      ⟨single, x, here, present⟩
    · rw [replaceAt_conflict rule source first key name named occupied supplied,
        replaceAt_conflict rule source second key name named (occupied.of_content target)
          (supplied.of_content beside)]
      exact .idle _
    · rw [replaceAt_vacant rule source first key name named vacant,
        replaceAt_vacant rule source second key name named (vacant.of_content beside)]
      cases source.value with
      | none => exact .erase distinct distinct' _ name
      | some value => exact (Matching.erase distinct distinct' _ name).put key rfl
    · rcases contentAt_cases beside with ⟨absent, -⟩ | ⟨x', y, here', there, same⟩
      · cases absent.symm.trans here
      · cases here'.symm.trans here
        have present' : y ≠ .null := by
          rintro rfl
          exact present (eq_null_of_content same.symm)
        have single' : ¬ (Supplied second key ∧ Supplied second name) := fun both =>
          single ⟨both.1.of_content target.symm, both.2.of_content beside.symm⟩
        rw [replaceAt_sibling rule source first key name named single x here present,
          replaceAt_sibling rule source second key name named single' y there present']
        exact (Matching.erase distinct distinct' _ name).put key same

theorem actAt_matching (context : Context) (schema : Option Schema) (source : Source)
    (inert : Inert context.template.version (.object first))
    (inert' : Inert context.template.version (.object second)) :
    Matching first second (actAt context rule schema source first key)
      (actAt context rule schema source second key) := by
  have distinct := inert.wellFormed.distinct
  have distinct' := inert'.wellFormed.distinct
  rw [actAt, actAt]
  cases rule.kind with
  | add => exact addTo_matching sibling target schema source
  | replace => exact replaceAt_matching sibling target source distinct distinct'
  | delete => exact deleteAt_matching target distinct distinct'
  | resolve => exact resolveAt_matching target context inert inert'

end Acts

/-! ## What acts leave -/

section Leave

variable {context : Context} {rule : Rule} {source : Source} {data : Object} {key : String}
  (inert : Inert context.template.version (.object data))
  (named : context.template.version.function? key = none)
include inert named

theorem resolveAt_inert :
    Inert context.template.version (.object (resolveAt context rule data key).2) := by
  cases finds : rule.finder with
  | none =>
    simp only [resolveAt, finds]
    exact inert
  | some finder =>
    cases here : Entries.get? data key with
    | none =>
      simp only [resolveAt, finds, here]
      exact inert
    | some value =>
      have good := inert.entry key value here
      rw [resolveAt_of_inert finds here good]
      split
      · exact inert
      · exact inert
      · rename_i ids found
        exact inert.put key ids named (findIds_inert context finder good found)

variable (sourced : ∀ value, source.value = some value → value.Inert context.template.version)
include sourced

theorem addTo_inert (schema : Option Schema) :
    Inert context.template.version (.object (addTo rule schema source data key).2) := by
  rw [addTo_eq]
  cases added : addition rule source data with
  | none => exact inert
  | some value =>
    have good : value.Inert context.template.version := by
      rw [addition] at added
      split at added
      · split at added
        · cases added
        · cases added
        · rename_i found
          cases added
          exact inert.entry _ _ found
      · exact sourced value added
    simp only
    cases list : extended (declaresList schema key) (itemsOf value) (Entries.get? data key) with
    | none => exact inert
    | some items =>
      have kept := extended_inert _ (itemsOf_inert good) (inert.entry key) list
      exact inert.put key _ named (.list kept)

theorem replaceAt_inert :
    Inert context.template.version (.object (replaceAt rule source data key).2) := by
  cases sibling : rule.valueName with
  | none =>
    simp only [replaceAt, sibling]
    cases value : source.value with
    | none => exact inert
    | some value' =>
      simp only
      split
      · exact inert
      · exact inert.put key value' named (sourced value' value)
  | some name =>
    rcases sibling_cases data key name with ⟨occupied, supplied⟩ | vacant |
      ⟨single, held, found, present⟩
    · rw [replaceAt_conflict rule source data key name sibling occupied supplied]
      exact inert
    · rw [replaceAt_vacant rule source data key name sibling vacant]
      cases value : source.value with
      | none => exact inert.erase name
      | some value' => exact (inert.erase name).put key value' named (sourced value' value)
    · rw [replaceAt_sibling rule source data key name sibling single held found present]
      exact (inert.erase name).put key held named (inert.entry name held found)

theorem actAt_inert (schema : Option Schema) :
    Inert context.template.version (.object (actAt context rule schema source data key).2) := by
  rw [actAt]
  cases rule.kind with
  | add => exact addTo_inert inert named sourced schema
  | replace => exact replaceAt_inert inert named sourced
  | delete => exact inert.erase key
  | resolve => exact resolveAt_inert inert named

end Leave

theorem confined_actAt {context : Context} (rule : Rule) {source : Source}
    (sourced : ∀ value, source.value = some value → value.Inert context.template.version)
    (schema : Option Schema) {key : String}
    (named : context.template.version.function? key = none) :
    Confined context.template.version (key :: rule.valueName.toList)
      fun data => actAt context rule schema source data key := by
  have target : key ∈ key :: rule.valueName.toList := List.mem_cons_self ..
  have beside : ∀ name, rule.valueName = some name → name ∈ key :: rule.valueName.toList :=
    fun name here => List.mem_cons_of_mem _ (Option.mem_toList.mpr here)
  refine ⟨fun data inert other outside => ?_, fun first second inert inert' same => ?_,
    fun data inert => actAt_inert inert named sourced schema⟩
  · have apart : key ≠ other := fun same => outside (same ▸ target)
    rcases get?_actAt context rule schema source data key inert.wellFormed.distinct other apart with
      kept | ⟨-, -, here⟩
    · exact kept
    · exact absurd (beside other here) outside
  · have matching := actAt_matching (fun name here => same name (beside name here))
      (same key target) context schema source inert inert'
    exact ⟨matching.answer, fun other member => matching.contents other (same other member)⟩

end Orchestration.Migration
