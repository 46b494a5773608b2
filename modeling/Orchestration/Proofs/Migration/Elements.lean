import Orchestration.Proofs.Migration.Singling
import Orchestration.Proofs.Migration.Skipping

/-!
# One item of a list at a time

A rule does to an item of a list what it does to the item when that stands there alone, as long as
no other item of the list stops it.  After one has, the rule goes into none of the items.
-/

set_option autoImplicit false

namespace Orchestration.Migration

open Json (Segment Singled)

variable {context : Context} {fits : List Json → Prop} {i : Nat}

/-! ## What is left -/

/-- What is left of a list and of one of its items alone has the same item; or what the list stands
in was overwritten, with the same value. -/
def Agree (overwritten : Prop) (i : Nat) (location : List Segment) (after left : Json) : Prop :=
  (∃ x, after.part? (location ++ [.item i]) = some x ∧
      left.part? (location ++ [.item 0]) = some x) ∨
    overwritten ∧ after.part? location = left.part? location

section Agree

variable {overwritten : Prop} {location : List Segment} {after left : Json}

theorem Agree.of_singled (singled : Singled context fits i location after left) :
    Agree overwritten i location after left :=
  .inl singled.item_eq

theorem Agree.key {data other : Object} {name : String}
    (there : Entries.get? data name = some after) (there' : Entries.get? other name = some left)
    (agree : Agree overwritten i location after left) :
    Agree overwritten i (.key name :: location) (.object data) (.object other) := by
  rcases agree with ⟨x, first, second⟩ | ⟨gone, same⟩
  · exact .inl ⟨x, by simp [Json.part?, there, first], by simp [Json.part?, there', second]⟩
  · exact .inr ⟨gone, by simp [Json.part?, there, there', same]⟩

theorem Agree.put (data other : Object) {name : String}
    (agree : Agree overwritten i location after left) :
    Agree overwritten i (.key name :: location) (.object (Entries.put data name after))
      (.object (Entries.put other name left)) :=
  agree.key (by rw [Entries.get?_put, if_pos rfl]) (by rw [Entries.get?_put, if_pos rfl])

theorem Agree.item {items others : List Json} {j : Nat} (there : items[j]? = some after)
    (there' : others[j]? = some left) (agree : Agree overwritten i location after left) :
    Agree overwritten i (.item j :: location) (.list items) (.list others) := by
  rcases agree with ⟨x, first, second⟩ | ⟨gone, same⟩
  · exact .inl ⟨x, by simp [Json.part?, there, first], by simp [Json.part?, there', second]⟩
  · exact .inr ⟨gone, by simp [Json.part?, there, there', same]⟩

theorem Agree.of_get? {data other : Object} {name : String} (gone : overwritten)
    (same : Entries.get? data name = Entries.get? other name) :
    Agree overwritten i (.key name :: location) (.object data) (.object other) :=
  .inr ⟨gone, by simp [Json.part?, same]⟩

end Agree

/-! ## Acting on a target -/

section Act

variable {overwritten : Prop} {location : List Segment} (rule : Rule) (source : Source)
  (key : String)

theorem addTo_list (below : Option Schema) (data : Object) (items : List Json)
    (there : Entries.get? data key = some (.list items)) :
    (addTo rule below source data key).2 = data ∨ ∃ more,
      (addTo rule below source data key).2 = Entries.put data key (.list (items ++ more)) := by
  rw [addTo]
  split
  · exact .inl rfl
  · simp only [there]
    exact .inr ⟨_, rfl⟩

theorem addTo_keeps_item (below : Option Schema) (data : Object) (items : List Json)
    (there : Entries.get? data key = some (.list items)) (j : Nat) (rest : List Segment) (z : Json)
    (held : (Json.list items).part? (.item j :: rest) = some z) :
    (Json.object (addTo rule below source data key).2).part? (.key key :: .item j :: rest) =
      some z := by
  rcases addTo_list rule source key below data items there with same | ⟨more, same⟩
  · simpa only [same, Json.part?, there, Option.bind_some] using held
  · obtain ⟨x, here, below⟩ := Option.bind_eq_some_iff.mp held
    have bound := (List.getElem?_eq_some_iff.mp here).1
    simp [same, Json.part?, Entries.get?_put, List.getElem?_append_left bound, here, below]

theorem resolveAt_list (data after : Object) (wrote : Bool) (items : List Json)
    (there : Entries.get? data key = some (.list items)) (nonempty : items ≠ [])
    (done : resolveAt context rule data key = (.ok wrote, after)) :
    (rule.finder = none ∧ after = data) ∨ ∃ finder ids, rule.finder = some finder ∧
      items.mapM (findItem context finder) = .ok ids ∧
      after = Entries.put data key (.list ids) := by
  rw [resolveAt, there] at done
  cases asks : rule.finder with
  | none =>
    rw [asks] at done
    cases done
    exact .inl ⟨rfl, rfl⟩
  | some finder =>
    have plain : context.function? (.list items) = none := rfl
    have listed : items.isEmpty = false := by simpa using nonempty
    rw [asks] at done
    simp only [plain, reduceCtorEq, if_false, Option.isSome_none, Bool.false_eq_true, Except.bind,
      findIds, listed] at done
    cases found : items.mapM (findItem context finder) with
    | error e =>
      rw [found] at done
      cases done
    | ok ids =>
      rw [found] at done
      cases done
      exact .inr ⟨finder, ids, rfl, found, rfl⟩

theorem findItems_item (finder : Finder) (items ids : List Json)
    (found : items.mapM (findItem context finder) = .ok ids) (j : Nat) (x : Json)
    (there : items[j]? = some x) :
    ∃ id, findItem context finder x = .ok id ∧ ids[j]? = some id := by
  rcases forall₂_getElem? (forall₂_of_mapM found) j with ⟨none, -⟩ | ⟨_, id, same, held, looked⟩
  · cases there.symm.trans none
  · cases there.symm.trans same
    exact ⟨id, looked, held⟩

/-- What takes the place of a target that is there: the sibling, or else the value of the rule. -/
def Rule.replacement? (rule : Rule) (source : Source) (data : Object) : Option Json :=
  match rule.valueName.bind (Entries.get? data) with
  | some .null | none => source.value
  | some sibling => some sibling

theorem replacement?_put (data : Object) (value : Json) (apart : rule.valueName ≠ some key) :
    rule.replacement? source (Entries.put data key value) = rule.replacement? source data := by
  cases named : rule.valueName with
  | none => simp only [Rule.replacement?, named, Option.bind_none]
  | some name =>
    have other : key ≠ name := by
      rintro rfl
      exact apart named
    simp only [Rule.replacement?, named, Option.bind_some, Entries.get?_put, if_neg other]

theorem get?_replaceAt {data after : Object} {wrote : Bool} (distinct : Entries.Distinct data)
    (unread : source.fromPath = false) (target : Supplied data key)
    (done : replaceAt rule source data key = (.ok wrote, after)) :
    rule.valueName ≠ some key ∧
      Entries.get? after key = (rule.replacement? source data).or (Entries.get? data key) := by
  cases named : rule.valueName with
  | none =>
    refine ⟨by simp, ?_⟩
    simp only [Rule.replacement?, named, Option.bind_none]
    cases sourced : source.value with
    | none =>
      simp only [replaceAt, named, sourced] at done
      cases done
      rfl
    | some value =>
      simp only [replaceAt, named, sourced, unread, Bool.false_and, Bool.false_eq_true,
        if_false] at done
      cases done
      rw [Entries.get?_put, if_pos rfl, Option.some_or]
  | some name =>
    simp only [Rule.replacement?, named, Option.bind_some]
    rcases sibling_cases data key name with both | vacant | ⟨single, held, found, present⟩
    · rw [replaceAt_conflict rule source data key name named both.1 both.2] at done
      cases done
    · have other : name ≠ key := by
        rintro rfl
        exact vacant.not_supplied target
      have unsupplied : (match Entries.get? data name with
          | some .null | none => source.value
          | some sibling => some sibling) = source.value := by
        cases found : Entries.get? data name with
        | none => rfl
        | some value => rw [vacant value found]
      refine ⟨fun same => other (Option.some.inj same), ?_⟩
      rw [replaceAt_vacant rule source data key name named vacant] at done
      rw [unsupplied]
      cases sourced : source.value with
      | none =>
        rw [sourced] at done
        cases done
        rw [Entries.get?_erase data distinct, if_neg other, Option.none_or]
      | some value =>
        rw [sourced] at done
        cases done
        rw [Entries.get?_put, if_pos rfl, Option.some_or]
    · have other : name ≠ key := by
        rintro rfl
        exact single ⟨target, target⟩
      refine ⟨fun same => other (Option.some.inj same), ?_⟩
      rw [replaceAt_sibling rule source data key name named single held found present] at done
      cases done
      rw [found, Entries.get?_put, if_pos rfl]
      cases held with
      | null => exact absurd rfl present
      | _ => rfl

variable {data after left : Object} {x y : Json}
  (there : Entries.get? data key = some x)
  (singled : Singled context (fun _ => True) i location x y) (inside : Segment.keys location = [])
include there singled inside

theorem addTo_agree (below : Option Schema) :
    Agree overwritten i (.key key :: location)
      (.object (addTo rule below source data key).2)
      (.object (addTo rule below source (Entries.put data key y) key).2) := by
  obtain ⟨⟨items, rfl, -⟩, others, rfl, -⟩ := singled.lists inside
  obtain ⟨z, first, second⟩ := singled.item_eq
  have there' : Entries.get? (Entries.put data key (.list others)) key = some (.list others) := by
    rw [Entries.get?_put, if_pos rfl]
  refine .inl ⟨z, ?_, ?_⟩
  · cases location with
    | nil => exact addTo_keeps_item rule source key below data items there i [] z first
    | cons segment rest =>
      cases segment with
      | key => cases inside
      | item j => exact addTo_keeps_item rule source key below data items there j _ z first
  · cases location with
    | nil => exact addTo_keeps_item rule source key below _ others there' 0 [] z second
    | cons segment rest =>
      cases segment with
      | key => cases inside
      | item j => exact addTo_keeps_item rule source key below _ others there' j _ z second

theorem resolveAt_agree (wrote wrote' : Bool)
    (done : resolveAt context rule data key = (.ok wrote, after))
    (done' : resolveAt context rule (Entries.put data key y) key = (.ok wrote', left)) :
    Agree overwritten i (.key key :: location) (.object after) (.object left) := by
  obtain ⟨⟨items, rfl, nonempty⟩, others, rfl, nonempty'⟩ := singled.lists inside
  have there' : Entries.get? (Entries.put data key (.list others)) key = some (.list others) := by
    rw [Entries.get?_put, if_pos rfl]
  rcases resolveAt_list rule key data after wrote items there nonempty done with
    ⟨asks, rfl⟩ | ⟨finder, ids, asks, found, rfl⟩
  · rcases resolveAt_list rule key _ left wrote' others there' nonempty' done' with
      ⟨-, rfl⟩ | ⟨finder, ids, asks', -, -⟩
    · exact .key there there' (.of_singled singled)
    · rw [asks] at asks'
      cases asks'
  · rcases resolveAt_list rule key _ left wrote' others there' nonempty' done' with
      ⟨asks', -⟩ | ⟨finder', ids', asks', found', rfl⟩
    · rw [asks] at asks'
      cases asks'
    · rw [asks] at asks'
      cases asks'
      refine .put _ _ ?_
      cases singled with
      | @here _ z held =>
        obtain ⟨id, here, among⟩ := findItems_item finder items ids found i z held
        obtain ⟨id', here', among'⟩ := findItems_item finder [z] ids' found' 0 z rfl
        rw [here] at here'
        cases here'
        exact .inl ⟨id, by simp [Json.part?, among], by simp [Json.part?, among']⟩
      | @item _ j rest v v' held below =>
        obtain ⟨⟨inner, rfl, -⟩, inner', rfl, -⟩ := below.lists inside
        have bound := (List.getElem?_eq_some_iff.mp held).1
        obtain ⟨id, here, among⟩ := findItems_item finder items ids found j _ held
        obtain ⟨id', here', among'⟩ := findItems_item finder _ ids' found' j _
          (List.getElem?_set_self bound)
        cases here
        cases here'
        exact .item among among' (.of_singled below)

theorem replaceAt_agree (distinct : Entries.Distinct data) (replaces : overwritten)
    (unread : source.fromPath = false) (wrote wrote' : Bool)
    (done : replaceAt rule source data key = (.ok wrote, after))
    (done' : replaceAt rule source (Entries.put data key y) key = (.ok wrote', left)) :
    Agree overwritten i (.key key :: location) (.object after) (.object left) := by
  obtain ⟨⟨items, rfl, nonempty⟩, others, rfl, nonempty'⟩ := singled.lists inside
  have there' : Entries.get? (Entries.put data key (.list others)) key = some (.list others) := by
    rw [Entries.get?_put, if_pos rfl]
  have target : Supplied data key := ⟨_, there, by simpa [isPopulated] using nonempty⟩
  have target' : Supplied (Entries.put data key (.list others)) key :=
    ⟨_, there', by simpa [isPopulated] using nonempty'⟩
  obtain ⟨apart, held⟩ := get?_replaceAt rule source key distinct unread target done
  obtain ⟨-, held'⟩ := get?_replaceAt rule source key (Entries.distinct_put distinct key _) unread
    target' done'
  rw [replacement?_put rule source key data _ apart] at held'
  cases new : rule.replacement? source data with
  | none =>
    rw [new, Option.none_or] at held held'
    exact .key (held.trans there) (held'.trans there') (.of_singled singled)
  | some value =>
    rw [new, Option.some_or] at held held'
    exact .of_get? replaces (held.trans held'.symm)

end Act

/-! ## Walking to the targets -/

def visited (step : Object → Change Object Bool) : Json → Json
  | .object child => .object (step child).2
  | other => other

theorem overMaps_visited (step : Object → Change Object Bool) (items after : List Json)
    (wrote : Bool) (done : overMaps step items = (.ok wrote, after)) (j : Nat) (x : Json)
    (there : items[j]? = some x) : after[j]? = some (visited step x) := by
  cases x with
  | object child =>
    obtain ⟨written, left, stepped, here⟩ := overMaps_item step items after wrote done j child there
    rw [here, visited, stepped]
  | _ =>
    obtain ⟨y, here⟩ := overMaps_there step items j there
    rcases overMaps_items step items j _ y there here with rfl | ⟨child, other, -⟩
    · rwa [done] at here
    · cases other

theorem overMaps_agree {overwritten : Prop} {location : List Segment}
    (step : Object → Change Object Bool) (items others after left : List Json)
    (wrote wrote' : Bool) (done : overMaps step items = (.ok wrote, after))
    (done' : overMaps step others = (.ok wrote', left))
    (loose : Singled context (fun _ => True) i location (.list items) (.list others))
    (kept : Segment.keys location ≠ [] →
      Singled context (context.Undisturbed i) i location (.list items) (.list others))
    (each : ∀ rest first second wrote wrote' after left,
      Segment.keys rest = Segment.keys location →
      Singled context (context.Undisturbed i) i rest (.object first) (.object second) →
      step first = (.ok wrote, after) → step second = (.ok wrote', left) →
      Agree overwritten i rest (.object after) (.object left)) :
    Agree overwritten i location (.list after) (.list left) := by
  have first := overMaps_visited step items after wrote done
  have second := overMaps_visited step others left wrote' done'
  by_cases inside : Segment.keys location = []
  · cases loose with
    | @here _ x there =>
      exact .inl ⟨visited step x, by simp [Json.part?, first i x there],
        by simp [Json.part?, second 0 x rfl]⟩
    | @item _ j _ x y there below =>
      have bound := (List.getElem?_eq_some_iff.mp there).1
      obtain ⟨⟨_, rfl, -⟩, _, rfl, -⟩ := below.lists inside
      exact .item (first j _ there) (second j _ (List.getElem?_set_self bound)) (.of_singled below)
  · cases kept inside with
    | here => exact absurd rfl inside
    | @item _ j rest x y there below =>
      have bound := (List.getElem?_eq_some_iff.mp there).1
      have there' : (items.set j y)[j]? = some y := List.getElem?_set_self bound
      refine .item (first j x there) (second j y there') ?_
      cases below with
      | here => exact absurd rfl inside
      | item held deeper => exact .of_singled (Singled.item held deeper)
      | @key _ name below _ _ distinct entered held deeper =>
        obtain ⟨_, one, stepped, -⟩ := overMaps_item step items after wrote done j _ there
        obtain ⟨_, two, stepped', -⟩ := overMaps_item step _ left wrote' done' j _ there'
        have agree := each (.key name :: below) _ _ _ _ one two rfl
          (.key distinct entered held deeper) stepped stepped'
        rwa [visited, visited, stepped, stepped']

section Walk

variable {overwritten : Prop} (rule : Rule) (source : Source) (unread : source.fromPath = false)
include unread

theorem actAt_agree {data after left : Object} {key : String} {rest : List Segment} {x y : Json}
    {wrote wrote' : Bool} (below : Option Schema) (distinct : Entries.Distinct data)
    (there : Entries.get? data key = some x)
    (singled : Singled context (fun _ => True) i rest x y) (inside : Segment.keys rest = [])
    (overwrites : rule.kind = .replace ∨ rule.kind = .delete → overwritten)
    (done : actAt context rule below source data key = (.ok wrote, after))
    (done' : actAt context rule below source (Entries.put data key y) key = (.ok wrote', left)) :
    Agree overwritten i (.key key :: rest) (.object after) (.object left) := by
  rw [actAt] at done done'
  cases kind : rule.kind with
  | add =>
    simp only [kind] at done done'
    have agree : Agree overwritten i _ _ _ :=
      addTo_agree rule source key there singled inside below
    rwa [done, done'] at agree
  | replace =>
    simp only [kind] at done done'
    exact replaceAt_agree rule source key there singled inside distinct (overwrites (.inl kind))
      unread wrote wrote' done done'
  | delete =>
    simp only [kind, deleteAt] at done done'
    cases done
    cases done'
    refine .of_get? (overwrites (.inr kind)) ?_
    rw [Entries.get?_erase data distinct,
      Entries.get?_erase _ (Entries.distinct_put distinct key y), if_pos rfl, if_pos rfl]
  | resolve =>
    simp only [kind] at done done'
    exact resolveAt_agree rule key there singled inside wrote wrote' done done'

theorem walk_agree (path : List String) (below : Option Schema) (data after left : Object)
    (name : String) (rest : List Segment) (x y : Json) (wrote wrote' : Bool)
    (distinct : Entries.Distinct data) (there : Entries.get? data name = some x)
    (singled : Singled context (context.Undisturbed i) i rest x y)
    (leads : name :: Segment.keys rest <+: path)
    (overwrites : name :: Segment.keys rest = path → rule.kind = .replace ∨ rule.kind = .delete →
      overwritten)
    (done : walk context rule source path below data = (.ok wrote, after))
    (done' : walk context rule source path below (Entries.put data name y) = (.ok wrote', left)) :
    Agree overwritten i (.key name :: rest) (.object after) (.object left) := by
  -- Along the path, the two maps differ in the cut list only.  Resolving the references at the last
  -- key before it may change its other items, but after that the list is not resolved again.
  induction path generalizing below data after left name rest x y wrote wrote' with
  | nil => cases List.prefix_nil.mp leads
  | cons key path ih =>
    obtain ⟨rfl, further⟩ := List.cons_prefix_cons.mp leads
    obtain ⟨answer, u, v, slot, slot', loose, kept⟩ := resolveSlot_singled there singled
    have here : Entries.get? (Entries.put data name u) name = some u := by
      rw [Entries.get?_put, if_pos rfl]
    have here' : Entries.get? (Entries.put data name v) name = some v := by
      rw [Entries.get?_put, if_pos rfl]
    have idle : Agree overwritten i (.key name :: rest) (.object (Entries.put data name u))
        (.object (Entries.put data name v)) := .put _ _ (.of_singled loose)
    cases path with
    | nil =>
      have inside := List.prefix_nil.mp further
      rw [walk, slot] at done
      rw [walk, slot'] at done'
      rcases answer with _ | _ | _
      · cases done
      · cases done
        cases done'
        exact idle
      · rw [← Entries.put_put data name u v] at done'
        exact actAt_agree rule source unread below (Entries.distinct_put distinct name u) here loose
          inside (overwrites (by rw [inside])) done done'
    | cons next others =>
      rw [walk, slot] at done
      rw [walk, slot'] at done'
      rcases answer with _ | _ | _
      · cases done
      · cases done
        cases done'
        exact idle
      · simp only [openBelow_present rule below here loose.not_null.1, here] at done
        simp only [openBelow_present rule below here' loose.not_null.2, here'] at done'
        rcases loose.list_or_key with ⟨items, items', rfl, rfl⟩ | ⟨next', rest', rfl⟩
        · obtain ⟨answered, rfl⟩ := Prod.mk.inj done
          obtain ⟨answered', rfl⟩ := Prod.mk.inj done'
          refine .put _ _ ?_
          refine overMaps_agree _ items items' _ _ wrote wrote' (Prod.ext answered rfl)
            (Prod.ext answered' rfl) loose kept fun inner first second w w' one two same singled
              stepped stepped' => ?_
          cases singled with
          | @key _ next' rest' z z' distinct' entered held deeper =>
            have leads : next' :: Segment.keys rest' <+: next :: others := by
              rw [← same] at further
              exact further
            exact ih _ _ one two next' rest' z z' w w' distinct' held deeper leads
              (fun whole => overwrites (by rw [← whole, ← same]; rfl)) stepped stepped'
        · cases kept (List.cons_ne_nil _ _) with
          | @key entries _ _ z z' distinct' entered held deeper =>
            obtain ⟨answered, rfl⟩ := Prod.mk.inj done
            obtain ⟨answered', rfl⟩ := Prod.mk.inj done'
            refine .put _ _ ?_
            exact ih _ entries _ _ next' rest' z z' wrote wrote' distinct' held deeper further
              (fun whole => overwrites (by rw [← whole]; rfl)) (Prod.ext answered rfl)
              (Prod.ext answered' rfl)

end Walk

/-! ## Executing a rule -/

theorem halts_of_part {value x call : Json} (location : List Segment) {rest : List Segment}
    (there : value.part? location = some x) (entered : context.Reaches value location)
    (halts : context.Halts x rest call) : context.Halts value (location ++ rest) call := by
  induction location generalizing value with
  | nil =>
    cases there
    exact halts
  | cons segment more ih =>
    rcases Json.part?_cons value _ segment more there with
      ⟨entries, name, next, rfl, rfl, here, below⟩ | ⟨list, j, next, rfl, rfl, here, below⟩
    · exact .key entered.start here (ih below (entered.below (by simp [Json.part?, here])))
    · exact .item here (ih below (entered.below (by simp [Json.part?, here])))

theorem Rule.execute_pathless (rule : Rule) (pathless : rule.valuePath = none) (schema : Schema)
    (data : Object) :
    rule.execute context schema data =
      if (rule.kind == .add || rule.kind == .replace) && rule.value.isNone &&
          rule.valueName.isNone then (.ok (), data)
      else
        ((walk context rule (rule.source none) rule.path (some schema) data).1.map fun _ => (),
          (walk context rule (rule.source none) rule.path (some schema) data).2) := by
  have literal : (rule.source none).value = rule.value := rfl
  have unread : (rule.source none).fromPath = false := rfl
  rw [execute, pathless]
  simp only [write, literal, unread, Bool.and_false, Bool.false_and, Bool.false_eq_true, if_false]
  split
  · rfl
  · cases walk context rule (rule.source none) rule.path (some schema) data with
    | mk answer left => cases answer <;> rfl

/-- The rule replaces or deletes what is at the keys: they lead to its target. -/
def Rule.Overwrites (rule : Rule) (keys : List String) : Prop :=
  keys = rule.path ∧ (rule.kind = .replace ∨ rule.kind = .delete)

/-- What a rule without a value path makes of an item of a list on its way is what it makes of the
item alone, if no other item of the list stops it.  An item that stops the rule is left as it is,
and so is what stops it within the item. -/
theorem items_independent (context : Context) (schema : Schema) (rule : Rule)
    (pathless : rule.valuePath = none) (data : Object) (good : (Json.object data).WellFormed)
    (location : List Segment) (leads : Segment.keys location <+: rule.path) (items : List Json)
    (there : (Json.object data).part? location = some (.list items))
    (clear : context.Clear data location) (after : Object)
    (whole : rule.execute context schema data = (.ok (), after)) (i : Nat) (x : Json)
    (member : items[i]? = some x) :
    (∀ alone left, Json.object alone = (Json.object data).withPart location (.list [x]) →
      context.Undisturbed i items → rule.execute context schema alone = (.ok (), left) →
      Agree (rule.Overwrites (Segment.keys location)) i location (.object after) (.object left)) ∧
    ∀ rest call, context.Halts x rest call →
      Segment.keys (location ++ .item i :: rest) <+: rule.path →
      (Json.object after).part? (location ++ .item i :: rest) = some call := by
  cases location with
  | nil => cases there
  | cons segment inner =>
  rcases Json.part?_cons _ _ segment inner there with
    ⟨_, name, next, same, rfl, here, below⟩ | ⟨_, _, _, same, _⟩
  · cases same
    have nextGood := good.entry name next here
    have entered := clear.reaches here
    rw [rule.execute_pathless pathless] at whole
    constructor
    · intro alone left cut others single
      have singled : Singled context (context.Undisturbed i) i inner next
          (next.withPart inner (.list [x])) :=
        .of_part next inner items x nextGood below entered member others
      simp only [Json.withPart, here] at cut
      cases cut
      rw [rule.execute_pathless pathless] at single
      split at whole
      · rename_i idle
        rw [if_pos idle] at single
        cases whole
        cases single
        exact .key here (by rw [Entries.get?_put, if_pos rfl]) (.of_singled singled)
      · rename_i active
        rw [if_neg active] at single
        obtain ⟨answered, rfl⟩ := Prod.mk.inj whole
        obtain ⟨answered', rfl⟩ := Prod.mk.inj single
        obtain ⟨wrote, walked, -⟩ := (map_eq_ok_iff ..).mp answered
        obtain ⟨wrote', walked', -⟩ := (map_eq_ok_iff ..).mp answered'
        exact walk_agree rule (rule.source none) rfl rule.path (some schema) data _ _ name inner
          next _ wrote wrote' good.distinct here singled leads (fun target kind => ⟨target, kind⟩)
          (Prod.ext walked rfl) (Prod.ext walked' rfl)
    · intro rest call halts onPath
      have stays : context.Halts next (inner ++ .item i :: rest) call :=
        halts_of_part inner below entered (.item member halts)
      split at whole
      · cases whole
        simpa [Json.part?, here] using stays.part?
      · obtain ⟨-, rfl⟩ := Prod.mk.inj whole
        exact part?_walk rule (rule.source none) rule.path (some schema) here stays onPath
  · cases same

def forgetSizes : Rule :=
  ⟨.delete, ["servers", "size"], none, none, none, none⟩

def sizedServers : List Json :=
  [.object [("get_param", .string "limits")], .object [("size", .ofInt 1), ("name", .string "db")]]

def unknownServers : List Json :=
  [.object [("size", .ofInt 1)], .object [("get_param", .string "limit")]]

theorem items_independent_of_servers :
    (∃ after left y,
      forgetSizes.execute limitsContext [] [("servers", .list sizedServers)] = (.ok (), after) ∧
      forgetSizes.execute limitsContext []
        [("servers", .list [.object [("size", .ofInt 1), ("name", .string "db")]])] =
          (.ok (), left) ∧
      (Json.object after).part? [.key "servers", .item 1] = some y ∧
      (Json.object left).part? [.key "servers", .item 0] = some y) ∧
    ∃ after, forgetSizes.execute limitsContext [] [("servers", .list unknownServers)] =
        (.ok (), after) ∧ (Json.object after).part? [.key "servers", .item 1] =
        some (.object [("get_param", .string "limit")]) := by
  have good : ∀ items, (∀ x ∈ items, x.WellFormed) →
      (Json.object [("servers", .list items)]).WellFormed := by
    intro items each
    refine (Json.wellFormed_object_iff _).mpr ⟨by simp [Entries.Distinct, Entries.keys], ?_⟩
    simpa [Json.wellFormed_list_iff] using each
  have clear : ∀ items, limitsContext.Clear [("servers", .list items)] [.key "servers"] := by
    intro items up down x split nonempty there known
    obtain ⟨first, rest, rfl⟩ := List.exists_cons_of_ne_nil nonempty
    obtain ⟨rfl, more⟩ := List.cons.inj split
    obtain ⟨rfl, -⟩ := List.append_eq_nil_iff.mp more.symm
    cases there
    cases known
  have sized := good sizedServers (by
    simp [sizedServers, Json.WellFormed, Json.WellFormedEntries, Entries.Distinct, Entries.keys,
      Json.ofInt, Number.InRange])
  have unknown := good unknownServers (by
    simp [unknownServers, Json.WellFormed, Json.WellFormedEntries, Entries.Distinct, Entries.keys,
      Json.ofInt, Number.InRange])
  have leads : Segment.keys [.key "servers"] <+: forgetSizes.path := ⟨["size"], rfl⟩
  have others : limitsContext.Undisturbed 1 sizedServers := by
    intro j y held apart
    cases j with
    | zero =>
      cases held
      rfl
    | succ j =>
      cases j with
      | zero => exact absurd rfl apart
      | succ j => cases held
  obtain ⟨alike, -⟩ := items_independent limitsContext [] forgetSizes rfl
    [("servers", .list sizedServers)] sized [.key "servers"] leads sizedServers rfl (clear _) _
    rfl 1 _ rfl
  obtain ⟨-, left⟩ := items_independent limitsContext [] forgetSizes rfl
    [("servers", .list unknownServers)] unknown [.key "servers"] leads unknownServers rfl
    (clear _) _ rfl 1 _ rfl
  constructor
  · rcases alike _ _ rfl others rfl with ⟨y, first, second⟩ | ⟨⟨target, -⟩, -⟩
    · exact ⟨_, _, y, rfl, rfl, first, second⟩
    · exact absurd target (by decide)
  · exact ⟨_, rfl, left [] _ (.here (.missing rfl "limit" rfl)) leads⟩

end Orchestration.Migration
