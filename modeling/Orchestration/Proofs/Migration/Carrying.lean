import Orchestration.Proofs.Migration.Footprint
import Orchestration.Proofs.Migration.Replacing
import Orchestration.Proofs.Migration.Settling
import Orchestration.Proofs.Migration.Sources

/-!
# From the acts of a rule to the whole

A walk settles the references that it comes by, and otherwise it does no more than to create maps on
its way and to act on its targets.  So a relation between what stands somewhere before and after
holds of the whole if it holds of every act and goes up from the entries of a map and the items of a
list.
-/

set_option autoImplicit false

namespace Orchestration.Migration

/-- A relation between what stands below some keys before and after that holds of every act of a
rule, and that is carried up from there. -/
structure Rule.Carries (context : Context) (rule : Rule) (schema : Schema) (source : Source)
    (related : List String → Option Json → Option Json → Prop) : Prop where
  same (front : List String) (value : Option Json) : related front value value
  act {front : List String} {key : String} (target : front ++ [key] = rule.path)
    (below : Option Schema)
    (declared : declaredAt (some schema) rule.path = below.bind fun s => Entries.get? s key)
    {data : Object} (distinct : Entries.Distinct data) :
    related front (some (.object data))
      (some (.object (actAt context rule below source data key).2))
  opened {front : List String} (opens : rule.Opens schema front) {before : Option Json}
    (vacant : before = none ∨ before = some .null) {after : Object}
    (inside : related front (some (.object [])) (some (.object after))) :
    related front before (some (.object after))
  entry {front : List String} {key : String} (leads : front ++ [key] <+: rule.path)
    {data left : Object} {after : Json}
    (here : related (front ++ [key]) (Entries.get? data key) (some after))
    (others : ∀ other, key ≠ other → Entries.get? left other = Entries.get? data other) :
    related front (some (.object data)) (some (.object (Entries.put left key after)))
  list {front : List String} (leads : front <+: rule.path) {before after : List Json}
    (pairs : List.Forall₂ (fun x y => related front (some x) (some y) ∧
      (y = x ∨ ∃ first second, x = .object first ∧ y = .object second)) before after) :
    related front (some (.list before)) (some (.list after))

namespace Rule.Carries

variable {context : Context} {rule : Rule} {schema : Schema} {source : Source}
  {related : List String → Option Json → Option Json → Prop} {front : List String}
  (carries : rule.Carries context schema source related)
include carries

theorem overMaps (step : Object → Change Object Bool) (items : List Json)
    (each : ∀ child, .object child ∈ items → ∃ settled,
      Settled context rule front (.object child) (.object settled) ∧
        related front (some (.object settled)) (some (.object (step child).2))) :
    ∃ settled, List.Forall₂ (Settled context rule front) items settled ∧
      List.Forall₂ (fun x y => related front (some x) (some y) ∧
        (y = x ∨ ∃ first second, x = .object first ∧ y = .object second))
        settled (overMaps step items).2 := by
  have idle (items : List Json) : List.Forall₂ (Settled context rule front) items items ∧
      List.Forall₂ (fun x y => related front (some x) (some y) ∧
        (y = x ∨ ∃ first second, x = .object first ∧ y = .object second)) items items :=
    ⟨List.forall₂_same.mpr fun x _ => .same front x,
      List.forall₂_same.mpr fun x _ => ⟨carries.same front _, .inl rfl⟩⟩
  induction items with
  | nil => exact ⟨[], .nil, .nil⟩
  | cons item rest ih =>
    obtain ⟨others, settledRest, relatedRest⟩ := ih fun child member =>
      each child (List.mem_cons_of_mem _ member)
    cases item with
    | object child =>
      obtain ⟨settled, settles, here⟩ := each child (List.mem_cons_self ..)
      rw [Migration.overMaps]
      cases visited : step child with
      | mk answer left =>
        rw [visited] at here
        have pair : related front (some (.object settled)) (some (.object left)) ∧
            (Json.object left = .object settled ∨ ∃ first second,
              Json.object settled = .object first ∧ Json.object left = .object second) :=
          ⟨here, .inr ⟨_, _, rfl, rfl⟩⟩
        cases answer with
        | error e =>
          obtain ⟨settledRest, relatedRest⟩ := idle rest
          exact ⟨.object settled :: rest, .cons settles settledRest, .cons pair relatedRest⟩
        | ok wrote =>
          exact ⟨.object settled :: others, .cons settles settledRest, .cons pair relatedRest⟩
    | _ =>
      refine ⟨_ :: others, .cons (.same ..) settledRest, ?_⟩
      rw [Migration.overMaps]
      · exact .cons ⟨carries.same front _, .inl rfl⟩ relatedRest
      · simp

theorem put {data : Object} {key : String} {settled after : Json}
    (leads : front ++ [key] <+: rule.path)
    (here : related (front ++ [key]) (some settled) (some after)) :
    related front (some (.object (Entries.put data key settled)))
      (some (.object (Entries.put data key after))) := by
  refine carries.entry leads (by rwa [Entries.get?_put, if_pos rfl]) fun other apart => ?_
  rw [Entries.get?_put, if_neg apart]

section Open

variable {key : String} {below : Option Schema} (leads : front ++ [key] <+: rule.path)
  (apart : front ++ [key] ≠ rule.path)
  (declared : declaredAt (some schema) (front ++ [key]) = below.bind fun s => Entries.get? s key)
include leads apart declared

theorem openBelow_put {data : Object} {after : Object}
    (opens : openBelow rule below data key ≠ data)
    (inside : related (front ++ [key]) (some (.object [])) (some (.object after))) :
    related front (some (.object data))
      (some (.object (Entries.put (openBelow rule below data key) key (.object after)))) := by
  rcases openBelow_vacant rule below data key with same | ⟨-, vacant, creates, map⟩
  · exact absurd same opens
  · have opens : rule.Opens schema (front ++ [key]) := ⟨leads, apart, creates, by rwa [declared]⟩
    exact carries.entry leads (carries.opened opens vacant inside)
      (get?_openBelow_of_ne rule below data key)

theorem openBelow (data : Object) :
    related front (some (.object data)) (some (.object (openBelow rule below data key))) := by
  by_cases opens : Migration.openBelow rule below data key = data
  · rw [opens]
    exact carries.same front _
  · have created := carries.openBelow_put leads apart declared opens (carries.same _ _)
    rcases openBelow_cases rule below data key with same | put
    · exact absurd same opens
    · rwa [put, Entries.put_put, ← put] at created

end Open

/-- A walk settles what it comes by, and what it does to that is carried up from its acts. -/
theorem walk (parameters : context.WellFormed) (path : List String)
    (whole : front ++ path = rule.path) (below : Option Schema) (data : Object)
    (good : (Json.object data).WellFormed)
    (declared : DeclaredBelow schema front below) :
    ∃ settled, Settled context rule front (.object data) (.object settled) ∧
      related front (some (.object settled))
        (some (.object (walk context rule source path below data).2)) := by
  induction path generalizing front below data with
  | nil => exact ⟨data, .same .., carries.same front _⟩
  | cons key path ih =>
    have leads : front ++ [key] <+: rule.path := ⟨path, by simpa using whole⟩
    have here := declared.here key
    have slot : Settled context rule front (.object data)
        (.object (resolveSlot context data key).2) :=
      .resolveSlot data key ⟨by simp, .inl leads⟩
    have slotGood := resolveSlot_wellFormed parameters data key good
    cases path with
    | nil =>
      rw [Migration.walk]
      generalize resolveSlot context data key = found at slot slotGood
      obtain ⟨answer, seen⟩ := found
      rcases answer with _ | _ | _
      · exact ⟨seen, slot, carries.same front _⟩
      · exact ⟨seen, slot, carries.same front _⟩
      · exact ⟨seen, slot, carries.act whole below (whole ▸ here) slotGood.distinct⟩
    | cons next rest =>
      have apart : front ++ [key] ≠ rule.path := by simp [← whole]
      have visit := fun child good => ih (by simpa using whole) (below.bind fun s => s.child? key)
        child good (declared.child key)
      have openedGood := ground_wellFormed context rule parameters below data key good
      rw [walk_cons]
      cases step : ground context rule below data key with
      | mk found opened =>
        obtain ⟨left, met⟩ := ground_cases context rule below data opened key found step
        rw [step] at openedGood
        have idle : related front (some (.object (resolveSlot context data key).2))
            (some (.object opened)) := by
          rcases left with rfl | rfl
          · exact carries.same front _
          · exact carries.openBelow leads apart here _
        cases found with
        | failed e => exact ⟨_, slot, idle⟩
        | closed => exact ⟨_, slot, idle⟩
        | map child =>
          obtain ⟨-, rfl, there⟩ := met _ (.inl ⟨child, rfl, rfl⟩)
          obtain ⟨settled, settles, inside⟩ := visit child (openedGood.entry key _ there)
          by_cases opens : Migration.openBelow rule below (resolveSlot context data key).2 key =
            (resolveSlot context data key).2
          · rw [opens] at there ⊢
            exact ⟨_, slot.trans (.put there settles), carries.put leads inside⟩
          · rcases openBelow_cases rule below (resolveSlot context data key).2 key with
              same | created
            · exact absurd same opens
            · rw [created, Entries.get?_put, if_pos rfl] at there
              cases there
              cases settles.of_empty rfl
              exact ⟨_, slot, carries.openBelow_put leads apart here opens inside⟩
        | list items =>
          obtain ⟨-, rfl, there⟩ := met _ (.inr ⟨items, rfl, rfl⟩)
          have list : (Json.list items).WellFormed := openedGood.entry key _ there
          obtain ⟨settled, settles, pairs⟩ := carries.overMaps _ items fun child member =>
            visit child (list.item _ member)
          rcases openBelow_cases rule below (resolveSlot context data key).2 key with
            same | created
          · rw [same] at there ⊢
            refine ⟨_, slot.trans (.put there (.of_forall₂ settles)), carries.put leads ?_⟩
            exact carries.list leads pairs
          · rw [created, Entries.get?_put, if_pos rfl] at there
            cases there

end Rule.Carries

/-! ## Executing a rule -/

section Execute

variable {context : Context} {schema : Schema} {rule : Rule}
  {related : List String → Option Json → Option Json → Prop} (parameters : context.WellFormed)
  (removed : rule.kind = .replace → ∀ path, rule.valuePath = some path → ∀ before left,
    (Json.object left).WellFormed → related [] before (some (.object left)) →
    related [] before (some (.object (removeAt path left))))
include parameters removed

theorem Rule.Carries.write {found : Option Json} {data : Object}
    (carries : rule.Carries context schema (rule.source found) related)
    (good : (Json.object data).WellFormed)
    (reads : ∀ value, found = some value → value.WellFormed ∧ rule.valuePath ≠ none) :
    ∃ settled, Settled context rule [] (.object data) (.object settled) ∧
      related [] (some (.object settled))
        (some (.object (rule.write context schema found data).2)) := by
  unfold Rule.write
  simp only
  split
  · exact ⟨data, .same .., carries.same _ _⟩
  · have walked : ∃ settled, Settled context rule [] (.object data) (.object settled) ∧
        related [] (some (.object settled)) (some (.object
          (Migration.walk context rule (rule.source found) rule.path (some schema) data).2)) :=
      carries.walk parameters rule.path rfl (some schema) data good (.root schema)
    obtain ⟨settled, settles, walked⟩ := walked
    refine ⟨settled, settles, ?_⟩
    cases done : Migration.walk context rule (rule.source found) rule.path (some schema) data with
    | mk answer left =>
      rw [done] at walked
      cases answer with
      | error e => exact walked
      | ok wrote =>
        simp only
        split
        · rename_i moves
          simp only [Bool.and_eq_true, beq_iff_eq] at moves
          obtain ⟨⟨-, fromPath⟩, replaces⟩ := moves
          obtain ⟨value, rfl⟩ := Option.isSome_iff_exists.mp fromPath
          obtain ⟨valueGood, named⟩ := reads value rfl
          obtain ⟨path, reads⟩ := Option.ne_none_iff_exists'.mp named
          have leftGood : (Json.object left).WellFormed := by
            have sourceGood : ∀ other, (rule.source (some value)).value = some other →
                other.WellFormed := by
              rintro _ ⟨⟩
              exact valueGood
            have kept := walk_replaces_wellFormed parameters replaces sourceGood rule.path
              (some schema) good
            rwa [done] at kept
          rw [reads]
          exact removed replaces path reads _ left leftGood walked
        · exact walked

/-- A rule settles what it comes by, and what it does to that is carried up from its acts and goes
through the removal of its source. -/
theorem Rule.execute_related {data : Object} (good : (Json.object data).WellFormed)
    (carries : ∀ found : Option Json, (∀ value, found = some value →
        ∃ path, rule.valuePath = some path ∧
          (Json.object (valueAt context path data).2).along? path = some value ∧
          isPopulated value = true) →
      rule.Carries context schema (rule.source found) related) :
    ∃ settled, Settled context rule [] (.object data) (.object settled) ∧
      related [] (some (.object settled))
        (some (.object (rule.execute context schema data).2)) := by
  have plain := carries none fun _ none => by cases none
  unfold Rule.execute
  cases reads : rule.valuePath with
  | none => exact plain.write parameters removed good fun _ none => by cases none
  | some path =>
    have seen : Settled context rule [] (.object data) (.object (valueAt context path data).2) :=
      .valueAt path reads data
    have seenGood := valueAt_wellFormed parameters path data good
    simp only
    cases read : valueAt context path data with
    | mk answer left =>
      rw [read] at seen seenGood
      rcases answer with _ | value | _ | _
      · exact ⟨left, seen, plain.same _ _⟩
      · obtain ⟨there, populated⟩ := valueAt_found path data left value read
        have found := carries (some value) fun other same => by
          cases same
          exact ⟨path, reads, by rw [read]; exact there, populated⟩
        obtain ⟨settled, settles, written⟩ :=
          found.write parameters removed seenGood fun other same => by
            cases same
            exact ⟨along?_wellFormed path _ value seenGood there, by simp [reads]⟩
        exact ⟨settled, seen.trans settles, written⟩
      · obtain ⟨settled, settles, written⟩ :=
          plain.write parameters removed seenGood fun _ none => by cases none
        exact ⟨settled, seen.trans settles, written⟩
      · exact ⟨left, seen, plain.same _ _⟩

end Execute

end Orchestration.Migration
