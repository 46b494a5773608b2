import Orchestration.Proofs.Migration.Replacing

/-!
# Renaming a property

A rule whose only source is the name of a sibling moves the sibling's value to the target, in every
map that its path reaches.  Two populated spellings are refused.  A sibling that is present but
empty is moved as well, also onto a populated target; apart from that no populated value is lost.
-/

set_option autoImplicit false

namespace Orchestration.Migration

/-! ## Rules that rename -/

/-- A rule that replaces its target by a sibling of another name and has no other source. -/
structure Rule.Renames (rule : Rule) (name key : String) : Prop where
  replaces : rule.kind = .replace
  sibling : rule.valueName = some name
  noValue : rule.value = none
  noPath : rule.valuePath = none
  target : rule.path.getLast? = some key
  apart : name ≠ key

structure Renamed (name key : String) (before after : Object) : Prop where
  gone : Entries.get? after name = none
  moved : ∀ value, Entries.get? before name = some value → isPopulated value = true →
    Entries.get? after key = some value
  kept : ∀ value, Entries.get? before key = some value → isPopulated value = true →
    Vacant before name → Entries.get? after key = some value
  overwritten : ∀ value, Entries.get? before name = some value → value ≠ .null →
    isPopulated value = false → Entries.get? after key = some value
  others : ∀ other, other ≠ name → other ≠ key →
    Entries.get? after other = Entries.get? before other

theorem renamed_put (name key : String) (apart : name ≠ key) (before : Object)
    (distinct : Entries.Distinct before) (value : Json)
    (found : Entries.get? before name = some value) (present : value ≠ .null) :
    Renamed name key before (Entries.put (Entries.erase before name) key value) := by
  have lookup : ∀ other, Entries.get? (Entries.put (Entries.erase before name) key value) other =
      if key = other then some value else if name = other then none
        else Entries.get? before other := by
    intro other
    rw [Entries.get?_put, Entries.get?_erase before distinct]
  have target : Entries.get? (Entries.put (Entries.erase before name) key value) key =
      some value := by
    rw [lookup, if_pos rfl]
  constructor
  · rw [lookup, if_neg (Ne.symm apart), if_pos rfl]
  · intro sibling there _
    rw [target, ← found, there]
  · intro held _ _ vacant
    exact absurd (vacant value found) present
  · intro sibling there _ _
    rw [target, ← found, there]
  · intro other notName notKey
    rw [lookup, if_neg (Ne.symm notKey), if_neg (Ne.symm notName)]

theorem renamed_erase (name key : String) (apart : name ≠ key) (before : Object)
    (distinct : Entries.Distinct before) (vacant : Vacant before name) :
    Renamed name key before (Entries.erase before name) := by
  have lookup := Entries.get?_erase before distinct name
  constructor
  · rw [lookup, if_pos rfl]
  · intro value found populated
    exact absurd ⟨value, found, populated⟩ vacant.not_supplied
  · intro value found _ _
    rw [lookup, if_neg apart, found]
  · intro value found present _
    exact absurd (vacant value found) present
  · intro other notName _
    rw [lookup, if_neg (Ne.symm notName)]

variable {rule : Rule} {name key : String}

theorem Rule.Renames.valid (renames : rule.Renames name key) : rule.Valid := by
  have path : rule.path ≠ [] := by
    intro empty
    have last := renames.target
    rw [empty] at last
    cases last
  simp [Rule.Valid, Rule.fault?, path, renames.replaces, renames.sibling, renames.noPath]

theorem Rule.Renames.noSource (renames : rule.Renames name key) :
    (rule.source none).value = none := by
  simp [Rule.source, renames.noValue]

theorem Rule.Renames.renamed (renames : rule.Renames name key) (context : Context) (place : Place)
    (distinct : Entries.Distinct place.data) (written : Bool) (left : Object)
    (done : place.act context rule (rule.source none) key = (.ok written, left)) :
    Renamed name key place.data left := by
  rw [act_replaces renames.replaces] at done
  rcases sibling_cases place.data key name with ⟨target, sibling⟩ | vacant |
    ⟨single, value, found, present⟩
  · rw [replaceAt_conflict rule _ _ key name renames.sibling target sibling] at done
    cases done
  · rw [replaceAt_vacant rule _ _ key name renames.sibling vacant, renames.noSource] at done
    cases done
    exact renamed_erase name key renames.apart place.data distinct vacant
  · rw [replaceAt_sibling rule _ _ key name renames.sibling single value found present] at done
    cases done
    exact renamed_put name key renames.apart place.data distinct value found present

theorem Rule.Renames.only_conflict (renames : rule.Renames name key) (context : Context)
    (place : Place) (e : Error)
    (fails : (place.act context rule (rule.source none) key).1 = .error e) :
    e = .conflict key name := by
  rw [act_replaces renames.replaces] at fails
  rcases sibling_cases place.data key name with ⟨target, sibling⟩ | vacant |
    ⟨single, value, found, present⟩
  · rw [replaceAt_conflict rule _ _ key name renames.sibling target sibling] at fails
    exact (Except.error.inj fails).symm
  · rw [replaceAt_vacant rule _ _ key name renames.sibling vacant, renames.noSource] at fails
    cases fails
  · rw [replaceAt_sibling rule _ _ key name renames.sibling single value found present] at fails
    cases fails

theorem Rule.Renames.execute_eq (renames : rule.Renames name key) (context : Context)
    (schema : Schema) (data : Object) :
    rule.execute context schema data =
      ((walk context rule (rule.source none) rule.path (some schema) data).1.map fun _ => (),
        (walk context rule (rule.source none) rule.path (some schema) data).2) := by
  simp only [Rule.execute, renames.noPath, Rule.write, renames.sibling]
  cases walk context rule (rule.source none) rule.path (some schema) data with
  | mk answer after => cases answer <;> simp [Rule.source, Except.map]

/-- Renaming refuses a map with two populated spellings; when it succeeds, the target of every map
that it reaches holds the populated value of either spelling, unless the sibling was present but
empty. -/
theorem renaming_outcome (context : Context) (parameters : context.WellFormed) (schema : Schema)
    (rule : Rule) (name key : String) (renames : rule.Renames name key) (data : Object)
    (good : (Json.object data).WellFormed) :
    (∀ place ∈ places context rule rule.path (some schema) data,
        Supplied place.data key → Supplied place.data name →
        (rule.execute context schema data).1 = .error (.conflict key name)) ∧
      ∀ after, rule.execute context schema data = (.ok (), after) →
        ∀ place ∈ places context rule rule.path (some schema) data, ∃ left,
          (Json.object after).at? place.location = some (.object left) ∧
            Renamed name key place.data left := by
  have last : rule.path.getLastD "" = key := by
    rw [List.getLastD_eq_getLast?, renames.target]
    rfl
  rw [renames.execute_eq]
  constructor
  · intro place member target sibling
    have fails : (place.act context rule (rule.source none) key).1 =
        .error (.conflict key name) := by
      rw [act_replaces renames.replaces,
        replaceAt_conflict rule _ _ key name renames.sibling target sibling]
    have answer := walk_answer context rule (rule.source none) rule.path (some schema) data
    rw [last, inTurn_error _ _ (renames.only_conflict context) _ place member fails] at answer
    simp only [answer, Except.map]
  · intro after done place member
    obtain ⟨answered, rfl⟩ := Prod.mk.inj done
    obtain ⟨wrote, walked, -⟩ := (map_eq_ok_iff _ _ _).mp answered
    have met := mem_of_untilFailure _ place member
    obtain ⟨written, left, acted, there⟩ := walk_reaches context rule (rule.source none) rule.path
      (some schema) data _ wrote (Prod.ext walked rfl) place met
    have placeGood :=
      meetings_wellFormed context rule parameters rule.path (some schema) data good place met
    rw [last] at acted
    exact ⟨left, there, renames.renamed context place placeGood.distinct written left acted⟩

def nameOfLabel : Rule :=
  ⟨.replace, ["servers", "name"], none, some "label", none, none⟩

def emptyContext : Context :=
  ⟨⟨.v20161014, []⟩, ⟨[], [], [], none⟩, fun _ name => .ok name⟩

def servers : Object :=
  [("servers", .list [.object [("label", .string "web"), ("size", .ofInt 2)],
    .object [("name", .string "db"), ("label", .null)]])]

def namedServers : Object :=
  [("servers", .list [.object [("size", .ofInt 2), ("name", .string "web")],
    .object [("name", .string "db")]])]

def ambiguousServers : Object :=
  [("servers", .list [.object [("label", .string "web")],
    .object [("name", .string "db"), ("label", .string "data")]])]

theorem renaming_of_servers :
    nameOfLabel.Renames "label" "name" ∧ emptyContext.WellFormed ∧
      (Json.object servers).WellFormed ∧ (Json.object ambiguousServers).WellFormed ∧
      (∃ left, (Json.object namedServers).at? [.string "servers", .ofInt 0] =
          some (.object left) ∧
        Renamed "label" "name" [("label", .string "web"), ("size", .ofInt 2)] left) ∧
      (nameOfLabel.execute emptyContext [] ambiguousServers).1 =
        .error (.conflict "name" "label") := by
  have renames : nameOfLabel.Renames "label" "name" :=
    ⟨rfl, rfl, rfl, rfl, rfl, by decide⟩
  have parameters : emptyContext.WellFormed := fun name held found => by cases found
  have good : (Json.object servers).WellFormed := by
    simp [Json.WellFormed, Json.WellFormedItems, Json.WellFormedEntries, servers,
      Entries.Distinct, Entries.keys, Json.ofInt, Number.InRange]
  have ambiguous : (Json.object ambiguousServers).WellFormed := by
    simp [Json.WellFormed, Json.WellFormedItems, Json.WellFormedEntries, ambiguousServers,
      Entries.Distinct, Entries.keys]
  refine ⟨renames, parameters, good, ambiguous, ?_, ?_⟩
  · have done : nameOfLabel.execute emptyContext [] servers = (.ok (), namedServers) := rfl
    have reached : places emptyContext nameOfLabel nameOfLabel.path (some []) servers =
        [⟨[.string "servers", .ofInt 0], none, [("label", .string "web"), ("size", .ofInt 2)]⟩,
          ⟨[.string "servers", .ofInt 1], none, [("name", .string "db"), ("label", .null)]⟩] := rfl
    exact (renaming_outcome emptyContext parameters [] nameOfLabel "label" "name" renames servers
      good).2 namedServers done _ (reached ▸ List.mem_cons_self ..)
  · have reached : places emptyContext nameOfLabel nameOfLabel.path (some []) ambiguousServers =
        [⟨[.string "servers", .ofInt 0], none, [("label", .string "web")]⟩,
          ⟨[.string "servers", .ofInt 1], none,
            [("name", .string "db"), ("label", .string "data")]⟩] := rfl
    exact (renaming_outcome emptyContext parameters [] nameOfLabel "label" "name" renames
      ambiguousServers ambiguous).1 _ (reached ▸ List.mem_cons_of_mem _ (List.mem_cons_self ..))
      ⟨.string "db", rfl, rfl⟩ ⟨.string "data", rfl, rfl⟩

/-- A label that is there but empty still goes before a name. -/
example : nameOfLabel.execute emptyContext [] [("servers", .list [.object
    [("name", .string "db"), ("label", .string "")]])] =
      (.ok (), [("servers", .list [.object [("name", .string "")]])]) := rfl

end Orchestration.Migration
