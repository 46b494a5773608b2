import Orchestration.Proofs.Migration.Frame
import Orchestration.Proofs.Migration.Moving
import Orchestration.Proofs.Migration.Walking

/-!
# Rules with footprints that are apart

A rule walks to its targets and may then take its source away, both on its footprint.
When the footprints of two rules are apart and nothing is resolved, neither rule sees the other:
each finds the same source, fails or succeeds as it would alone, and the order does not matter.
-/

set_option autoImplicit false

namespace Orchestration.Migration

open Json (Inert)

variable {context : Context} {version : Version} {rule : Rule}

/-! ## The parts of a rule -/

/-- A rule of which nothing is resolved, with one source at most. -/
structure Rule.Plain (version : Version) (rule : Rule) : Prop where
  path : ∀ key ∈ rule.path, version.function? key = none
  value : ∀ value, rule.value = some value → value.Inert version
  single : (rule.value = none ∧ rule.valueName = none) ∨
    (rule.value = none ∧ rule.valuePath = none) ∨ (rule.valueName = none ∧ rule.valuePath = none)

/-- What a rule does in one go: a descent on its footprint, or nothing. -/
inductive Rule.Part (version : Version) (rule : Rule) (schema : Option Schema) :
    (Object → Change Object Bool) → Prop where
  | descent (op : Descent) (path : List String) (lawful : op.Lawful version)
    (named : ∀ key ∈ path, version.function? key = none)
    (within : ∀ p ∈ op.footprint path, p ∈ rule.footprint) :
    Rule.Part version rule schema (op.run path schema)
  | nothing (answer : Except Error Bool) : Rule.Part version rule schema fun data => (answer, data)

namespace Rule.Part

variable {first second : Rule} {schema : Option Schema} {f g : Object → Change Object Bool}

theorem confined (part : rule.Part version schema f) : ∃ keys, Confined version keys f := by
  cases part with
  | descent op path lawful named => exact ⟨_, Descent.confined_run lawful path named schema⟩
  | nothing answer =>
    exact ⟨[], fun _ _ _ _ => rfl, fun _ _ _ _ _ => ⟨rfl, fun _ member => by cases member⟩,
      fun _ inert => inert⟩

theorem keeps (part : rule.Part version schema f) (data : Object)
    (inert : Inert version (.object data)) : Inert version (.object (f data).2) := by
  obtain ⟨keys, confined⟩ := part.confined
  exact confined.keeps data inert

variable (apart : ∀ p ∈ first.footprint, ∀ q ∈ second.footprint, Apart p q)
  (part : first.Part version schema f)
include apart part

theorem independent (part' : second.Part version schema g) (data : Object)
    (inert : Inert version (.object data)) : Independent f g data := by
  cases part with
  | nothing => exact ⟨rfl, rfl, rfl⟩
  | descent op path lawful named within =>
    cases part' with
    | nothing => exact ⟨rfl, rfl, rfl⟩
    | descent op' path' lawful' named' within' =>
      exact Descent.independent_run lawful lawful' path path' named named'
        (fun p member q among => apart p (within p member) q (within' q among)) schema data inert

theorem readAt_same (source : List String) (member : source ∈ second.footprint) (data : Object)
    (inert : Inert version (.object data)) : readAt source (f data).2 = readAt source data := by
  cases part with
  | nothing => rfl
  | descent op path lawful named within =>
    exact Descent.readAt_run lawful path named source
      (fun p among => apart p (within p among) source member) schema data inert

end Rule.Part

def followed (first second : Object → Change Object Bool) (data : Object) : Change Object Unit :=
  match (first data).1 with
  | .error e => (.error e, (first data).2)
  | .ok false => (.ok (), (first data).2)
  | .ok true => (.ok (), (second (first data).2).2)

section Followed

variable {α : Type} {walk removal : Object → Change Object Bool} {g : Object → Change Object α}
  (keeps : ∀ data, Inert version (.object data) → Inert version (.object (walk data).2))
include keeps

theorem followed_inert
    (keeps' : ∀ data, Inert version (.object data) → Inert version (.object (removal data).2))
    (data : Object) (inert : Inert version (.object data)) :
    Inert version (.object (followed walk removal data).2) := by
  rw [followed]
  split
  · exact keeps data inert
  · exact keeps data inert
  · exact keeps' _ (keeps data inert)

theorem Independent.followed {keys : List String} (confined : Confined version keys removal)
    (others : ∀ data, Inert version (.object data) → Inert version (.object (g data).2))
    (removals : ∀ data, Inert version (.object data) → Independent removal g data)
    (data : Object) (inert : Inert version (.object data)) (walks : Independent walk g data) :
    Independent (followed walk removal) g data := by
  obtain ⟨first, second, same⟩ := walks
  cases answer : (walk data).1 with
  | error e =>
    constructor <;> simp only [Migration.followed, first, answer, second, same]
  | ok wrote =>
    cases wrote with
    | false => constructor <;> simp only [Migration.followed, first, answer, second, same]
    | true =>
      obtain ⟨-, second', same'⟩ := removals _ (keeps data inert)
      obtain ⟨-, contents⟩ := confined.congr (others _ (keeps data inert))
        (keeps _ (others data inert)) same
      constructor <;> simp only [Migration.followed, first, answer, second, second', same', contents]

end Followed

namespace Rule

variable {schema : Schema}

def read (rule : Rule) (data : Object) : Except Error Lookup :=
  match rule.valuePath with
  | none => .ok .missing
  | some path => readAt path data

def proceed (context : Context) (schema : Schema) (rule : Rule) :
    Except Error Lookup → Object → Change Object Unit
  | .error e, data => (.error e, data)
  | .ok .skip, data => (.ok (), data)
  | .ok .missing, data => rule.write context schema none data
  | .ok (.found value), data => rule.write context schema (some value) data

theorem execute_free (data : Object)
    (free : ∀ path, rule.valuePath = some path → context.FreeAlong false path data) :
    rule.execute context schema data = rule.proceed context schema (rule.read data) data := by
  rw [execute, read]
  cases reads : rule.valuePath with
  | none => rfl
  | some path =>
    simp only [valueAt_free path data (free path reads)]
    rcases readAt path data with e | value | _ | _ <;> rfl

theorem execute_inert (data : Object) (inert : Inert context.template.version (.object data)) :
    rule.execute context schema data = rule.proceed context schema (rule.read data) data :=
  execute_free data fun path _ => .of_inert false path data inert

theorem walking_within (source : Source) :
    ∀ p ∈ (walking context rule source).footprint rule.path, p ∈ rule.footprint := by
  intro p member
  rcases List.mem_cons.mp member with rfl | beside
  · exact rule.path_mem_footprint
  · exact List.mem_cons_of_mem _ (List.mem_append_left _ beside)

theorem removing_within {path : List String} (reads : rule.valuePath = some path) :
    ∀ p ∈ removing.footprint path, p ∈ rule.footprint := by
  intro p member
  rw [List.mem_singleton.mp member]
  exact source_mem_footprint reads

theorem write_followed (schema : Schema) (found : Option Json)
    (removal : Object → Change Object Bool)
    (busy : ¬ ((rule.kind == .add || rule.kind == .replace) && (rule.source found).value.isNone &&
      rule.valueName.isNone) = true)
    (removes : ∀ left, (removal left).2 =
      if (found.isSome && rule.kind == .replace) = true then removeAt (rule.valuePath.getD []) left
      else left)
    (data : Object) (inert : Inert context.template.version (.object data)) :
    rule.write context schema found data =
      followed ((walking context rule (rule.source found)).run rule.path (some schema)) removal
        data := by
  refine (if_neg busy).trans ?_
  rw [walk_eq_run _ _ _ _ inert, followed]
  cases done : (walking context rule (rule.source found)).run rule.path (some schema) data with
  | mk answer left =>
    rcases answer with e | _ | _
    · rfl
    · rfl
    · rw [removes]
      by_cases moves : (found.isSome && rule.kind == .replace) = true
      · rw [if_pos moves]
        exact if_pos moves
      · rw [if_neg moves]
        exact if_neg moves

section Write

variable (plain : rule.Plain context.template.version) (found : Option Json)
  (good : ∀ value, found = some value → value.Inert context.template.version ∧
    ∃ path, rule.valuePath = some path ∧
      ∀ key ∈ path, context.template.version.function? key = none)
include plain good

theorem lawful_source :
    (walking context rule (rule.source found)).Lawful context.template.version := by
  refine lawful_walking (fun value here => ?_) fun name named => ?_
  · cases found with
    | none => exact plain.value value here
    | some held =>
      cases here
      exact (good value rfl).1
  · rcases plain.single with ⟨-, unnamed⟩ | ⟨noValue, noPath⟩ | ⟨unnamed, -⟩
    · cases unnamed.symm.trans named
    · cases found with
      | none => exact noValue
      | some value =>
        obtain ⟨-, path, reads, -⟩ := good value rfl
        cases noPath.symm.trans reads
    · cases unnamed.symm.trans named

theorem write_parts :
    ∃ walk removal, rule.Part context.template.version (some schema) walk ∧
      rule.Part context.template.version (some schema) removal ∧
      ∀ data, Inert context.template.version (.object data) →
        rule.write context schema found data = followed walk removal data := by
  have lawful := lawful_source plain found good
  by_cases idle : ((rule.kind == .add || rule.kind == .replace) &&
      (rule.source found).value.isNone && rule.valueName.isNone) = true
  · exact ⟨_, _, .nothing (.ok false), .nothing (.ok false), fun data _ => if_pos idle⟩
  · have walk : rule.Part context.template.version (some schema)
        ((walking context rule (rule.source found)).run rule.path (some schema)) :=
      .descent _ rule.path lawful plain.path (walking_within _)
    by_cases moves : (found.isSome && rule.kind == .replace) = true
    · obtain ⟨there, -⟩ := Bool.and_eq_true_iff.mp moves
      obtain ⟨value, here⟩ := Option.isSome_iff_exists.mp there
      obtain ⟨-, path, reads, named⟩ := good value here
      refine ⟨_, _, walk, .descent removing path lawful_removing named (removing_within reads),
        write_followed schema found _ idle fun left => ?_⟩
      rw [run_removing, reads, if_pos moves]
      rfl
    · exact ⟨_, _, walk, .nothing (.ok false),
        write_followed schema found _ idle fun left => (if_neg moves).symm⟩

end Write

theorem proceed_parts (plain : rule.Plain context.template.version) (data : Object)
    (inert : Inert context.template.version (.object data)) :
    ∃ walk removal, rule.Part context.template.version (some schema) walk ∧
      rule.Part context.template.version (some schema) removal ∧
      ∀ other, Inert context.template.version (.object other) →
        rule.proceed context schema (rule.read data) other = followed walk removal other := by
  have stays (answer : Except Error Bool) :
      rule.Part context.template.version (some schema) fun data => (answer, data) := .nothing answer
  cases looked : rule.read data with
  | error e => exact ⟨_, _, stays (.error e), stays (.ok false), fun _ _ => rfl⟩
  | ok lookup =>
    cases lookup with
    | skip => exact ⟨_, _, stays (.ok false), stays (.ok false), fun _ _ => rfl⟩
    | missing => exact write_parts plain none (by simp)
    | found value =>
      refine write_parts plain (some value) ?_
      rintro _ ⟨⟩
      rw [read] at looked
      split at looked
      · cases looked
      · rename_i path reads
        obtain ⟨good, named⟩ := readAt_found path data value inert looked
        exact ⟨good, path, reads, named⟩

variable {first second : Rule}
  (apart : ∀ p ∈ first.footprint, ∀ q ∈ second.footprint, Apart p q)
include apart

theorem read_same {f : Object → Change Object Bool}
    (part : first.Part version (some schema) f) (data : Object)
    (inert : Inert version (.object data)) : second.read (f data).2 = second.read data := by
  rw [read, read]
  cases reads : second.valuePath with
  | none => rfl
  | some path => exact part.readAt_same apart path (source_mem_footprint reads) data inert

variable (plain : first.Plain context.template.version)
  (plain' : second.Plain context.template.version)
include plain

theorem read_execute (data : Object) (inert : Inert context.template.version (.object data)) :
    Inert context.template.version (.object (first.execute context schema data).2) ∧
      second.read (first.execute context schema data).2 = second.read data := by
  obtain ⟨walk, removal, walks, removes, done⟩ := proceed_parts plain data inert
  have walked := walks.keeps data inert
  have seen := read_same apart walks data inert
  rw [execute_inert data inert, done data inert]
  refine ⟨followed_inert walks.keeps removes.keeps data inert, ?_⟩
  rw [followed]
  split
  · exact seen
  · exact seen
  · exact (read_same apart removes _ walked).trans seen

theorem independent_execute (plain' : second.Plain context.template.version) (data : Object)
    (inert : Inert context.template.version (.object data)) :
    Independent (first.execute context schema) (second.execute context schema) data := by
  have apart' : ∀ q ∈ second.footprint, ∀ p ∈ first.footprint, Apart q p :=
    fun q among p member => (apart p member q among).symm
  obtain ⟨walk, removal, walks, removes, done⟩ := proceed_parts plain data inert
  obtain ⟨walk', removal', walks', removes', done'⟩ := proceed_parts plain' data inert
  have keeps := followed_inert walks.keeps removes.keeps
  have keeps' := followed_inert walks'.keeps removes'.keeps
  have parts : ∀ part, first.Part context.template.version (some schema) part → ∀ data,
      Inert context.template.version (.object data) →
        Independent part (followed walk' removal') data := by
    intro part is data inert
    obtain ⟨keys, confined⟩ := removes'.confined
    exact (Independent.followed walks'.keeps confined is.keeps
      (fun data inert => (is.independent apart removes' data inert).symm) data inert
      (is.independent apart walks' data inert).symm).symm
  obtain ⟨keys, confined⟩ := removes.confined
  have rules : Independent (followed walk removal) (followed walk' removal') data :=
    .followed walks.keeps confined keeps' (parts removal removes) data inert
      (parts walk walks data inert)
  obtain ⟨left, seen'⟩ := read_execute apart plain data inert
  obtain ⟨left', seen⟩ := read_execute apart' plain' data inert
  have alone := (execute_inert data inert).trans (done data inert)
  have alone' := (execute_inert data inert).trans (done' data inert)
  have after : first.execute context schema (second.execute context schema data).2 =
      followed walk removal (second.execute context schema data).2 := by
    rw [execute_inert _ left', seen, done _ left']
  have after' : second.execute context schema (first.execute context schema data).2 =
      followed walk' removal' (first.execute context schema data).2 := by
    rw [execute_inert _ left, seen', done' _ left]
  refine ⟨?_, ?_, ?_⟩
  · rw [after, alone, alone']
    exact rules.first
  · rw [after', alone, alone']
    exact rules.second
  · rw [after, after', alone, alone']
    exact rules.same

end Rule

/-! ## Two rules in either order -/

section Pair

variable (schema : Schema) (first second : Rule) (data : Object)

theorem executeAll_pair (succeeds : (first.execute context schema data).1 = .ok ()) :
    executeAll context schema [first, second] data =
      second.execute context schema (first.execute context schema data).2 := by
  cases done : first.execute context schema data with
  | mk answer left =>
    rw [done] at succeeds
    cases succeeds
    rw [executeAll, done]
    simp only [executeAll]
    obtain ⟨answer, left⟩ := second.execute context schema left
    cases answer <;> rfl

theorem executeAll_pair_ok_iff : (executeAll context schema [first, second] data).1 = .ok () ↔
    (first.execute context schema data).1 = .ok () ∧
      (second.execute context schema (first.execute context schema data).2).1 = .ok () := by
  cases done : first.execute context schema data with
  | mk answer left =>
    cases answer with
    | error e => simp [executeAll, done]
    | ok _ => rw [executeAll_pair schema first second data (by rw [done]), done]; simp

end Pair

/-- Where nothing is resolved, rules with footprints that are apart may be executed in either order:
both orders succeed or fail together, and when they succeed they leave the same properties, up to the
order of keys. -/
theorem rules_commute (context : Context) (schema : Schema) (first second : Rule)
    (plain : first.Plain context.template.version) (plain' : second.Plain context.template.version)
    (apart : ∀ p ∈ first.footprint, ∀ q ∈ second.footprint, Apart p q) (data : Object)
    (inert : Inert context.template.version (.object data)) :
    let ahead := executeAll context schema [first, second] data
    let back := executeAll context schema [second, first] data
    (ahead.1 = .ok () ↔ back.1 = .ok ()) ∧
      (ahead.1 = .ok () → (Json.object ahead.2).content = (Json.object back.2).content) := by
  intro ahead back
  obtain ⟨alone, alone', same⟩ := Rule.independent_execute apart plain plain' data inert
  have aheadIff : ahead.1 = .ok () ↔ _ := executeAll_pair_ok_iff schema first second data
  have backIff : back.1 = .ok () ↔ _ := executeAll_pair_ok_iff schema second first data
  rw [alone'] at aheadIff
  rw [alone] at backIff
  refine ⟨aheadIff.trans (and_comm.trans backIff.symm), fun succeeds => ?_⟩
  obtain ⟨done, done'⟩ := aheadIff.mp succeeds
  have aheadEq : ahead = _ := executeAll_pair schema first second data done
  have backEq : back = _ := executeAll_pair schema second first data done'
  rw [aheadEq, backEq]
  exact (Json.content_object_eq_iff _ _).mpr same

def portOfServers : Rule :=
  ⟨.replace, ["servers", "net", "port"], some (.ofInt 80), none, none, none⟩

def zoneOfServers : Rule :=
  ⟨.replace, ["servers", "net", "zone"], none, none, some ["zone"], none⟩

def serversSchema : Schema :=
  [("servers", .list (some (.map (some [("net", .map none)]))))]

/-- Either rule may be the one that creates the net of the first server. -/
def twoServers : Object :=
  [("servers", .list [.object [], .object [("net", .object [])]]), ("zone", .string "east")]

theorem rules_commute_on_servers :
    executeAll limitsContext serversSchema [portOfServers, zoneOfServers] twoServers = (.ok (),
      [("servers", .list [
        .object [("net", .object [("port", .ofInt 80), ("zone", .string "east")])],
        .object [("net", .object [("port", .ofInt 80), ("zone", .string "east")])]])]) ∧
    (executeAll limitsContext serversSchema [zoneOfServers, portOfServers] twoServers).1 = .ok () ∧
    (Json.object (executeAll limitsContext serversSchema [portOfServers, zoneOfServers]
        twoServers).2).content =
      (Json.object (executeAll limitsContext serversSchema [zoneOfServers, portOfServers]
        twoServers).2).content := by
  have plain : portOfServers.Plain .v20161014 := by
    refine ⟨by decide, ?_, .inr (.inr ⟨rfl, rfl⟩)⟩
    rintro _ ⟨⟩
    exact ⟨by simp [Json.ofInt, Json.WellFormed, Number.InRange], trivial⟩
  have plain' : zoneOfServers.Plain .v20161014 :=
    ⟨by decide, by rintro _ ⟨⟩, .inl ⟨rfl, rfl⟩⟩
  have inert : Inert .v20161014 (.object twoServers) := by
    constructor
    · simp [Json.WellFormed, Json.WellFormedItems, Json.WellFormedEntries, twoServers,
        Entries.Distinct, Entries.keys]
    · simp [Json.Keyed, Json.KeyedItems, Json.KeyedEntries, twoServers]
      decide
  have done : executeAll limitsContext serversSchema [portOfServers, zoneOfServers] twoServers =
      (.ok (), [("servers", .list [
        .object [("net", .object [("port", .ofInt 80), ("zone", .string "east")])],
        .object [("net", .object [("port", .ofInt 80), ("zone", .string "east")])]])]) := rfl
  obtain ⟨either, same⟩ := rules_commute limitsContext serversSchema portOfServers zoneOfServers
    plain plain' (by decide) twoServers inert
  have succeeds := congrArg Prod.fst done
  exact ⟨done, either.mp succeeds, same succeeds⟩

end Orchestration.Migration
