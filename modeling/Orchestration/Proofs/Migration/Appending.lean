import Orchestration.Proofs.Migration.Executing
import Orchestration.Proofs.Migration.Spreading

/-!
# Adding to lists

A rule that adds appends its items to the target list of every map that its path comes to, and
changes nothing else.  `Rule.Adds` says what the items are; where the target is no list and the
schema declares none, something to add is refused.
-/

set_option autoImplicit false

namespace Orchestration.Migration

open Json (Inert)

variable {context : Context} {rule : Rule}

/-! ## What is added -/

/-- The items that a rule adds in a map: those of the populated value at its value path, else of its
literal, or of its sibling in the map.  A value that is not a list is one item. -/
inductive Rule.Adds (rule : Rule) (root held : Object) : List Json → Prop where
  | found (path : List String) (value : Json) (reads : rule.valuePath = some path)
    (there : (Json.object root).along? path = some value) (populated : isPopulated value = true) :
    Rule.Adds rule root held (itemsOf value)
  | literal (value : Json) (given : rule.value = some value)
    (nothing : ∀ path other, rule.valuePath = some path →
      (Json.object root).along? path = some other → isPopulated other = false) :
    Rule.Adds rule root held (itemsOf value)
  | sibling (name : String) (value : Json) (named : rule.valueName = some name)
    (there : Entries.get? held name = some value) (present : value ≠ .null) :
    Rule.Adds rule root held (itemsOf value)

def Rule.Sourceless (rule : Rule) (root : Object) : Prop :=
  ∀ held items, ¬ rule.Adds root held items

/-- The list at a target: an empty one where nothing or null stands and the schema declares a
list. -/
inductive Present (schema : Option Schema) (held : Object) (key : String) : List Json → Prop where
  | list (items : List Json) (there : Entries.get? held key = some (.list items)) :
    Present schema held key items
  | vacant (vacant : Vacant held key) (declared : declaresList schema key = true) :
    Present schema held key []

inductive Rule.Extends (rule : Rule) (root : Object) (key : String) (schema : Option Schema)
    (held : Object) : Object → Prop where
  | unchanged (nothing : ∀ items, ¬ rule.Adds root held items) :
    Rule.Extends rule root key schema held held
  | appended (before items : List Json) (present : Present schema held key before)
    (adds : rule.Adds root held items) :
    Rule.Extends rule root key schema held (Entries.put held key (.list (before ++ items)))

/-- Something else than a list stands at the target, or nothing, and the schema declares no list. -/
def Refuses (schema : Option Schema) (held : Object) (key : String) : Prop :=
  ∀ before, ¬ Present schema held key before

namespace Rule

variable {schema : Schema} {root held data : Object} {found : Option Json}

theorem valuePath_ne_nil (valid : rule.Valid) (path : List String)
    (reads : rule.valuePath = some path) : path ≠ [] := by
  rintro rfl
  simp only [Valid, fault?, reads, if_true] at valid
  split at valid <;> cases valid

theorem looked_iff (valid : rule.Valid) (looked : rule.Looked root found) (value : Json) :
    found = some value ↔ ∃ path, rule.valuePath = some path ∧
      (Json.object root).along? path = some value ∧ isPopulated value = true := by
  rw [looked value]
  refine exists_congr fun path => and_congr_right fun reads => ?_
  exact readAt_found_iff path (valuePath_ne_nil valid path reads) root value

/-! ## Adding to one map -/

theorem single_of_valid (kind : rule.kind = .add) (valid : rule.Valid) (name : String)
    (named : rule.valueName = some name) : rule.value = none ∧ rule.valuePath = none := by
  rw [Valid, fault?] at valid
  split at valid
  · cases valid
  split at valid
  · cases valid
  split at valid
  · cases valid
  simp only [kind, named, Option.isSome_some] at valid
  split at valid
  · cases valid
  · rename_i other
    simpa [Option.isSome_eq_false_iff] using other

theorem adds_iff_of_named (kind : rule.kind = .add) (valid : rule.Valid) (name : String)
    (named : rule.valueName = some name) (items : List Json) : rule.Adds root held items ↔
      ∃ value, Entries.get? held name = some value ∧ value ≠ .null ∧ items = itemsOf value := by
  obtain ⟨noValue, noPath⟩ := single_of_valid kind valid name named
  constructor
  · intro adds
    cases adds with
    | found path value reads => cases noPath.symm.trans reads
    | literal value given => cases noValue.symm.trans given
    | sibling other value also there present =>
      cases named.symm.trans also
      exact ⟨value, there, present, rfl⟩
  · rintro ⟨value, there, present, rfl⟩
    exact .sibling name value named there present

theorem adds_iff_of_unnamed (valid : rule.Valid) (unnamed : rule.valueName = none)
    (looked : rule.Looked root found) (items : List Json) : rule.Adds root held items ↔
      ∃ value, (found <|> rule.value) = some value ∧ items = itemsOf value := by
  constructor
  · intro adds
    cases adds with
    | found path value reads there populated =>
      have here := (looked_iff valid looked value).mpr ⟨path, reads, there, populated⟩
      exact ⟨value, by rw [here]; rfl, rfl⟩
    | literal value given nothing =>
      have missing : found = none := by
        refine Option.eq_none_iff_forall_ne_some.mpr fun other here => ?_
        obtain ⟨path, reads, there, populated⟩ := (looked_iff valid looked other).mp here
        rw [nothing path other reads there] at populated
        cases populated
      exact ⟨value, by rw [missing, given]; rfl, rfl⟩
    | sibling name value named => cases unnamed.symm.trans named
  · rintro ⟨value, here, rfl⟩
    cases found with
    | some other =>
      cases here
      obtain ⟨path, reads, there, populated⟩ := (looked_iff valid looked value).mp rfl
      exact .found path value reads there populated
    | none =>
      refine .literal value here fun path other reads there => ?_
      rw [Bool.eq_false_iff]
      intro populated
      cases (looked_iff valid looked other).mpr ⟨path, reads, there, populated⟩

theorem adds_iff (kind : rule.kind = .add) (valid : rule.Valid) (looked : rule.Looked root found)
    (items : List Json) : rule.Adds root held items ↔
      ∃ value, addition rule (rule.source found) held = some value ∧ items = itemsOf value := by
  cases named : rule.valueName with
  | none =>
    rw [adds_iff_of_unnamed valid named looked]
    simp only [addition, named, Rule.source]
  | some name =>
    rw [adds_iff_of_named kind valid name named]
    simp only [addition, named]
    cases Entries.get? held name with
    | none => simp
    | some value => cases value <;> simp

theorem extended_iff (schema : Option Schema) (key : String) (items list : List Json) :
    extended (declaresList schema key) items (Entries.get? held key) = some list ↔
      ∃ before, Present schema held key before ∧ list = before ++ items := by
  constructor
  · intro made
    cases here : Entries.get? held key with
    | none =>
      rw [here, extended] at made
      split at made
      · rename_i declared
        cases made
        exact ⟨[], .vacant (fun value there => by cases here.symm.trans there) declared, rfl⟩
      · cases made
    | some x =>
      cases x with
      | list before =>
        rw [here] at made
        cases made
        exact ⟨before, .list before here, rfl⟩
      | null =>
        rw [here, extended] at made
        split at made
        · rename_i declared
          cases made
          exact ⟨[], .vacant (fun value there => by cases here.symm.trans there; rfl) declared, rfl⟩
        · cases made
      | _ =>
        rw [here] at made
        cases made
  · rintro ⟨before, present, rfl⟩
    cases present with
    | list _ there => rw [there, extended]
    | vacant vacant declared =>
      cases here : Entries.get? held key with
      | none => rw [extended, declared, if_pos rfl, List.nil_append]
      | some x =>
        cases vacant x here
        rw [extended, declared, if_pos rfl, List.nil_append]

section Act

variable (kind : rule.kind = .add) (valid : rule.Valid) (looked : rule.Looked root found)
  (inner : Option Schema) (key : String)
include kind valid looked

theorem extends_of_addTo (wrote : Bool) (left : Object)
    (done : addTo rule inner (rule.source found) held key = (.ok wrote, left)) :
    rule.Extends root key inner held left := by
  rw [addTo_eq] at done
  cases added : addition rule (rule.source found) held with
  | none =>
    rw [added] at done
    cases done
    refine .unchanged fun items adds => ?_
    obtain ⟨value, here, -⟩ := (adds_iff kind valid looked items).mp adds
    cases added.symm.trans here
  | some value =>
    rw [added] at done
    simp only at done
    cases list : extended (declaresList inner key) (itemsOf value) (Entries.get? held key) with
    | none =>
      rw [list] at done
      cases done
    | some items =>
      rw [list] at done
      cases done
      obtain ⟨before, present, rfl⟩ := (extended_iff inner key _ items).mp list
      exact .appended before _ present ((adds_iff kind valid looked _).mpr ⟨value, added, rfl⟩)

theorem addTo_error_iff (e : Error) :
    (addTo rule inner (rule.source found) held key).1 = .error e ↔
      e = .notAList key ∧ (∃ items, rule.Adds root held items) ∧ Refuses inner held key := by
  have refuses_iff (value : Json) : Refuses inner held key ↔
      extended (declaresList inner key) (itemsOf value) (Entries.get? held key) = none := by
    rw [Option.eq_none_iff_forall_ne_some]
    refine ⟨fun refuses list made => ?_, fun refused before present => ?_⟩
    · obtain ⟨before, present, -⟩ := (extended_iff inner key _ list).mp made
      exact refuses before present
    · exact refused _ ((extended_iff inner key _ _).mpr ⟨before, present, rfl⟩)
  have adds_iff (items : List Json) : rule.Adds root held items ↔ _ :=
    adds_iff kind valid looked items
  simp only [adds_iff]
  rw [addTo_eq]
  cases added : addition rule (rule.source found) held with
  | none => simp
  | some value =>
    rw [refuses_iff value]
    simp only
    cases extended (declaresList inner key) (itemsOf value) (Entries.get? held key) <;>
      simp [eq_comm]

end Act

theorem opens_walking (kind : rule.kind = .add) (source : Source) :
    (walking context rule source).opens = true := by
  simp only [walking, skipsMissing, kind, Bool.not_false]

theorem Extends.along {key : String} {inner : Option Schema} {left : Object}
    (extended : rule.Extends root key inner held left) (name : String) (rest : List String)
    (value : Json) (there : (Json.object held).along? (name :: rest) = some value) :
    ∃ after, (Json.object left).along? (name :: rest) = some after ∧
      (¬ (name :: rest) <+: [key] → after = value) := by
  cases extended with
  | unchanged => exact ⟨value, there, fun _ => rfl⟩
  | appended before items present adds =>
    obtain ⟨x, here, inside⟩ := Option.bind_eq_some_iff.mp there
    rw [Json.along?, Entries.get?_put]
    by_cases same : key = name
    · subst same
      rw [if_pos rfl]
      have ends : rest = [] := by
        cases rest with
        | nil => rfl
        | cons next others =>
          cases present with
          | list items list =>
            cases here.symm.trans list
            cases inside
          | vacant vacant =>
            cases vacant x here
            cases inside
      subst ends
      exact ⟨_, rfl, fun apart => absurd (List.prefix_refl [key]) apart⟩
    · rw [if_neg same, here]
      exact ⟨value, inside, fun _ => rfl⟩

theorem idle_iff (kind : rule.kind = .add) (valid : rule.Valid) (looked : rule.Looked root found) :
    rule.Idle found ↔ rule.Sourceless root := by
  have idle : rule.Idle found ↔ (found <|> rule.value) = none ∧ rule.valueName = none := by
    simp [Idle, kind, Rule.source]
  rw [idle]
  constructor
  · rintro ⟨unsourced, unnamed⟩ held items adds
    obtain ⟨value, here, -⟩ := (adds_iff_of_unnamed valid unnamed looked items).mp adds
    cases unsourced.symm.trans here
  · intro sourceless
    cases named : rule.valueName with
    | some name =>
      refine absurd (Adds.sibling name (.bool true) named ?_ (by simp))
        (sourceless [(name, .bool true)] _)
      rw [Entries.get?_cons, if_pos rfl]
    | none =>
      refine ⟨Option.eq_none_iff_forall_ne_some.mpr fun value here => ?_, rfl⟩
      exact sourceless [] _ ((adds_iff_of_unnamed valid named looked _).mpr ⟨value, here, rfl⟩)

end Rule

/-! ## Rules -/

structure Rule.Appended (rule : Rule) (schema : Schema) (key : String) (data after : Object) : Prop
    where
  idle : rule.Sourceless data → after = data
  spread : ¬ rule.Sourceless data →
    Spread (rule.Extends data key) rule.path (some schema) data after
  /-- Every map that the path comes to is extended, where it was. -/
  reached : ¬ rule.Sourceless data → ∀ location inner held,
    Reached rule.path (some schema) data location inner held →
      ∃ left, (Json.object after).at? location = some (.object left) ∧
        rule.Extends data key inner held left
  /-- The source stays the same, unless the way to the targets leads on from it. -/
  source : ∀ path value, rule.valuePath = some path → (Json.object data).along? path = some value →
    ∃ left, (Json.object after).along? path = some left ∧ (¬ path <+: rule.path → left = value)

namespace Rule

variable {schema : Schema} {data after : Object} {found : Option Json} {key : String}
  (kind : rule.kind = .add) (valid : rule.Valid) (looked : rule.Looked data found)
  (last : rule.path.getLast? = some key) (free : context.FreeAlong true rule.path data)
include kind valid looked last free

theorem appended_of_write (done : rule.write context schema found data = (.ok (), after)) :
    rule.Appended schema key data after := by
  have idle_iff := idle_iff kind valid looked
  -- What stands at the value path is kept by a change of every map that the path comes to.
  have kept (spread : Spread (rule.Extends data key) rule.path (some schema) data after)
      (path : List String) (value : Json) (reads : rule.valuePath = some path)
      (there : (Json.object data).along? path = some value) :
      ∃ left, (Json.object after).along? path = some left ∧
        (¬ path <+: rule.path → left = value) := by
    cases path with
    | nil => exact absurd rfl (valuePath_ne_nil valid [] reads)
    | cons name rest =>
      refine spread.along (fun other ends schema held made extended => ?_) name rest value there
      cases last.symm.trans ends
      exact extended.along
  by_cases idle : rule.Idle found
  · rw [write_idle idle] at done
    cases done
    exact {
      idle := fun _ => rfl
      spread := fun other => absurd (idle_iff.mp idle) other
      reached := fun other => absurd (idle_iff.mp idle) other
      source := fun path value _ there => ⟨value, there, fun _ => rfl⟩ }
  · obtain ⟨wrote, left, walked, same⟩ := write_ok idle free done
    rw [if_neg (by simp [kind])] at same
    subst same
    have spread : Spread (rule.Extends data key) rule.path (some schema) data after := by
      refine run_spread (opens_walking kind _) rfl rule.path (fun other ends => ?_) (some schema)
        data wrote after walked
      cases last.symm.trans ends
      intro inner held wrote left acted
      rw [act_walking_add _ _ _ _ kind] at acted
      exact extends_of_addTo kind valid looked inner key wrote left acted
    exact {
      idle := fun sourceless => absurd (idle_iff.mpr sourceless) idle
      spread := fun _ => spread
      reached := fun _ location inner held reached => spread.reached reached
      source := kept spread }

theorem write_error_iff (e : Error) : (rule.write context schema found data).1 = .error e ↔
    e = .notAList key ∧ ∃ location inner held items,
      Reached rule.path (some schema) data location inner held ∧ rule.Adds data held items ∧
        Refuses inner held key := by
  have acts (inner : Option Schema) (held : Object) (e : Error) :
      (addTo rule inner (rule.source found) held key).1 = .error e ↔ _ :=
    addTo_error_iff kind valid looked inner key e
  by_cases idle : rule.Idle found
  · have nothing := (idle_iff kind valid looked).mp idle
    rw [write_idle idle]
    refine ⟨fun failed => (by cases failed), ?_⟩
    rintro ⟨-, -, -, held, items, -, adds, -⟩
    exact absurd adds (nothing held items)
  · have walked : (rule.write context schema found data).1 = .error e ↔
        ((walking context rule (rule.source found)).run rule.path (some schema) data).1 =
          .error e := by
      rw [write_busy idle data free]
      generalize (walking context rule (rule.source found)).run rule.path (some schema) data =
        walked
      match walked with
      | (.error e', left) => simp
      | (.ok wrote, left) => simp
    rw [walked]
    constructor
    · intro failed
      obtain ⟨other, location, inner, held, ends, reached, failed⟩ := run_error _ _ _ e failed
      cases last.symm.trans ends
      rw [act_walking_add _ _ _ _ kind] at failed
      obtain ⟨rfl, ⟨items, adds⟩, refuses⟩ := (acts inner held e).mp failed
      exact ⟨rfl, location, inner, held, items, reached, adds, refuses⟩
    · rintro ⟨rfl, location, inner, held, items, reached, adds, refuses⟩
      refine run_fails (opens_walking kind _) rfl (fun other ends inner held e failed => ?_) reached
        fun other ends => ?_
      all_goals cases last.symm.trans ends
      · rw [act_walking_add _ _ _ _ kind] at failed
        exact ((acts inner held e).mp failed).1
      · rw [act_walking_add _ _ _ _ kind]
        exact (acts inner held _).mpr ⟨rfl, ⟨items, adds⟩, refuses⟩

end Rule

/-- Where no call is on the way, a rule that adds only appends.  It fails if its value path runs
into a list, and else if it has something to add to a target that is no list, and only then. -/
theorem add_outcome (context : Context) (schema : Schema) (rule : Rule) (kind : rule.kind = .add)
    (valid : rule.Valid) (key : String) (last : rule.path.getLast? = some key) (data : Object)
    (free : context.FreeAlong true rule.path data)
    (sourceFree : ∀ path, rule.valuePath = some path → context.FreeAlong false path data) :
    (∀ after, rule.execute context schema data = (.ok (), after) →
      rule.Appended schema key data after) ∧
    (∀ path, rule.valuePath = some path → RunsIntoList path data →
      rule.execute context schema data = (.error .sourceInsideList, data)) ∧
    ((∀ path, rule.valuePath = some path → ¬ RunsIntoList path data) →
      ∀ e, (rule.execute context schema data).1 = .error e ↔
        e = .notAList key ∧ ∃ location inner held items,
          Reached rule.path (some schema) data location inner held ∧ rule.Adds data held items ∧
            Refuses inner held key) := by
  rcases Rule.execute_looked schema data sourceFree with
    ⟨⟨path, reads, runs⟩, refused⟩ | ⟨outside, found, looked, writes⟩
  · refine ⟨fun after done => ?_, fun _ _ _ => refused, fun none => absurd runs (none path reads)⟩
    rw [refused] at done
    cases done
  · rw [writes]
    exact ⟨fun after done => Rule.appended_of_write kind valid looked last free done,
      fun path reads runs => absurd runs (outside path reads),
      fun _ => Rule.write_error_iff kind valid looked last free⟩

def openPort : Rule :=
  ⟨.add, ["servers", "net", "ports"], none, some "port", none, none⟩

def portsSchema : Schema :=
  [("servers", .list (some (.map (some [("net", .map (some [("ports", .list none)]))]))))]

/-- The second server has no net, and the net of the last one has no port to open. -/
def closedServers : Object :=
  [("servers", .list [
    .object [("net", .object [("port", .ofInt 443), ("ports", .list [.ofInt 80])])],
    .object [],
    .object [("net", .object [("ports", .null), ("port", .ofInt 22)])],
    .object [("net", .object [("port", .null), ("ports", .string "any")])]])]

def openServers : Object :=
  [("servers", .list [
    .object [("net", .object [("port", .ofInt 443), ("ports", .list [.ofInt 80, .ofInt 443])])],
    .object [("net", .object [])],
    .object [("net", .object [("ports", .list [.ofInt 22]), ("port", .ofInt 22)])],
    .object [("net", .object [("port", .null), ("ports", .string "any")])]])]

def anyPort : Object :=
  [("servers", .list [.object [("net", .object [("port", .ofInt 22), ("ports", .string "any")])]])]

theorem add_outcome_on_servers :
    openPort.execute limitsContext portsSchema closedServers = (.ok (), openServers) ∧
      openPort.Appended portsSchema "ports" closedServers openServers ∧
      (openPort.execute limitsContext portsSchema anyPort).1 = .error (.notAList "ports") := by
  have free (data : Object) (inert : Inert .v20161014 (.object data)) :
      limitsContext.FreeAlong true openPort.path data := .of_inert true _ data inert
  have closed : Inert .v20161014 (.object closedServers) := by
    constructor
    · simp [Json.WellFormed, Json.WellFormedItems, Json.WellFormedEntries, closedServers,
        Json.ofInt, Entries.Distinct, Entries.keys, Number.InRange]
    · simp [Json.Keyed, Json.KeyedItems, Json.KeyedEntries, closedServers, Json.ofInt]
      decide
  have any : Inert .v20161014 (.object anyPort) := by
    constructor
    · simp [Json.WellFormed, Json.WellFormedItems, Json.WellFormedEntries, anyPort, Json.ofInt,
        Entries.Distinct, Entries.keys, Number.InRange]
    · simp [Json.Keyed, Json.KeyedItems, Json.KeyedEntries, anyPort, Json.ofInt]
      decide
  have done : openPort.execute limitsContext portsSchema closedServers = (.ok (), openServers) :=
    rfl
  refine ⟨done, ?_, ?_⟩
  · exact (add_outcome limitsContext portsSchema openPort rfl rfl "ports" rfl closedServers
      (free _ closed) (by rintro _ ⟨⟩)).1 openServers done
  · refine ((add_outcome limitsContext portsSchema openPort rfl rfl "ports" rfl anyPort
      (free _ any) (by rintro _ ⟨⟩)).2.2 (by rintro _ ⟨⟩) _).mpr
      ⟨rfl, [.string "servers", .ofInt 0, .string "net"], some [("ports", .list none)],
        [("port", .ofInt 22), ("ports", .string "any")], [.ofInt 22], ?_, ?_, ?_⟩
    · exact .item _ _ _ _ _ _ _ _ _ _ 0 rfl rfl (.map _ _ _ _ _ _ _ _ _ rfl (.target _ _ _))
    · exact .sibling "port" (.ofInt 22) rfl rfl (by simp [Json.ofInt])
    · intro before present
      cases present with
      | list items there => cases there
      | vacant vacant => cases vacant (.string "any") rfl

def openUsual : Rule :=
  ⟨.add, ["ports"], some (.list [.ofInt 80]), none, some ["nets", "port"], none⟩

def withoutNets : Object :=
  [("ports", .string "any"), ("nets", .list [])]

/-- A rule may have something to add to a target that is no list, and be refused for its value path;
and a reference among the items of a target list is replaced by its value. -/
theorem add_refused_and_resolved :
    (openUsual.Valid ∧ Inert .v20161014 (.object withoutNets) ∧
      Reached openUsual.path (some []) withoutNets [] (some []) withoutNets ∧
      openUsual.Adds withoutNets withoutNets [.ofInt 80] ∧ Refuses (some []) withoutNets "ports" ∧
      (openUsual.execute limitsContext [] withoutNets).1 ≠ .error (.notAList "ports")) ∧
    limitsContext.function? (.list [.object [("get_param", .string "limits")]]) = none ∧
    openUsual.execute limitsContext []
        [("ports", .list [.object [("get_param", .string "limits")]])] =
      (.ok (), [("ports", .list [.object [("size", .ofInt 5)], .ofInt 80])]) := by
  refine ⟨⟨rfl, ?_, .target _ _ _, ?_, ?_, ?_⟩, rfl, rfl⟩
  · constructor
    · simp [Json.WellFormed, Json.WellFormedItems, Json.WellFormedEntries, withoutNets,
        Entries.Distinct, Entries.keys]
    · simp [Json.Keyed, Json.KeyedItems, Json.KeyedEntries, withoutNets]
      decide
  · exact .literal (.list [.ofInt 80]) rfl fun path other reads there => by
      cases reads
      cases there
  · intro before present
    cases present with
    | list items there => cases there
    | vacant vacant => cases vacant (.string "any") rfl
  · intro same
    cases same

end Orchestration.Migration
