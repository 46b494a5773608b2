import Orchestration.Proofs.Migration.Provenance
import Orchestration.Proofs.Migration.Working

/-!
# Calls in the way of a rule

A rule works on the properties as they are written: a map that calls a function is a map to it.  So
the rule can put a key beside the name of a function, and what it leaves of a map can be a call.
Here is what it does to calls, and what a call that stands in the properties afterwards was before.
-/

set_option autoImplicit false

namespace Orchestration.Migration

/-- Neither on the way to the location nor there stands a reference to a parameter.  The properties
as a whole are none, however they look. -/
def Context.Clear (context : Context) (data : Object) (location : List Json.Segment) : Prop :=
  ∀ up down x, location = up ++ down → up ≠ [] → (Json.object data).part? up = some x →
    context.function? x ≠ some .getParam

section Untouched

variable (context : Context) (schema : Schema) (rule : Rule) (data : Object)

def KeepsCalls : Prop :=
  ∀ location name args function,
    (Json.object data).part? location = some (.object [(name, args)]) →
    context.template.version.function? name = some function → function ≠ .getParam →
    Json.Segment.keys location <+: rule.path → Json.Segment.keys location ≠ rule.path →
    (Json.object (rule.execute context schema data).2).part? location =
      some (.object [(name, args)])

def MakesNoCalls : Prop :=
  ∀ location before left, (Json.object data).part? location = some (.object before) →
    context.function? (.object before) = none →
    (Json.object (rule.execute context schema data).2).part? location = some (.object left) →
    context.function? (.object left) = none

end Untouched

variable {context : Context} {rule : Rule} {schema : Schema}

/-! ## Parts of values -/

theorem part?_wellFormed (value found : Json) (location : List Json.Segment)
    (good : value.WellFormed) (there : value.part? location = some found) : found.WellFormed := by
  induction location generalizing value with
  | nil =>
    cases there
    exact good
  | cons segment rest ih =>
    rcases Json.part?_cons value _ segment rest there with
      ⟨entries, name, next, rfl, rfl, here, below⟩ | ⟨items, i, next, rfl, rfl, here, below⟩
    · exact ih next (good.entry name next here) below
    · exact ih next (good.item next (List.mem_of_getElem? here)) below

/-! ## Maps that stay -/

theorem Rule.Reshapes.keeps_entry {front : List String} {data after : Object}
    (shape : rule.Reshapes schema front data after) (name : String) (x : Json)
    (rest : List Json.Segment) (here : Entries.get? data name = some x)
    (outside : ¬rule.path <+: (front ++ [name]) ++ Json.Segment.keys rest)
    (spared : ∀ path, path <+: (front ++ [name]) ++ Json.Segment.keys rest →
      ¬rule.TakesAway path) (kept : Object → Prop)
    (below : ∀ y, Entries.get? after name = some y → front ++ [name] ≠ rule.path →
      ∃ left, y.part? rest = some (.object left) ∧ kept left) :
    ∃ left, (Json.object after).part? (.key name :: rest) = some (.object left) ∧ kept left := by
  have stays : Entries.get? after name ≠ none := fun gone =>
    spared _ (List.prefix_append ..) (shape.taken name (by simp [here]) gone)
  obtain ⟨y, second⟩ := Option.ne_none_iff_exists'.mp stays
  obtain ⟨left, there, holds⟩ := below y second fun target =>
    absurd (target ▸ List.prefix_append ..) outside
  exact ⟨left, by simpa [Json.part?, second] using there, holds⟩

theorem Worked.keeps {front : List String} {value after : Json}
    (worked : Worked context rule schema front value after) (good : value.WellFormed)
    (location : List Json.Segment) (before : Object)
    (there : value.part? location = some (.object before))
    (clear : ∀ up down x, location = up ++ down → value.part? up = some x →
      context.function? x ≠ some .getParam)
    (outside : ¬rule.path <+: front ++ Json.Segment.keys location)
    (spared : ∀ path, path <+: front ++ Json.Segment.keys location → ¬rule.TakesAway path) :
    ∃ left, after.part? location = some (.object left) ∧
      rule.Reshapes schema (front ++ Json.Segment.keys location) before left ∧
      (context.function? (.object before) = some .removed → left = before) := by
  induction worked generalizing location with
  | same front value =>
    have before_good := part?_wellFormed value _ location good there
    exact ⟨before, there, .refl _ before_good.distinct, fun _ => rfl⟩
  | reference known => exact absurd known (clear [] location _ rfl rfl)
  | vacant =>
    cases location with
    | nil => cases there
    | cons segment rest =>
      rcases Json.part?_cons _ _ segment rest there with ⟨_, _, _, same, _⟩ | ⟨_, _, _, same, _⟩ <;>
        cases same
  | @list front items after length each ih =>
    cases location with
    | nil => cases there
    | cons segment rest =>
      rcases Json.part?_cons _ _ segment rest there with
        ⟨_, _, _, same, _⟩ | ⟨_, i, x, same, rfl, here, below⟩
      · cases same
      · cases same
        have bound : i < after.length := length ▸ (List.getElem?_eq_some_iff.mp here).1
        have second := List.getElem?_eq_getElem bound
        obtain ⟨left, kept, shape⟩ := ih i x _ here second (good.item x (List.mem_of_getElem? here))
          rest below (fun up down y split held => clear (.item i :: up) down y (by simp [split])
            (by simp [Json.part?, here, held])) outside spared
        exact ⟨left, by simpa [Json.part?, second] using kept, shape⟩
  | @map front entries after entered reshaped each ih =>
    have shape := reshaped good.distinct
    cases location with
    | nil =>
      cases there
      refine ⟨after, rfl, by rwa [Json.Segment.keys, List.append_nil], fun removed => ?_⟩
      exact absurd removed entered
    | cons segment rest =>
      rcases Json.part?_cons _ _ segment rest there with
        ⟨_, name, x, same, rfl, here, below⟩ | ⟨_, _, _, same, _⟩
      · cases same
        have split : front ++ Json.Segment.keys (.key name :: rest) =
            (front ++ [name]) ++ Json.Segment.keys rest := by simp [Json.Segment.keys]
        rw [split] at outside spared ⊢
        refine shape.keeps_entry name x rest here outside spared _ fun y second free => ?_
        exact ih good.distinct name x y here second free (good.entry name x here) rest below
          (fun up down z split held => clear (.key name :: up) down z (by simp [split])
            (by simp [Json.part?, here, held])) outside spared
      · cases same

theorem WorkedMap.keeps {data after : Object}
    (worked : WorkedMap context rule schema [] data after)
    (good : (Json.object data).WellFormed) (location : List Json.Segment) (before : Object)
    (there : (Json.object data).part? location = some (.object before))
    (clear : context.Clear data location) (outside : ¬rule.path <+: Json.Segment.keys location)
    (spared : ∀ path, path <+: Json.Segment.keys location → ¬rule.TakesAway path) :
    ∃ left, (Json.object after).part? location = some (.object left) ∧
      rule.Reshapes schema (Json.Segment.keys location) before left ∧
      (location ≠ [] → context.function? (.object before) = some .removed → left = before) := by
  have shape := worked.reshaped good.distinct
  cases location with
  | nil =>
    cases there
    exact ⟨after, rfl, shape, fun nonempty => absurd rfl nonempty⟩
  | cons segment rest =>
    rcases Json.part?_cons _ _ segment rest there with
      ⟨_, name, x, same, rfl, here, below⟩ | ⟨_, _, _, same, _⟩
    · cases same
      refine shape.keeps_entry name x rest here outside spared _ fun y second free => ?_
      have inside := worked.each good.distinct name x y here second free
      obtain ⟨left, kept, shape, removed⟩ := inside.keeps (good.entry name x here) rest before below
        (fun up down z split held => clear (.key name :: up) down z (by simp [split]) (by simp)
          (by simp [Json.part?, here, held])) outside spared
      exact ⟨left, kept, shape, fun _ => removed⟩
    · cases same

/-! ## Calls -/

/-- What is left of a call below some keys.  A call of a removed function stays as it is.  If the
rule does not go into its operands, the call stays as well, or the rule put one key beside it. -/
structure Rule.LeavesCall (rule : Rule) (schema : Schema) (location : List Json.Segment)
    (name : String) (args : Json) (function : Intrinsic) (left : Object) : Prop where
  removed : function = .removed → location ≠ [] → left = [(name, args)]
  beside : ¬rule.Touches (Json.Segment.keys location ++ [name]) → left = [(name, args)] ∨
    ∃ key, rule.Brings schema (Json.Segment.keys location) [(name, args)] key ∧
      Entries.get? left name = some args ∧
      ∀ other, Entries.get? left other ≠ none → other = name ∨ other = key

/-- How a map can turn into a call: the rule took away all its other keys, and the name was there or
was brought by the rule. -/
structure Rule.TurnsIntoCall (rule : Rule) (schema : Schema) (front : List String)
    (before : Object) (name : String) : Prop where
  others : ∀ key, Entries.get? before key ≠ none → key ≠ name → rule.TakesAway (front ++ [key])
  named : Entries.get? before name = none → rule.Brings schema front before name

/-- What a rule does to calls in the properties, whether it goes well or fails.  A call that no
reference is in the way of stays unless the rule's paths go on with its name; at most the next key
of the target is put beside it.  A map that is a call afterwards came of a map that stood there once
references had given way to their values, of one that the rule created empty, or of one in the value
that the rule wrote at its target; and of that map, only keys are gone that the rule takes away. -/
theorem calls_around_rule (context : Context) (parameters : context.WellFormed) (schema : Schema)
    (rule : Rule) (data : Object) (good : (Json.object data).WellFormed) :
    let after := (rule.execute context schema data).2
    (∀ location name args function,
        (Json.object data).part? location = some (.object [(name, args)]) →
        context.template.version.function? name = some function →
        context.Clear data location → ¬rule.path <+: Json.Segment.keys location →
        (∀ path, path <+: Json.Segment.keys location → ¬rule.TakesAway path) →
        ∃ left, (Json.object after).part? location = some (.object left) ∧
          rule.LeavesCall schema location name args function left) ∧
      ∃ settled, Settled context rule [] (.object data) (.object settled) ∧
        ∀ location name args,
          (Json.object after).part? location = some (.object [(name, args)]) →
          ∃ before, Came context rule schema data [] (some (.object settled)) location before ∧
            rule.TurnsIntoCall schema (Json.Segment.keys location) before name := by
  intro after
  constructor
  · intro location name args function there known clear outside spared
    have worked : WorkedMap context rule schema [] data after :=
      rule.execute_worked context schema data
    obtain ⟨left, kept, shape, removed⟩ :=
      worked.keeps good location _ there clear outside spared
    refine ⟨left, kept, ?_, fun untouched => ?_⟩
    · rintro rfl nonempty
      exact removed nonempty known
    · have stays := shape.kept name args (by simp [Entries.get?]) untouched
      have fresh : ∀ key, Entries.get? left key ≠ none → key ≠ name →
          rule.Brings schema (Json.Segment.keys location) [(name, args)] key :=
        fun key present apart => shape.brought key (by simp [Entries.get?, apart.symm]) present
      -- All keys that are new are the next key of the target, so there is at most one.
      by_cases more : ∃ key, Entries.get? left key ≠ none ∧ key ≠ name
      · obtain ⟨key, present, apart⟩ := more
        have brings := fresh key present apart
        refine .inr ⟨key, brings, stays, fun other there => ?_⟩
        by_cases same : other = name
        · exact .inl same
        · exact .inr ((fresh other there same).unique brings)
      · refine .inl (Entries.eq_singleton left shape.distinct name args stays fun other there => ?_)
        by_contra apart
        exact more ⟨other, there, apart⟩
  · obtain ⟨settled, settles, traced⟩ := rule.execute_traced parameters schema data good
    refine ⟨settled, settles, fun location name args there => ?_⟩
    obtain ⟨before, came, rekeyed⟩ := traced.maps location _ there
    refine ⟨before, came, fun key present apart => ?_, fun missing => ?_⟩
    · exact rekeyed.taken key present (by simp [Entries.get?, apart.symm])
    · exact rekeyed.brought name missing (by simp [Entries.get?])

def callsContext : Context :=
  ⟨⟨.v20161014, []⟩, ⟨[], [], [], none⟩, fun _ name => .ok name⟩

def portToNets : Rule :=
  ⟨.replace, ["nets", "port"], none, none, some ["old", "port"], none⟩

def netAddress : Json :=
  .list [.string "server", .string "address"]

def sumOfName : Json :=
  .list [.string "md5", .string "name"]

/-- The one net is the value of a call, and the old port stands beside the name of a function. -/
def netsWithOldPort : Object :=
  [("nets", .list [.object [("get_attr", netAddress)]]),
    ("old", .object [("digest", sumOfName), ("port", .ofInt 80)])]

theorem execute_portToNets :
    portToNets.execute callsContext [] netsWithOldPort =
      (.ok (), [("nets", .list [.object [("get_attr", netAddress), ("port", .ofInt 80)]]),
        ("old", .object [("digest", sumOfName)])]) := rfl

theorem not_keepsCalls_of_portToNets :
    portToNets.Valid ∧ ¬KeepsCalls callsContext [] portToNets netsWithOldPort ∧
      ¬MakesNoCalls callsContext [] portToNets netsWithOldPort := by
  refine ⟨rfl, fun keeps => ?_, fun makes => ?_⟩
  · have kept := keeps [.key "nets", .item 0] "get_attr" netAddress .getAttrAll rfl rfl (by decide)
      ⟨["port"], rfl⟩ (by decide)
    rw [execute_portToNets] at kept
    cases kept
  · have plain := makes [.key "old"] _ _ rfl rfl rfl
    cases plain

theorem calls_around_portToNets :
    callsContext.WellFormed ∧ (Json.object netsWithOldPort).WellFormed ∧
      (∃ left, (Json.object (portToNets.execute callsContext [] netsWithOldPort).2).part?
          [.key "nets", .item 0] = some (.object left) ∧
        (left = [("get_attr", netAddress)] ∨
          ∃ key, portToNets.Brings [] ["nets"] [("get_attr", netAddress)] key ∧
            Entries.get? left "get_attr" = some netAddress ∧
            ∀ other, Entries.get? left other ≠ none → other = "get_attr" ∨ other = key)) ∧
      ∃ settled before, Settled callsContext portToNets [] (.object netsWithOldPort)
          (.object settled) ∧
        Came callsContext portToNets [] netsWithOldPort [] (some (.object settled)) [.key "old"]
          before ∧
        portToNets.TurnsIntoCall [] ["old"] before "digest" := by
  have parameters : callsContext.WellFormed := by
    intro name held found
    cases found
  have good : (Json.object netsWithOldPort).WellFormed := by
    simp [Json.WellFormed, Json.WellFormedEntries, Json.WellFormedItems, netsWithOldPort,
      netAddress, sumOfName, Entries.Distinct, Entries.keys, Json.ofInt, Number.InRange]
  obtain ⟨calls, settled, settles, turns⟩ :=
    calls_around_rule callsContext parameters [] portToNets netsWithOldPort good
  have clear : callsContext.Clear netsWithOldPort [.key "nets", .item 0] := by
    intro up down x split nonempty there
    rcases up with _ | ⟨first, _ | ⟨second, more⟩⟩
    · exact absurd rfl nonempty
    · obtain ⟨rfl, _⟩ := List.cons.inj split
      cases there
      exact not_reference_of_list _
    · obtain ⟨rfl, inner⟩ := List.cons.inj split
      obtain ⟨rfl, rest⟩ := List.cons.inj inner
      obtain ⟨rfl, _⟩ := List.append_eq_nil_iff.mp rest.symm
      cases there
      decide
  have spared : ∀ path, path <+: ["nets"] → ¬portToNets.TakesAway path := by
    rintro path above (⟨_, deletes⟩ | ⟨reads, _⟩ | ⟨name, named, _⟩)
    · cases deletes
    · cases reads
      exact absurd above (by decide)
    · cases named
  have untouched : ¬portToNets.Touches ["nets", "get_attr"] := by
    rintro (leads | ⟨source, reads, leads⟩ | ⟨_, deletes⟩ | ⟨reads, _⟩ | ⟨name, named, _⟩)
    · exact absurd leads (by decide)
    · cases reads
      exact absurd leads (by decide)
    · cases deletes
    · exact absurd reads (by decide)
    · cases named
  obtain ⟨left, there, leaves⟩ := calls [.key "nets", .item 0] "get_attr" netAddress .getAttrAll rfl
    rfl clear (by decide) spared
  obtain ⟨before, came, turned⟩ := turns [.key "old"] "digest" sumOfName rfl
  exact ⟨parameters, good, ⟨left, there, leaves.beside untouched⟩, settled, before, settles, came,
    turned⟩

end Orchestration.Migration
