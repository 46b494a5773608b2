import Orchestration.Proofs.Migration.Failing
import Orchestration.Proofs.Migration.Keeping
import Orchestration.Proofs.Migration.Renaming

/-!
# What stops a rule

A call of a removed function stops a rule, and so does a reference to a parameter that was not
provided.  The call stays where it is, on the value path the whole rule is skipped, and the rules
that come later go on.  What is not available becomes an error only in the operands of a reference
and at the targets that ids are looked up for.
-/

set_option autoImplicit false

namespace Orchestration.Migration

open Json (Segment)

/-- A call that a rule does not go into: of a removed function, or a reference to a parameter that
was not provided. -/
inductive Context.Stops (context : Context) (call : Json) : Prop where
  | removed (known : context.function? call = some .removed)
  | missing (known : context.function? call = some .getParam) (name : String)
    (fails : context.resolve call = .error (.missingParameter name))

/-- A call that stops a rule stands at a location in a value, and no reference is above it. -/
inductive Context.Halts (context : Context) : Json → List Segment → Json → Prop where
  | here {call : Json} (stops : context.Stops call) : Halts context call [] call
  | key {entries : Object} {name : String} {next : Json} {rest : List Segment} {call : Json}
    (entered : context.function? (.object entries) ≠ some .getParam)
    (there : Entries.get? entries name = some next) (below : Halts context next rest call) :
    Halts context (.object entries) (.key name :: rest) call
  | item {items : List Json} {i : Nat} {next : Json} {rest : List Segment} {call : Json}
    (there : items[i]? = some next) (below : Halts context next rest call) :
    Halts context (.list items) (.item i :: rest) call

variable {context : Context}

theorem Context.Stops.not_list {call : Json} (stops : context.Stops call) (items : List Json) :
    call ≠ .list items := by
  rintro rfl
  cases stops with
  | removed known => cases known
  | missing known => cases known

theorem Context.Stops.not_null {call : Json} (stops : context.Stops call) : call ≠ .null := by
  rintro rfl
  cases stops with
  | removed known => cases known
  | missing known => cases known

theorem Context.Stops.resolveParameter {call : Json} (stops : context.Stops call) :
    resolveParameter context call = (.ok false, call) := by
  rw [resolveParameter_of_not_list call stops.not_list]
  cases stops with
  | removed known => rw [known]
  | missing known name fails =>
    rw [known]
    simp only [resolveReference, fails]

namespace Context.Halts

variable {value call : Json} {location : List Segment}

theorem part? (halts : context.Halts value location call) : value.part? location = some call := by
  induction halts with
  | here => rfl
  | key entered there below ih => simp [Json.part?, there, ih]
  | item there below ih => simp [Json.part?, there, ih]

theorem not_null (halts : context.Halts value location call) : value ≠ .null := by
  cases halts with
  | here stops => exact stops.not_null
  | key => simp
  | item => simp

theorem resolveParameter (halts : context.Halts value location call) :
    context.Halts (resolveParameter context value).2 location call ∧
      (Segment.keys location = [] → (Migration.resolveParameter context value).1 ≠ .ok true) := by
  induction halts with
  | here stops =>
    rw [stops.resolveParameter]
    exact ⟨.here stops, fun _ => by simp⟩
  | @key entries name next rest call entered there below =>
    have same : (Migration.resolveParameter context (.object entries)).2 = .object entries := by
      rw [resolveParameter_of_not_list _ (by simp)]
      split
      · rfl
      · rename_i known
        exact absurd known entered
      · rfl
    rw [same]
    exact ⟨.key entered there below, fun none => by cases none⟩
  | @item items i next rest call there below ih =>
    rw [Migration.resolveParameter]
    constructor
    · rcases resolveItems_item items i next there with done | untouched
      · exact .item done ih.1
      · exact .item untouched below
    · exact fun none all => ih.2 none (resolveItems_all items all i next there).1

end Context.Halts

/-! ## Reading the value path -/

section Entry

variable {data : Object} {name : String} {rest : List Segment} {x call : Json}

theorem halts_resolveSlot (key : String) (there : Entries.get? data name = some x)
    (halts : context.Halts x rest call) :
    ∃ y, Entries.get? (resolveSlot context data key).2 name = some y ∧
      context.Halts y rest call ∧
      (key = name → Segment.keys rest = [] → (resolveSlot context data key).1 ≠ .ok true) := by
  by_cases same : key = name
  · subst same
    obtain ⟨stays, stops⟩ := halts.resolveParameter
    rw [resolveSlot_present data key x there]
    exact ⟨_, by rw [Entries.get?_put, if_pos rfl], stays, fun _ => stops⟩
  · rw [get?_resolveSlot_of_ne data key name same]
    exact ⟨x, there, halts, fun equal => absurd equal same⟩

theorem halts_valueAt (path : List String) (there : Entries.get? data name = some x)
    (halts : context.Halts x rest call) :
    ∃ y, Entries.get? (valueAt context path data).2 name = some y ∧ context.Halts y rest call := by
  induction path generalizing data name x rest with
  | nil => exact ⟨x, there, halts⟩
  | cons key path ih =>
    obtain ⟨y, held, stays, stops⟩ := halts_resolveSlot key there halts
    rw [valueAt]
    cases slot : resolveSlot context data key with
    | mk answer seen =>
      rw [slot] at held stops
      rcases answer with _ | _ | _
      · exact ⟨y, held, stays⟩
      · exact ⟨y, held, stays⟩
      · simp only
        split
        · exact ⟨y, held, stays⟩
        · rename_i next others child here
          by_cases same : key = name
          · subst same
            cases held.symm.trans here
            refine ⟨_, by rw [Entries.get?_put, if_pos rfl], ?_⟩
            cases stays with
            | here => exact absurd rfl (stops rfl rfl)
            | key entered inside below =>
              obtain ⟨z, inside', below'⟩ := ih inside below
              have keys : Entries.keys (valueAt context (next :: others) child).2 =
                  Entries.keys child := keys_valueAt (next :: others) child
              exact .key (context.function?_of_keys _ _ keys ▸ entered) inside' below'
          · rw [Entries.get?_put, if_neg same]
            exact ⟨y, held, stays⟩
        · exact ⟨y, held, stays⟩
        · exact ⟨y, held, stays⟩

theorem valueAt_stopped (path : List String) (there : Entries.get? data name = some x)
    (halts : context.Halts x rest call) (leads : name :: Segment.keys rest <+: path) :
    (valueAt context path data).1 = .ok .skip ∨
      ∃ error, (valueAt context path data).1 = .error error := by
  induction path generalizing data name x rest with
  | nil => cases List.prefix_nil.mp leads
  | cons key path ih =>
    obtain ⟨rfl, further⟩ := List.cons_prefix_cons.mp leads
    obtain ⟨y, held, stays, stops⟩ := halts_resolveSlot name there halts
    rw [valueAt]
    cases slot : resolveSlot context data name with
    | mk answer seen =>
      rw [slot] at held stops
      rcases answer with e | _ | _
      · exact .inr ⟨e, rfl⟩
      · exact .inl rfl
      · simp only [held]
        cases stays with
        | here => exact absurd rfl (stops rfl rfl)
        | key entered inside below =>
          cases path with
          | nil => cases List.prefix_nil.mp further
          | cons next others => exact ih inside below further
        | item =>
          cases path with
          | nil => exact absurd (List.prefix_nil.mp further) fun none => stops rfl none rfl
          | cons next others => exact .inr ⟨_, rfl⟩

/-! ## Walking to the targets -/

theorem openBelow_present (rule : Rule) (below : Option Schema) {value : Json}
    (there : Entries.get? data name = some value) (present : value ≠ .null) :
    openBelow rule below data name = data := by
  cases value with
  | null => exact absurd rfl present
  | _ => rw [openBelow, there]

theorem overMaps_there (step : Object → Change Object Bool) (items : List Json) (i : Nat)
    (there : items[i]? = some x) : ∃ y, (overMaps step items).2[i]? = some y := by
  have bound := (List.getElem?_eq_some_iff.mp there).1
  rw [← overMaps_length step items] at bound
  exact ⟨_, List.getElem?_eq_getElem bound⟩

theorem part?_walk (rule : Rule) (source : Source) (path : List String) (below : Option Schema)
    (there : Entries.get? data name = some x) (halts : context.Halts x rest call)
    (leads : name :: Segment.keys rest <+: path) :
    (Json.object (walk context rule source path below data).2).part? (.key name :: rest) =
      some call := by
  -- Along the path, the call keeps standing at the rest of its location: the references resolved at
  -- the next key do not move it, and they are not gone into if it is the next thing on the way.
  induction path generalizing data name x rest below with
  | nil => cases List.prefix_nil.mp leads
  | cons key path ih =>
    obtain ⟨rfl, further⟩ := List.cons_prefix_cons.mp leads
    obtain ⟨y, held, stays, stops⟩ := halts_resolveSlot name there halts
    have idle : (Json.object (resolveSlot context data name).2).part? (.key name :: rest) =
        some call := by
      rw [Json.part?, held]
      exact stays.part?
    cases path with
    | nil =>
      have none := stops rfl (List.prefix_nil.mp further)
      rw [walk]
      split
      · rename_i slot
        exact absurd (by rw [slot]) none
      · exact idle
    | cons next others =>
      have opened := openBelow_present rule below held stays.not_null
      rw [walk_cons]
      cases step : ground context rule below data name with
      | mk found left =>
        obtain ⟨still, met⟩ := ground_cases context rule below data left name found step
        rw [opened, or_self] at still
        subst still
        cases found with
        | failed e => exact idle
        | closed => exact idle
        | map child =>
          obtain ⟨goesOn, -, here⟩ := met _ (.inl ⟨child, rfl, rfl⟩)
          cases held.symm.trans here
          simp only [Json.part?, Entries.get?_put, if_true, Option.bind_some]
          cases stays with
          | here => exact absurd goesOn (stops rfl rfl)
          | key entered inside below' => exact ih _ inside below' further
        | list items =>
          obtain ⟨goesOn, -, here⟩ := met _ (.inr ⟨items, rfl, rfl⟩)
          cases held.symm.trans here
          simp only [Json.part?, Entries.get?_put, if_true, Option.bind_some]
          cases stays with
          | here => exact absurd goesOn (stops rfl rfl)
          | @item _ i x rest _ inside below' =>
            let visit :=
              walk context rule source (next :: others) (below.bind fun s => s.child? name)
            obtain ⟨z, after⟩ := overMaps_there visit items i inside
            change (overMaps visit items).2[i]?.bind (Json.part? rest) = some call
            rw [after, Option.bind_some]
            rcases overMaps_items visit items i x z inside after with
              rfl | ⟨child, rfl, rfl⟩
            · exact below'.part?
            · cases below' with
              | here => exact absurd goesOn (stops rfl rfl)
              | key entered inside below' => exact ih _ inside below' further

/-! ## Executing a rule -/

namespace Rule

variable (rule : Rule) (schema : Schema)

theorem execute_skipped (source : List String) (reads : rule.valuePath = some source)
    (there : Entries.get? data name = some x) (halts : context.Halts x rest call)
    (leads : name :: Segment.keys rest <+: source) :
    rule.execute context schema data =
      ((rule.lookUp context data).1.map fun _ => (), (rule.lookUp context data).2) := by
  have stopped := valueAt_stopped source there halts leads
  rw [execute, lookUp, reads]
  simp only
  cases read : valueAt context source data with
  | mk answer seen =>
    rw [read] at stopped
    rcases stopped with skip | ⟨error, fails⟩
    · cases skip
      rfl
    · cases fails
      rfl

theorem write_keeps (parameters : context.WellFormed) (found : Option Json)
    (good : (Json.object data).WellFormed)
    (sourceGood : ∀ value, (rule.source found).value = some value → value.WellFormed)
    (there : Entries.get? data name = some x) (halts : context.Halts x rest call)
    (leads : name :: Segment.keys rest <+: rule.path)
    (spares : rule.kind = .replace → found.isSome = true → ∃ source,
      rule.valuePath = some source ∧ Apart source (name :: Segment.keys rest)) :
    (Json.object (rule.write context schema found data).2).part? (.key name :: rest) =
      some call := by
  have walked := part?_walk rule (rule.source found) rule.path (some schema) there halts leads
  rw [write]
  split
  · rw [Json.part?, there]
    exact halts.part?
  · cases done : walk context rule (rule.source found) rule.path (some schema) data with
    | mk answer left =>
      rw [done] at walked
      cases answer with
      | error e => exact walked
      | ok wrote =>
        simp only
        split
        · rename_i moves
          simp only [Bool.and_eq_true, beq_iff_eq] at moves
          obtain ⟨⟨-, fromPath⟩, replaces⟩ := moves
          obtain ⟨source, reads, apart⟩ := spares replaces fromPath
          have leftGood : (Json.object left).WellFormed := by
            have kept := walk_replaces_wellFormed parameters replaces sourceGood rule.path
              (some schema) good
            rwa [done] at kept
          have spared := spared_removeAt source [] left leftGood (.key name :: rest)
          rw [reads, Option.getD_some]
          rw [walked] at spared
          generalize (Json.object (removeAt source left)).part? (.key name :: rest) = after
            at spared
          cases spared with
          | same => rfl
          | gone _ below => exact absurd below apart.1
          | map before after above => exact absurd above apart.2
        · exact walked

theorem execute_keeps (parameters : context.WellFormed)
    (literal : ∀ value, rule.value = some value → value.WellFormed)
    (good : (Json.object data).WellFormed) (there : Entries.get? data name = some x)
    (halts : context.Halts x rest call) (reads : rule.Reads (name :: Segment.keys rest))
    (rooted : ¬ rule.Uproots (name :: Segment.keys rest).dropLast) :
    (Json.object (rule.execute context schema data).2).part? (.key name :: rest) = some call := by
  unfold execute
  cases path : rule.valuePath with
  | none =>
    rcases reads.leads with leads | ⟨source, same, -⟩
    · exact rule.write_keeps schema parameters none good literal there halts leads (by simp)
    · rw [path] at same
      cases same
  | some source =>
    obtain ⟨y, held, stays⟩ := halts_valueAt source there halts
    have seenGood := valueAt_wellFormed parameters source data good
    have stopped := valueAt_stopped source there halts
    simp only
    cases read : valueAt context source data with
    | mk answer seen =>
      rw [read] at held seenGood stopped
      have idle : (Json.object seen).part? (.key name :: rest) = some call := by
        rw [Json.part?, held]
        exact stays.part?
      -- A path that was read to its end does not run into the call.
      have elsewhere : answer = .ok .missing ∨ (∃ value, answer = .ok (.found value)) →
          ¬ name :: Segment.keys rest <+: source := by
        rintro goesOn onPath
        rcases stopped onPath with rfl | ⟨e, rfl⟩ <;> simp at goesOn
      have leads : ¬ name :: Segment.keys rest <+: source →
          name :: Segment.keys rest <+: rule.path := by
        intro off
        refine reads.leads.resolve_right ?_
        rintro ⟨other, same, onPath⟩
        rw [path] at same
        cases same
        exact off onPath
      rcases answer with _ | value | _ | _
      · exact idle
      · have off := elsewhere (.inr ⟨value, rfl⟩)
        refine rule.write_keeps schema parameters (some value) seenGood ?_ held stays (leads off)
          fun replaces _ => ⟨source, path, fun above => ?_, off⟩
        · rintro other same
          cases same
          exact along?_wellFormed source _ value seenGood
            (valueAt_found source data seen value read).1
        · have whole := List.dropLast_concat_getLast (List.cons_ne_nil name (Segment.keys rest))
          rw [← whole, List.prefix_concat_iff, whole] at above
          rcases above with same | above
          · exact off (same ▸ List.prefix_rfl)
          · exact rooted ⟨replaces, source, path, above⟩
      · have off := elsewhere (.inl rfl)
        exact rule.write_keeps schema parameters none seenGood literal held stays (leads off)
          (by simp)
      · exact idle

end Rule

end Entry

/-! ## Migrating -/

theorem validate_all (rules : List Rule) (valid : ∀ rule ∈ rules, rule.Valid) :
    rules.forM Rule.validate = .ok () := by
  induction rules with
  | nil => rfl
  | cons rule rest ih =>
    obtain ⟨here, others⟩ := List.forall_mem_cons.mp valid
    change (rule.validate).bind (fun _ => rest.forM Rule.validate) = .ok ()
    rw [Rule.validate, here]
    exact ih others

theorem executeAll_append (schema : Schema) (before later : List Rule) (data reached : Object)
    (done : executeAll context schema before data = (.ok (), reached)) :
    executeAll context schema (before ++ later) data = executeAll context schema later reached := by
  induction before generalizing data with
  | nil =>
    cases done
    rfl
  | cons rule rest ih =>
    rw [executeAll] at done
    rw [List.cons_append, executeAll]
    cases first : rule.execute context schema data with
    | mk answer left =>
      rw [first] at done
      cases answer with
      | error e => cases done
      | ok _ => exact ih left done

/-- Something that is not available becomes an error only where a rule exposes it: in the operands
of a reference, or at a target that ids are looked up for.  A call that stops a rule stays as it
was, unless the rule moves away what is around it; on the value path the rule does nothing at all;
and the rules after one that did not fail go on from what it left. -/
theorem unavailable_skips (context : Context) (parameters : context.WellFormed) (schema : Schema)
    (rules : List Rule) (valid : ∀ rule ∈ rules, rule.Valid)
    (literals : ∀ rule ∈ rules, ∀ value, rule.value = some value → value.WellFormed) :
    (∀ data error, (migrate context schema rules data).1 = .error error → error.Unavailable →
      ∃ before rule later reached, rules = before ++ rule :: later ∧
        executeAll context schema before data = (.ok (), reached) ∧
        rule.Exposes context schema reached error) ∧
    (∀ rule ∈ rules, ∀ data : Object, (Json.object data).WellFormed →
      ∀ name rest x call, Entries.get? data name = some x → context.Halts x rest call →
        (rule.Reads (name :: Segment.keys rest) →
          ¬ rule.Uproots (name :: Segment.keys rest).dropLast →
          (Json.object (rule.execute context schema data).2).part? (.key name :: rest) =
            some call) ∧
        ∀ source, rule.valuePath = some source → name :: Segment.keys rest <+: source →
          rule.execute context schema data =
            ((rule.lookUp context data).1.map fun _ => (), (rule.lookUp context data).2)) ∧
    ∀ before rule later data reached left, rules = before ++ rule :: later →
      executeAll context schema before data = (.ok (), reached) →
      rule.execute context schema reached = (.ok (), left) →
      migrate context schema rules data = executeAll context schema later left := by
  have migrates : ∀ data, migrate context schema rules data =
      executeAll context schema rules data := by
    intro data
    rw [migrate, validate_all rules valid]
  refine ⟨fun data error fails unavailable => ?_, fun rule member data good name rest x call there
    halts => ⟨fun reads rooted => ?_, fun source reads leads => ?_⟩, ?_⟩
  · rw [migrates] at fails
    obtain ⟨before, rule, later, reached, split, done, failed⟩ :=
      executeAll_error schema rules data error fails
    exact ⟨before, rule, later, reached, split, done,
      rule.execute_unavailable schema reached error unavailable failed⟩
  · exact rule.execute_keeps schema parameters (literals rule member) good there halts reads rooted
  · exact rule.execute_skipped schema source reads there halts leads
  · rintro before rule later data reached left rfl done went
    rw [migrates, executeAll_append schema before _ data reached done, executeAll, went]

def tidyZone : Rule :=
  ⟨.delete, ["zone", "old"], none, none, none, none⟩

def nameFromLabel : Rule :=
  ⟨.replace, ["name"], none, none, some ["label"], none⟩

def findNet : Rule :=
  ⟨.resolve, ["net"], none, none, none, some ⟨"find", none⟩⟩

/-- The zone is a parameter, and there are none; the label calls a function that was removed. -/
def untidy : Object :=
  [("zone", .object [("get_param", .string "zone")]),
    ("label", .object [("Fn::Join", .list [])]),
    ("net", .object [("list_join", .list [.string "-",
      .list [.string "net", .object [("get_param", .string "zone")]]])])]

theorem unavailable_skips_untidy :
    (∃ before rule later reached, [tidyZone, nameFromLabel, findNet] = before ++ rule :: later ∧
        executeAll emptyContext [] before untidy = (.ok (), reached) ∧
        rule.Exposes emptyContext [] reached (.template (.missingParameter "zone"))) ∧
      (Json.object (tidyZone.execute emptyContext [] untidy).2).part? [.key "zone"] =
        some (.object [("get_param", .string "zone")]) ∧
      nameFromLabel.execute emptyContext [] untidy = (.ok (), untidy) ∧
      migrate emptyContext [] [tidyZone, nameFromLabel, findNet] untidy =
        executeAll emptyContext [] [findNet] untidy := by
  have parameters : emptyContext.WellFormed := fun name held found => by cases found
  have good : (Json.object untidy).WellFormed := by
    simp [Json.WellFormed, Json.WellFormedItems, Json.WellFormedEntries, untidy, Entries.Distinct,
      Entries.keys]
  have valid : ∀ rule ∈ [tidyZone, nameFromLabel, findNet], rule.Valid := by
    simp [Rule.Valid, Rule.fault?, tidyZone, nameFromLabel, findNet]
  have literals : ∀ rule ∈ [tidyZone, nameFromLabel, findNet], ∀ value,
      rule.value = some value → value.WellFormed := by
    simp [tidyZone, nameFromLabel, findNet]
  obtain ⟨exposed, stays, goesOn⟩ :=
    unavailable_skips emptyContext parameters [] _ valid literals
  have zone : emptyContext.Halts (.object [("get_param", .string "zone")]) [] _ :=
    .here (.missing rfl "zone" rfl)
  have label : emptyContext.Halts (.object [("Fn::Join", .list [])]) [] _ :=
    .here (.removed rfl)
  refine ⟨exposed untidy _ rfl trivial, ?_, ?_,
    goesOn [tidyZone] nameFromLabel [findNet] untidy untidy untidy rfl rfl rfl⟩
  · exact (stays tidyZone (by simp) untidy good "zone" [] _ _ rfl zone).1
      ⟨by simp, .inl ⟨["old"], rfl⟩⟩ fun uproots => by cases uproots.1
  · exact (stays nameFromLabel (by simp) untidy good "label" [] _ _ rfl label).2 ["label"] rfl
      List.prefix_rfl

end Orchestration.Migration
