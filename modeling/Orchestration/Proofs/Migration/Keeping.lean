import Orchestration.Proofs.Migration.Carrying
import Orchestration.Proofs.Migration.Frame
import Orchestration.Proofs.Migration.Moving

/-!
# What a rule leaves alone

Once the references on its way have given way to their values, a rule leaves everything as it is that
is not on its footprint.  Above its target it creates missing maps, and nothing else; lists there keep
their items in order, unless the rule takes away its source from above them.
-/

set_option autoImplicit false

namespace Orchestration.Migration

open Json (Segment)

variable {context : Context} {rule : Rule} {schema : Schema}

/-! ## Acting -/

namespace Rule.Framed

variable {front : List String}

theorem of_actAt (below : Option Schema) (source : Source) (data : Object) (key : String)
    (distinct : Entries.Distinct data) (target : front ++ [key] = rule.path) :
    rule.Framed schema front (some (.object data))
      (some (.object (actAt context rule below source data key).2)) := by
  refine of_object rule.path_mem_footprint ⟨[key], target⟩ fun other => ?_
  by_cases same : key = other
  · exact of_target ⟨[], by rw [List.append_nil, ← target, same]⟩ _ _
  · rcases get?_actAt context rule below source data key distinct other same with
      kept | ⟨gone, replaces, named⟩
    · rw [kept]
      exact refl _
    · rw [gone]
      exact of_gone (.sibling other named (by simp [← target]) replaces) _

theorem of_entry {data left : Object} {key : String} {after : Json}
    (leads : front ++ [key] <+: rule.path)
    (here : rule.Framed schema (front ++ [key]) (Entries.get? data key) (some after))
    (others : ∀ other, key ≠ other → Entries.get? left other = Entries.get? data other) :
    rule.Framed schema front (some (.object data))
      (some (.object (Entries.put left key after))) := by
  refine of_object rule.path_mem_footprint ((List.prefix_append ..).trans leads) fun other => ?_
  rw [Entries.get?_put]
  split
  · rename_i same
    exact same ▸ here
  · rename_i apart
    rw [others other apart]
    exact refl _

theorem carries (context : Context) (rule : Rule) (schema : Schema) (source : Source) :
    rule.Carries context schema source (rule.Framed schema) where
  same _ := refl
  act target below _ _ distinct := of_actAt below source _ _ distinct target
  opened := of_created
  entry leads _ _ _ here others := of_entry leads here others
  list := of_list rule.path_mem_footprint

end Rule.Framed

/-! ## Taking away the source -/

inductive Spared (source keys : List String) : Option Json → Option Json → Prop where
  | same (value : Option Json) : Spared source keys value value
  | gone (value : Option Json) (below : source <+: keys) : Spared source keys value none
  | map (before after : Object) (above : keys <+: source) :
    Spared source keys (some (.object before)) (some (.object after))

theorem spared_removeAt (path front : List String) (data : Object)
    (good : (Json.object data).WellFormed) (location : List Segment) :
    Spared (front ++ path) (front ++ Segment.keys location) ((Json.object data).part? location)
      ((Json.object (removeAt path data)).part? location) := by
  induction path generalizing front data location with
  | nil => exact .same _
  | cons key rest ih =>
    match location with
    | [] =>
      rw [Segment.keys, List.append_nil]
      exact .map data _ (List.prefix_append ..)
    | .item i :: below => exact .same none
    | .key name :: below =>
      change Spared _ (front ++ name :: _) ((Entries.get? data name).bind _)
        ((Entries.get? (removeAt (key :: rest) data) name).bind _)
      cases rest with
      | nil =>
        rw [removeAt, Entries.get?_erase data good.distinct]
        split
        · rename_i same
          refine same ▸ .gone _ ?_
          rw [List.prefix_append_right_inj, List.cons_prefix_cons]
          exact ⟨rfl, List.nil_prefix⟩
        · exact .same _
      | cons next others =>
        rw [removeAt]
        split
        · rename_i child here
          rw [Entries.get?_put]
          split
          · rename_i same
            rw [← same, here]
            have inside := ih (front ++ [key]) child (good.entry key _ here) below
            rwa [List.append_assoc, List.append_assoc, List.singleton_append,
              List.singleton_append] at inside
          · exact .same _
        · exact .same _

theorem Rule.Kept.spared {keys source : List String} {before between after : Option Json}
    (replaces : rule.kind = .replace) (reads : rule.valuePath = some source)
    (kept : rule.Kept schema keys before between) (spared : Spared source keys between after) :
    rule.Kept schema keys before after := by
  have member := Rule.source_mem_footprint reads
  cases spared with
  | same => exact kept
  | gone _ below =>
    refine ⟨fun apart => absurd below (apart _ member).1, fun _ present => absurd rfl present,
      fun _ _ => .gone before ⟨replaces, source, reads, below⟩⟩
  | map between after leads =>
    refine ⟨fun apart => absurd leads (apart _ member).2, fun missing _ => ?_,
      fun above different => ?_⟩
    · exact kept.added missing (by simp)
    · cases kept.above above different with
      | same => exact .map between after
      | created opens vacant => exact .created opens vacant after
      | map => exact .map _ after

/-! ## Executing a rule -/

theorem Rule.execute_framed (parameters : context.WellFormed) (schema : Schema) (rule : Rule)
    (data : Object) (good : (Json.object data).WellFormed) :
    ∃ settled, Settled context rule [] (.object data) (.object settled) ∧
      rule.Framed schema [] (some (.object settled))
        (some (.object (rule.execute context schema data).2)) := by
  refine rule.execute_related parameters (fun replaces path reads before left leftGood framed => ?_)
    good fun found _ => Framed.carries context rule schema (rule.source found)
  intro location
  exact (framed location).spared replaces reads (spared_removeAt path [] left leftGood location)

/-- A rule touches nothing but its footprint, whether it succeeds or not.  Compared with the
properties in which references on its way have given way to their values, everything apart from the
footprint is the same; what is added is at the target, below it, or a map that the schema declares on
the way to it; lists above the target keep their items in order, unless the rule takes its source
away from above them; and what is created above the target are such maps, where there was nothing. -/
theorem footprint_frame (context : Context) (parameters : context.WellFormed) (schema : Schema)
    (rule : Rule) (data : Object) (good : (Json.object data).WellFormed) :
    let after := Json.object (rule.execute context schema data).2
    ∃ settled : Object, Settled context rule [] (.object data) (.object settled) ∧
      (∀ location, (∀ path ∈ rule.footprint, Apart path (Segment.keys location)) →
        after.part? location = (Json.object settled).part? location) ∧
      (∀ location, (Json.object settled).part? location = none → after.part? location ≠ none →
        rule.path <+: Segment.keys location ∨ rule.Opens schema (Segment.keys location)) ∧
      (∀ location items, Segment.keys location <+: rule.path → Segment.keys location ≠ rule.path →
        (Json.object settled).part? location = some (.list items) →
        (∃ left, after.part? location = some (.list left) ∧ left.length = items.length ∧
          ∀ (i : Nat) (x : Json), items[i]? = some x → left[i]? = some x ∨
            ∃ first second, x = .object first ∧ left[i]? = some (.object second)) ∨
          rule.Uproots (Segment.keys location) ∧ after.part? location = none) ∧
      (∀ location items, Segment.keys location <+: rule.path → Segment.keys location ≠ rule.path →
        after.part? location = some (.list items) →
        ∃ before, (Json.object settled).part? location = some (.list before)) ∧
      ∀ location child, Segment.keys location <+: rule.path → Segment.keys location ≠ rule.path →
        after.part? location = some (.object child) →
        (∃ before, (Json.object settled).part? location = some (.object before)) ∨
          rule.Opens schema (Segment.keys location) ∧
            ((Json.object settled).part? location = none ∨
              (Json.object settled).part? location = some .null) := by
  intro after
  obtain ⟨settled, settles, framed⟩ := rule.execute_framed parameters schema data good
  have above (location) := (framed location).above
  simp only [List.nil_append, Option.bind_some] at above
  refine ⟨settled, settles, fun location apart => (framed location).outside apart,
    fun location missing present => (framed location).added missing present,
    fun location items leads different there => ?_,
    fun location items leads different there => ?_,
    fun location child leads different there => ?_⟩
  · have here := above location leads different
    rw [there] at here
    exact here.of_list
  · have here := above location leads different
    rw [there] at here
    exact here.to_list
  · have here := above location leads different
    rw [there] at here
    exact here.to_map

def openPorts : Rule :=
  ⟨.replace, ["servers", "net", "port"], some (.ofInt 80), none, none, none⟩

def fleetSchema : Schema :=
  [("servers", .list (some (.map (some [("net", .map none)]))))]

/-- One server is the value of a parameter, and none has a net yet. -/
def fleet : Object :=
  [("servers", .list [.object [("get_param", .string "limits")], .object [("size", .ofInt 1)]]),
    ("zone", .string "east")]

theorem footprint_frame_of_openPorts :
    limitsContext.WellFormed ∧ (Json.object fleet).WellFormed ∧
      ∃ settled : Object, Settled limitsContext openPorts [] (.object fleet) (.object settled) ∧
        (Json.object settled).part? [.key "servers", .item 0, .key "size"] = some (.ofInt 5) ∧
        (Json.object settled).part? [.key "zone"] = some (.string "east") := by
  have parameters : limitsContext.WellFormed := by
    intro name held found
    have only : held = .object [("size", .ofInt 5)] := by
      simp only [limitsContext, Stack.parameter?, Entries.get?_cons, Entries.get?_nil] at found
      split at found
      · exact (Option.some.inj found).symm
      · cases found
    rw [only]
    simp [Json.WellFormed, Json.WellFormedEntries, Entries.Distinct, Entries.keys, Json.ofInt,
      Number.InRange]
  have good : (Json.object fleet).WellFormed := by
    simp [Json.WellFormed, Json.WellFormedItems, Json.WellFormedEntries, fleet, Entries.Distinct,
      Entries.keys, Json.ofInt, Number.InRange]
  have done : openPorts.execute limitsContext fleetSchema fleet = (.ok (),
      [("servers", .list [
          .object [("size", .ofInt 5), ("net", .object [("port", .ofInt 80)])],
          .object [("size", .ofInt 1), ("net", .object [("port", .ofInt 80)])]]),
        ("zone", .string "east")]) := rfl
  obtain ⟨settled, settles, outside, -⟩ :=
    footprint_frame limitsContext parameters fleetSchema openPorts fleet good
  rw [done] at outside
  refine ⟨parameters, good, settled, settles, ?_, ?_⟩
  · exact (outside [.key "servers", .item 0, .key "size"] (by decide)).symm
  · exact (outside [.key "zone"] (by decide)).symm

/-- A list above the target goes with the source in it. -/
example : Rule.execute limitsContext []
    ⟨.replace, ["a", "b"], none, none, some ["a"], none⟩
    [("a", .list [.object [("x", .ofInt 1)]])] = (.ok (), []) := rfl

end Orchestration.Migration
