import Orchestration.Proofs.Template.Rekeying
import Orchestration.Proofs.Template.Surveys

/-!
# Merging maps

Maps are merged by writing their entries on top of each other: a key keeps its first place and takes
its last value.  Writing a map that was itself written from entries does what writing the entries
does, so any maps in a row can be merged before the others.
-/

set_option autoImplicit false

namespace Orchestration

/-! ## Writing entries on top of others -/

namespace Entries

variable {α : Type}

theorem putAll_cons (entries rest : Entries α) (key : String) (value : α) :
    putAll entries ((key, value) :: rest) = putAll (put entries key value) rest := rfl

theorem putAll_append (entries first second : Entries α) :
    putAll entries (first ++ second) = putAll (putAll entries first) second :=
  List.foldl_append

theorem distinct_putAll {entries : Entries α} (distinct : Distinct entries) (more : Entries α) :
    Distinct (putAll entries more) := by
  induction more generalizing entries with
  | nil => exact distinct
  | cons entry rest ih => exact ih (distinct_put distinct entry.1 entry.2)

theorem get?_putAll (entries more : Entries α) (distinct : Distinct more) (key : String) :
    get? (putAll entries more) key = (get? more key).or (get? entries key) := by
  induction more generalizing entries with
  | nil => rfl
  | cons entry rest ih =>
    obtain ⟨k, value⟩ := entry
    obtain ⟨single, distinct⟩ : k ∉ keys rest ∧ Distinct rest := List.nodup_cons.mp distinct
    rw [putAll_cons, ih (put entries k value) distinct, get?_put, get?_cons]
    by_cases here : k = key
    · subst here
      rw [(get?_eq_none_iff rest k).mpr single, if_pos rfl, if_pos rfl]
      rfl
    · rw [if_neg here, if_neg here]

theorem keys_put_eq_see (entries : Entries α) (key : String) (value : α) :
    keys (put entries key value) = see (· == ·) (keys entries) key := by
  rw [keys_put, see]
  simp only [List.any_beq', List.contains_iff_mem]

theorem keys_putAll (entries more : Entries α) :
    keys (putAll entries more) = (keys more).foldl (see (· == ·)) (keys entries) := by
  induction more generalizing entries with
  | nil => rfl
  | cons entry rest ih =>
    obtain ⟨k, value⟩ := entry
    rw [putAll_cons, ih, keys_put_eq_see]
    rfl

theorem put_comm (entries : Entries α) {key other : String} (apart : key ≠ other) (value value' : α)
    (there : key ∈ keys entries) :
    put (put entries key value) other value' = put (put entries other value') key value := by
  induction entries with
  | nil => cases there
  | cons entry rest ih =>
    obtain ⟨k, v⟩ := entry
    by_cases here : k = key
    · subst here
      simp [put, apart]
    · have later : key ∈ keys rest := (List.mem_cons.mp there).resolve_left (Ne.symm here)
      by_cases second : k = other
      · subst second
        simp [put, here]
      · simp [put, here, second, ih later]

theorem putAll_put_comm (entries more : Entries α) (key : String) (value : α)
    (there : key ∈ keys entries) (absent : key ∉ keys more) :
    putAll (put entries key value) more = put (putAll entries more) key value := by
  induction more generalizing entries with
  | nil => rfl
  | cons entry rest ih =>
    obtain ⟨k, v⟩ := entry
    obtain ⟨apart, absent⟩ : key ≠ k ∧ key ∉ keys rest := by simpa [keys] using absent
    have kept : key ∈ keys (put entries k v) := by
      rw [keys_put]
      split
      · exact there
      · exact List.mem_append_left _ there
    rw [putAll_cons, putAll_cons, put_comm entries apart value v there, ih _ kept absent]

theorem putAll_put (entries map : Entries α) (distinct : Distinct map) (key : String) (value : α) :
    putAll entries (put map key value) = put (putAll entries map) key value := by
  induction map generalizing entries with
  | nil => rfl
  | cons entry rest ih =>
    obtain ⟨k, v⟩ := entry
    obtain ⟨single, distinct⟩ : k ∉ keys rest ∧ Distinct rest := List.nodup_cons.mp distinct
    rw [put]
    by_cases here : k = key
    · subst here
      have there : k ∈ keys (put entries k v) := by
        rw [mem_keys_iff]
        exact ⟨v, by rw [get?_put, if_pos rfl]⟩
      rw [if_pos rfl, putAll_cons, putAll_cons, ← putAll_put_comm _ _ _ _ there single, put_put]
    · rw [if_neg here, putAll_cons, putAll_cons, ih _ distinct]

theorem putAll_putAll (entries map more : Entries α) (distinct : Distinct map) :
    putAll entries (putAll map more) = putAll (putAll entries map) more := by
  induction more generalizing map with
  | nil => rfl
  | cons entry rest ih =>
    obtain ⟨k, v⟩ := entry
    rw [putAll_cons, putAll_cons, ih _ (distinct_put distinct k v), putAll_put _ _ distinct]

end Entries

namespace Functions

variable {items : List Json} {maps : List Object}

/-! ## Merging values -/

theorem mergeOnto_append (merged : Object) (first second : List Json) :
    mergeOnto merged (first ++ second) = (mergeOnto merged first).bind (mergeOnto · second) := by
  induction first generalizing merged with
  | nil => rfl
  | cons x rest ih =>
    cases x with
    | null => exact ih merged
    | object entries => exact ih (Entries.putAll merged entries)
    | _ => rfl

theorem mergeOnto_cons (merged : Object) {x : Json} {map : Object} (isMap : IsMap x map) :
    mergeOnto merged (x :: items) = mergeOnto (Entries.putAll merged map) items := by
  cases isMap <;> rfl

theorem mergeOnto_ok_iff (merged output : Object) (items : List Json) :
    mergeOnto merged items = .ok output ↔
      ∃ maps, List.Forall₂ IsMap items maps ∧ output = Entries.putAll merged maps.flatten := by
  induction items generalizing merged with
  | nil => simp [mergeOnto, Entries.putAll, eq_comm]
  | cons x rest ih =>
    simp only [List.forall₂_cons_left_iff]
    constructor
    · intro run
      have isMap : ∃ map, IsMap x map := by
        cases x with
        | null => exact ⟨[], .null⟩
        | object entries => exact ⟨entries, .object entries⟩
        | _ => cases run
      obtain ⟨map, isMap⟩ := isMap
      rw [mergeOnto_cons merged isMap] at run
      obtain ⟨maps, each, rfl⟩ := (ih _).mp run
      exact ⟨_, ⟨map, maps, isMap, each, rfl⟩, (Entries.putAll_append ..).symm⟩
    · rintro ⟨_, ⟨map, maps, isMap, each, rfl⟩, rfl⟩
      rw [mergeOnto_cons merged isMap]
      exact (ih _).mpr ⟨maps, each, Entries.putAll_append ..⟩

theorem mergeOnto_of_not_isMap (merged : Object) {x : Json} (member : x ∈ items)
    (neither : ∀ map, ¬ IsMap x map) : mergeOnto merged items = .error .mergeNotMaps := by
  induction items generalizing merged with
  | nil => cases member
  | cons y rest ih =>
    rcases List.mem_cons.mp member with rfl | later
    · cases x with
      | null => exact absurd .null (neither [])
      | object entries => exact absurd (.object entries) (neither entries)
      | _ => rfl
    · cases y with
      | null => exact ih merged later
      | object entries => exact ih (Entries.putAll merged entries) later
      | _ => rfl

theorem mergeOnto_ok_iff_putAll (merged output : Object) (items : List Json) :
    mergeOnto merged items = .ok output ↔
      ∃ inner, mergeOnto [] items = .ok inner ∧ output = Entries.putAll merged inner := by
  simp only [mergeOnto_ok_iff]
  constructor
  · rintro ⟨maps, each, rfl⟩
    exact ⟨_, ⟨maps, each, rfl⟩, (Entries.putAll_putAll merged [] _ List.nodup_nil).symm⟩
  · rintro ⟨_, ⟨maps, each, rfl⟩, rfl⟩
    exact ⟨maps, each, Entries.putAll_putAll merged [] _ List.nodup_nil⟩

theorem mergeOnto_nested_iff (merged output : Object) (front middle back : List Json) :
    mergeOnto merged (front ++ middle ++ back) = .ok output ↔
      ∃ inner, mergeOnto [] middle = .ok inner ∧
        mergeOnto merged (front ++ .object inner :: back) = .ok output := by
  rw [List.append_assoc]
  simp only [mergeOnto_append, bind_eq_ok_iff, mergeOnto_cons _ (.object _)]
  constructor
  · rintro ⟨before, start, next, run, rest⟩
    obtain ⟨inner, own, rfl⟩ := (mergeOnto_ok_iff_putAll ..).mp run
    exact ⟨inner, own, before, start, rest⟩
  · rintro ⟨inner, own, before, start, rest⟩
    exact ⟨before, start, _, (mergeOnto_ok_iff_putAll ..).mpr ⟨inner, own, rfl⟩, rest⟩

theorem mergeOnto_of_empty (merged : Object) {x : Json} (empty : IsMap x [])
    (front back : List Json) :
    mergeOnto merged (front ++ x :: back) = mergeOnto merged (front ++ back) := by
  simp only [mergeOnto_append, mergeOnto_cons _ empty]
  rfl

/-- What maps merged into one map make of it. -/
structure Merged (maps : List Object) (merged : Object) : Prop where
  /-- The last map that has a key decides. -/
  last : ∀ key, Entries.get? merged key = maps.reverse.findSome? fun map => Entries.get? map key
  union : ∀ key, key ∈ Entries.keys merged ↔ ∃ map ∈ maps, key ∈ Entries.keys map
  distinct : Entries.Distinct merged
  /-- The first map that has a key places it. -/
  order : Entries.keys merged = firstSeen (· == ·) (maps.flatMap Entries.keys)

theorem get?_putAll_flatten (merged : Object) (distinct : ∀ map ∈ maps, Entries.Distinct map)
    (key : String) :
    Entries.get? (Entries.putAll merged maps.flatten) key =
      (maps.reverse.findSome? fun map => Entries.get? map key).or (Entries.get? merged key) := by
  induction maps generalizing merged with
  | nil => rfl
  | cons map rest ih =>
    obtain ⟨here, later⟩ := List.forall_mem_cons.mp distinct
    rw [List.flatten_cons, Entries.putAll_append, ih _ later, Entries.get?_putAll merged map here,
      List.reverse_cons, List.findSome?_append, Option.or_assoc]
    congr 2
    cases found : Entries.get? map key <;> simp [found]

theorem merged_putAll (distinct : ∀ map ∈ maps, Entries.Distinct map) :
    Merged maps (Entries.putAll [] maps.flatten) := by
  have order : Entries.keys (Entries.putAll [] maps.flatten) =
      firstSeen (· == ·) (maps.flatMap Entries.keys) := by
    have keys : Entries.keys maps.flatten = maps.flatMap Entries.keys := List.map_flatten
    rw [Entries.keys_putAll, keys]
    rfl
  have none : Entries.Distinct ([] : Object) := List.nodup_nil
  refine ⟨fun key => ?_, fun key => ?_, Entries.distinct_putAll none _, order⟩
  · rw [get?_putAll_flatten [] distinct, Entries.get?_nil, Option.or_none]
  · rw [order, mem_firstSeen_iff, List.mem_flatMap]

/-! ## The call -/

section Call

variable (scope : Scope) (name : String) {args : Node}

theorem value_mapMerge (given : Node.Gives scope args (.list items)) :
    (Node.resolve scope (.call .mapMerge name args none)).value =
      (Scope.immediate name ((mergeOnto [] items).map .object)).map Prod.fst :=
  Node.value_call scope .mapMerge name args [args] [.list items] rfl (.cons given .nil)
    fun _ _ _ => rfl

theorem gives_mapMerge_iff (nodes : List Node) (value : Json) :
    Node.Gives scope (.call .mapMerge name (.list nodes) none) value ↔
      ∃ items output, List.Forall₂ (Node.Gives scope) nodes items ∧
        mergeOnto [] items = .ok output ∧ value = .object output := by
  constructor
  · intro whole
    obtain ⟨values, operands, made⟩ := (Node.gives_call_iff ..).mp whole
    obtain ⟨pair, -⟩ := (Node.values_resolveFirst_iff ..).mp operands
    obtain ⟨given, _, gives, last, rfl⟩ := List.forall₂_cons_left_iff.mp pair
    cases last
    obtain ⟨items, each, rfl⟩ := (Node.gives_list_iff ..).mp gives
    cases run : mergeOnto [] items with
    | error fault => simp [Scope.finish, mapMerge, run, Scope.immediate, Except.map] at made
    | ok output =>
      simp only [Scope.finish, mapMerge, run, Scope.immediate, Except.map] at made
      exact ⟨items, output, each, run, (Except.ok.inj made).symm⟩
  · rintro ⟨items, output, each, run, rfl⟩
    have given := (Node.gives_list_iff scope nodes _).mpr ⟨items, each, rfl⟩
    rw [Node.Gives, value_mapMerge scope name given, run]
    rfl

theorem gives_mapMerge_nested_iff (front middle back : List Node) (inner : String) (nested : Node)
    (fuller : Node.Fuller scope (.call .mapMerge inner (.list middle) none) nested) (value : Json) :
    Node.Gives scope (.call .mapMerge name (.list (front ++ nested :: back)) none) value ↔
      Node.Gives scope (.call .mapMerge name (.list (front ++ middle ++ back)) none) value := by
  have own (item : Json) : Node.Gives scope nested item ↔
      ∃ items output, List.Forall₂ (Node.Gives scope) middle items ∧
        mergeOnto [] items = .ok output ∧ item = .object output := by
    rw [Node.Gives, fuller.value]
    exact gives_mapMerge_iff scope inner middle item
  simp only [gives_mapMerge_iff, forall₂_append_left_iff, List.forall₂_cons_left_iff, own]
  constructor
  · rintro ⟨_, output, ⟨first, _, before, ⟨_, third, ⟨second, merged, each, run, rfl⟩, after, rfl⟩,
      rfl⟩, whole, rfl⟩
    exact ⟨_, output, ⟨_, third, ⟨first, second, before, each, rfl⟩, after, rfl⟩,
      (mergeOnto_nested_iff ..).mpr ⟨merged, run, whole⟩, rfl⟩
  · rintro ⟨_, output, ⟨_, third, ⟨first, second, before, each, rfl⟩, after, rfl⟩, whole, rfl⟩
    obtain ⟨merged, run, rest⟩ := (mergeOnto_nested_iff ..).mp whole
    exact ⟨_, output, ⟨first, _, before, ⟨_, third, ⟨second, merged, each, run, rfl⟩, after, rfl⟩,
      rfl⟩, rest, rfl⟩

/-- Merging maps gives every key its last value and its first place.  What stands for an empty map
changes nothing, maps in a row can be merged before the others, and an item that is neither a map
nor null makes the call fail. -/
theorem map_merge_last_wins_in_order :
    (∀ (args : Node) (items : List Json) (maps : List Object),
      Node.Gives scope args (.list items) → List.Forall₂ IsMap items maps →
      (∀ map ∈ maps, Entries.Distinct map) →
      ∃ merged, Node.Gives scope (.call .mapMerge name args none) (.object merged) ∧
        Merged maps merged) ∧
    (∀ (args fewer : Node) (front back : List Json) (x : Json), IsMap x [] →
      Node.Gives scope args (.list (front ++ x :: back)) →
      Node.Gives scope fewer (.list (front ++ back)) →
      (Node.resolve scope (.call .mapMerge name args none)).value =
        (Node.resolve scope (.call .mapMerge name fewer none)).value) ∧
    (∀ (front middle back : List Node) (inner : String) (nested : Node),
      Node.Fuller scope (.call .mapMerge inner (.list middle) none) nested →
      ∀ value, Node.Gives scope (.call .mapMerge name (.list (front ++ nested :: back)) none) value ↔
        Node.Gives scope (.call .mapMerge name (.list (front ++ middle ++ back)) none) value) ∧
    ∀ (args : Node) (items : List Json) (x : Json), Node.Gives scope args (.list items) →
      x ∈ items → (∀ map, ¬ IsMap x map) →
      (Node.resolve scope (.call .mapMerge name args none)).value =
        .error (.invalid name .mergeNotMaps) := by
  refine ⟨?_, ?_, gives_mapMerge_nested_iff scope name, ?_⟩
  · intro args items maps given each distinct
    have run := (mergeOnto_ok_iff [] _ items).mpr ⟨maps, each, rfl⟩
    refine ⟨_, ?_, merged_putAll distinct⟩
    rw [Node.Gives, value_mapMerge scope name given, run]
    rfl
  · intro args fewer front back x empty given without
    rw [value_mapMerge scope name given, value_mapMerge scope name without,
      mergeOnto_of_empty [] empty]
  · intro args items x given member neither
    rw [value_mapMerge scope name given, mergeOnto_of_not_isMap [] member neither]
    rfl

end Call

def defaultLimits : Object :=
  [("cpu", .ofInt 1), ("memory", .ofInt 1)]

def groupLimits : Object :=
  [("disk", .ofInt 2), ("memory", .ofInt 2)]

def ownLimits : Object :=
  [("cpu", .ofInt 3), ("swap", .ofInt 3)]

def serverLimits : Object :=
  [("cpu", .ofInt 3), ("memory", .ofInt 2), ("disk", .ofInt 2), ("swap", .ofInt 3)]

def serverLayers : List Node :=
  [.literal (.object groupLimits), .literal .null, .literal (.object ownLimits)]

def mergedBefore : Node :=
  .call .mapMerge "map_merge" (.list serverLayers) (some (.object
    [("disk", .ofInt 2), ("memory", .ofInt 2), ("cpu", .ofInt 3), ("swap", .ofInt 3)]))

theorem map_merge_last_wins_in_order_limits :
    Node.Gives ⟨[], ⟨[], [], [], none⟩⟩
        (.call .mapMerge "map_merge" (.list [.literal (.object defaultLimits), mergedBefore]) none)
        (.object serverLimits) ∧
      Merged [defaultLimits, groupLimits, [], ownLimits] serverLimits ∧
      (Node.resolve ⟨[], ⟨[], [], [], none⟩⟩ (.call .mapMerge "map_merge"
        (.literal (.list [.object defaultLimits, .string "cpu", .null])) none)).value =
        .error (.invalid "map_merge" .mergeNotMaps) := by
  obtain ⟨merges, -, nests, fails⟩ :=
    map_merge_last_wins_in_order ⟨[], ⟨[], [], [], none⟩⟩ "map_merge"
  have distinct : ∀ map ∈ [defaultLimits, groupLimits, [], ownLimits], Entries.Distinct map := by
    unfold Entries.Distinct
    decide
  have maps : List.Forall₂ IsMap
      [.object defaultLimits, .object groupLimits, .null, .object ownLimits]
      [defaultLimits, groupLimits, [], ownLimits] :=
    .cons (.object _) (.cons (.object _) (.cons .null (.cons (.object _) .nil)))
  obtain ⟨merged, given, facts⟩ :=
    merges (.list (.literal (.object defaultLimits) :: serverLayers)) _ _ rfl maps distinct
  have flat : Node.Gives ⟨[], ⟨[], [], [], none⟩⟩ (.call .mapMerge "map_merge"
      (.list (.literal (.object defaultLimits) :: serverLayers)) none) (.object serverLimits) := rfl
  obtain rfl : merged = serverLimits := by
    simpa using Except.ok.inj (given.symm.trans flat)
  refine ⟨?_, facts, ?_⟩
  · refine (nests [.literal (.object defaultLimits)] serverLayers [] "map_merge" mergedBefore
      ?_ _).mpr flat
    refine .call .mapMerge "map_merge" _ _ none _ .refl (by simp) fun value _ same => ?_
    cases same
    rfl
  · exact fails _ [.object defaultLimits, .string "cpu", .null] (.string "cpu") rfl (by simp)
      fun map isMap => nomatch isMap

end Functions

end Orchestration
