import Orchestration.Proofs.Migration.Footprint
import Orchestration.Proofs.Migration.Sources

/-!
# A rule keeps to its footprint

`Worked` says what becomes of a value that stands in the properties, references and the target apart:
lists keep their items, a map is reshaped, and a call of a removed function stays as it is.  Reading
the value path, walking to the targets, acting on them and taking away the source do nothing else, and
neither do they one after the other, also when the rule fails half-way.
-/

set_option autoImplicit false

namespace Orchestration.Migration

section Worked

variable (context : Context) (rule : Rule) (schema : Schema)

/-- What a rule makes of a value below some keys.  Anything may become of a reference, and of what
stands at the target. -/
inductive Worked : List String → Json → Json → Prop where
  | same (front : List String) (value : Json) : Worked front value value
  | reference {front : List String} {value after : Json}
    (known : context.function? value = some .getParam) : Worked front value after
  | vacant {front : List String} {after : Json} : Worked front .null after
  | list {front : List String} {before after : List Json} (length : after.length = before.length)
    (each : ∀ (i : Nat) (x y : Json), before[i]? = some x → after[i]? = some y →
      Worked front x y) : Worked front (.list before) (.list after)
  | map {front : List String} {before after : Object}
    (entered : context.function? (.object before) ≠ some .removed)
    (reshaped : Entries.Distinct before → rule.Reshapes schema front before after)
    (each : Entries.Distinct before → ∀ (key : String) (x y : Json),
      Entries.get? before key = some x → Entries.get? after key = some y →
      front ++ [key] ≠ rule.path → Worked (front ++ [key]) x y) :
    Worked front (.object before) (.object after)

structure WorkedMap (front : List String) (before after : Object) : Prop where
  reshaped : Entries.Distinct before → rule.Reshapes schema front before after
  each : Entries.Distinct before → ∀ (key : String) (x y : Json),
    Entries.get? before key = some x → Entries.get? after key = some y →
    front ++ [key] ≠ rule.path → Worked context rule schema (front ++ [key]) x y

end Worked

variable {context : Context} {rule : Rule} {schema : Schema} {front : List String}

theorem WorkedMap.refl (front : List String) (data : Object) :
    WorkedMap context rule schema front data data where
  reshaped distinct := .refl front distinct
  each _ key x y first second _ := by
    cases first.symm.trans second
    exact .same ..

theorem WorkedMap.worked {before after : Object}
    (worked : WorkedMap context rule schema front before after)
    (entered : context.function? (.object before) ≠ some .removed) :
    Worked context rule schema front (.object before) (.object after) :=
  .map entered worked.reshaped worked.each

/-! ## References -/

namespace Worked

theorem list_iff {before : List Json} {after : Json} :
    Worked context rule schema front (.list before) after ↔
      ∃ items, after = .list items ∧ items.length = before.length ∧
        ∀ (i : Nat) (x y : Json), before[i]? = some x → items[i]? = some y →
          Worked context rule schema front x y := by
  constructor
  · intro worked
    cases worked with
    | same =>
      refine ⟨before, rfl, rfl, fun i x y first second => ?_⟩
      cases first.symm.trans second
      exact .same ..
    | reference known => exact absurd known (not_reference_of_list before)
    | list length each => exact ⟨_, rfl, length, each⟩
  · rintro ⟨items, rfl, length, each⟩
    exact .list length each

theorem of_resolved (value after : Json)
    (worked : Worked context rule schema front (resolveParameter context value).2 after) :
    Worked context rule schema front value after := by
  have single : ∀ value after : Json, (∀ items, value ≠ .list items) →
      Worked context rule schema front (resolveParameter context value).2 after →
      Worked context rule schema front value after := by
    intro value after other worked
    rw [resolveParameter_of_not_list value other] at worked
    split at worked
    · exact worked
    · rename_i known
      exact .reference known
    · exact worked
  induction value using Json.parts_induction generalizing after with
  | list items ih =>
    rw [resolveParameter] at worked
    obtain ⟨left, rfl, length, each⟩ := list_iff.mp worked
    rw [resolveItems_length] at length
    refine .list length fun i x y first second => ?_
    rcases resolveItems_item items i x first with done | untouched
    · exact ih x (List.mem_of_getElem? first) y (each i _ y done second)
    · exact each i x y untouched second
  | _ => exact single _ _ (by simp) worked

theorem of_entered (value after : Json) (goesOn : (resolveParameter context value).1 = .ok true)
    (worked : context.function? (resolveParameter context value).2 ≠ some .removed →
      Worked context rule schema front (resolveParameter context value).2 after) :
    Worked context rule schema front value after := by
  by_cases reference : context.function? value = some .getParam
  · exact .reference reference
  · refine of_resolved value after (worked ?_)
    by_cases list : ∃ items, value = .list items
    · obtain ⟨items, rfl⟩ := list
      rw [resolveParameter]
      intro removed
      cases removed
    · have other : ∀ items, value ≠ .list items := fun items same => list ⟨items, same⟩
      rw [resolveParameter_of_not_list value other] at goesOn ⊢
      split
      · rename_i removed
        rw [removed] at goesOn
        cases goesOn
      · rename_i known
        exact absurd known reference
      · assumption

theorem list_of_entered (value : Json) (items after : List Json)
    (goesOn : (resolveParameter context value).1 = .ok true)
    (resolved : (resolveParameter context value).2 = .list items)
    (length : after.length = items.length)
    (each : ∀ (i : Nat) (x y : Json), items[i]? = some x → after[i]? = some y →
      context.function? x ≠ some .removed → Worked context rule schema front x y) :
    Worked context rule schema front value (.list after) := by
  by_cases list : ∃ origin, value = .list origin
  · obtain ⟨origin, rfl⟩ := list
    rw [resolveParameter] at goesOn resolved
    cases resolved
    rw [resolveItems_length] at length
    refine .list length fun i x y first second => ?_
    obtain ⟨goesOn, done⟩ := resolveItems_all origin goesOn i x first
    exact .of_entered x y goesOn fun entered => each i _ y done second entered
  · have other : ∀ items, value ≠ .list items := fun items same => list ⟨items, same⟩
    rw [resolveParameter_of_not_list value other] at goesOn resolved
    split at resolved
    · rename_i removed
      rw [removed] at goesOn
      cases goesOn
    · rename_i known
      exact .reference known
    · exact absurd resolved (other items)

end Worked

/-! ## Writing and removing one entry -/

namespace WorkedMap

theorem put {before after : Object} (worked : WorkedMap context rule schema front before after)
    (key : String) (value : Json) (touched : rule.Touches (front ++ [key]))
    (absent : Entries.get? before key = none → Entries.get? after key = none →
      rule.Brings schema front before key)
    (present : Entries.Distinct before → ∀ x, Entries.get? before key = some x →
      front ++ [key] ≠ rule.path → Worked context rule schema (front ++ [key]) x value) :
    WorkedMap context rule schema front before (Entries.put after key value) where
  reshaped distinct := (worked.reshaped distinct).put key value touched absent
  each distinct other x y first second free := by
    rw [Entries.get?_put] at second
    split at second
    · rename_i same
      subst same
      cases second
      exact present distinct x first free
    · exact worked.each distinct other x y first second free

theorem of_put (data after : Object) (key : String) (x y : Json)
    (there : Entries.get? data key = some x) (touched : rule.Touches (front ++ [key]))
    (stands : ∀ z, Worked context rule schema (front ++ [key]) y z →
      Worked context rule schema (front ++ [key]) x z)
    (worked : WorkedMap context rule schema front (Entries.put data key y) after) :
    WorkedMap context rule schema front data after where
  reshaped distinct :=
    .of_put there touched (worked.reshaped (Entries.distinct_put distinct key y))
  each distinct other first second before after free := by
    have each := worked.each (Entries.distinct_put distinct key y) other
    simp only [Entries.get?_put] at each
    by_cases same : key = other
    · subst same
      cases there.symm.trans before
      exact stands second (each y second (if_pos rfl) after free)
    · exact each first second (by rw [if_neg same, before]) after free

theorem erase {before after : Object} (worked : WorkedMap context rule schema front before after)
    (key : String) (takes : rule.TakesAway (front ++ [key])) :
    WorkedMap context rule schema front before (Entries.erase after key) where
  reshaped distinct := (worked.reshaped distinct).erase key takes
  each distinct other x y first second free := by
    rw [Entries.get?_erase after (worked.reshaped distinct).distinct] at second
    split at second
    · cases second
    · exact worked.each distinct other x y first second free

theorem update {before after : Object} (worked : WorkedMap context rule schema front before after)
    (key : String) (y z : Json) (there : Entries.get? after key = some y)
    (touched : rule.Touches (front ++ [key]))
    (more : ∀ x, Entries.get? before key = some x →
      Worked context rule schema (front ++ [key]) x y →
      Worked context rule schema (front ++ [key]) x z) :
    WorkedMap context rule schema front before (Entries.put after key z) := by
  refine worked.put key z touched (fun _ gone => ?_) fun distinct x present free => ?_
  · cases there.symm.trans gone
  · exact more x present (worked.each distinct key x y present there free)

end WorkedMap

/-! ## Reading a value path -/

namespace WorkedMap

theorem of_resolveSlot (data after : Object) (key : String)
    (touched : rule.Touches (front ++ [key]))
    (worked : WorkedMap context rule schema front (resolveSlot context data key).2 after) :
    WorkedMap context rule schema front data after := by
  cases present : Entries.get? data key with
  | none => rwa [resolveSlot_absent data key present] at worked
  | some x =>
    rw [resolveSlot_present data key x present] at worked
    exact of_put data after key x _ present touched (Worked.of_resolved x) worked

theorem lift {first second : Object} (same : Entries.keys first = Entries.keys second)
    (stands : ∀ after, WorkedMap context rule schema front second after →
      WorkedMap context rule schema front first after)
    (entered : context.function? (.object first) ≠ some .removed) (after : Json)
    (worked : Worked context rule schema front (.object second) after) :
    Worked context rule schema front (.object first) after := by
  cases worked with
  | same => exact (stands second (.refl front second)).worked entered
  | reference known => exact .reference ((context.function?_of_keys first second same).trans known)
  | map _ reshaped each => exact (stands _ ⟨reshaped, each⟩).worked entered

theorem of_valueAt (path : List String) (source : rule.valuePath = some (front ++ path))
    (data after : Object)
    (worked : WorkedMap context rule schema front (valueAt context path data).2 after) :
    WorkedMap context rule schema front data after := by
  induction path generalizing front data after with
  | nil => exact worked
  | cons key rest ih =>
    have touched : rule.Touches (front ++ [key]) := .source _ source ⟨rest, by simp⟩
    have resolved : WorkedMap context rule schema front (resolveSlot context data key).2 after →
        WorkedMap context rule schema front data after := of_resolveSlot data after key touched
    rw [valueAt] at worked
    cases slot : resolveSlot context data key with
    | mk answer seen =>
      rw [slot] at worked resolved
      rcases answer with _ | _ | _
      · exact resolved worked
      · exact resolved worked
      · simp only at worked
        split at worked
        · exact resolved worked
        · rename_i next others child here
          obtain ⟨x, there, rfl, goesOn, stood⟩ := slot_entered data seen key _ slot here
          rw [Entries.put_put] at worked
          refine of_put data after key x _ there touched (fun z inside => ?_) worked
          refine .of_entered x z goesOn fun entered => ?_
          rw [stood] at entered ⊢
          have source' : rule.valuePath = some ((front ++ [key]) ++ next :: others) := by
            simpa using source
          exact lift (keys_valueAt (next :: others) child).symm
            (fun left => ih source' child left) entered z inside
        · exact resolved worked
        · exact resolved worked

/-! ## Walking to the targets -/

theorem of_actAt {key : String} (target : front ++ [key] = rule.path) (below : Option Schema)
    (source : Source) (sourced : source.value ≠ none → rule.value ≠ none ∨ rule.valuePath ≠ none)
    (data : Object)
    (declared : declaredAt (some schema) rule.path = below.bind fun s => Entries.get? s key) :
    WorkedMap context rule schema front data
      (actAt context rule below source data key).2 where
  reshaped distinct := .of_actAt target distinct below source sourced declared
  each distinct other x y first second free := by
    have apart : key ≠ other := fun same => free (same ▸ target)
    rcases get?_actAt context rule below source data key distinct other apart with kept | ⟨gone, -⟩
    · cases (kept.trans first).symm.trans second
      exact .same ..
    · cases gone.symm.trans second

section Open

variable {key : String} {below : Option Schema} (above : front ++ [key] <+: rule.path)
  (apart : front ++ [key] ≠ rule.path)
  (declared : declaredAt (some schema) (front ++ [key]) = below.bind fun s => Entries.get? s key)
include above apart declared

theorem of_opened (data : Object) (value : Json) (opens : openBelow rule below data key ≠ data) :
    WorkedMap context rule schema front data (Entries.put data key value) := by
  rcases openBelow_vacant rule below data key with same | ⟨_, vacant, creates, map⟩
  · exact absurd same opens
  · have creates : rule.Creates schema (front ++ [key]) :=
      .opens ⟨above, apart, creates, by rwa [declared]⟩
    refine (refl front data).put key value (.target above) (fun _ _ => .creates creates)
      fun _ x there _ => ?_
    rcases vacant with absent | null
    · cases absent.symm.trans there
    · cases null.symm.trans there
      exact .vacant

theorem of_openBelow (data : Object) :
    WorkedMap context rule schema front data (openBelow rule below data key) := by
  by_cases opens : openBelow rule below data key = data
  · rw [opens]
    exact .refl ..
  · rcases openBelow_cases rule below data key with same | created
    · exact absurd same opens
    · have stays : WorkedMap context rule schema front data
          (Entries.put data key (.object [])) := of_opened above apart declared data _ opens
      rwa [created]

theorem of_entry (data : Object) (value after : Json)
    (goesOn : (resolveSlot context data key).1 = .ok true)
    (there : Entries.get? (openBelow rule below (resolveSlot context data key).2 key) key =
      some value)
    (worked : ∀ x, (resolveParameter context x).1 = .ok true →
      (resolveParameter context x).2 = value →
      Worked context rule schema (front ++ [key]) x after) :
    WorkedMap context rule schema front data
      (Entries.put (openBelow rule below (resolveSlot context data key).2 key) key after) := by
  have touched : rule.Touches (front ++ [key]) := .target above
  by_cases opens : openBelow rule below (resolveSlot context data key).2 key =
    (resolveSlot context data key).2
  · rw [opens] at there ⊢
    obtain ⟨x, present, resolved, goesOn, stood⟩ :=
      slot_entered data (resolveSlot context data key).2 key value (Prod.ext goesOn rfl) there
    rw [resolved, Entries.put_put]
    refine (refl front data).put key after touched (fun missing _ => ?_) fun _ x' there' _ => ?_
    · cases present.symm.trans missing
    · cases present.symm.trans there'
      exact worked x goesOn stood
  · rcases openBelow_cases rule below (resolveSlot context data key).2 key with same | created
    · exact absurd same opens
    · rw [created, Entries.put_put]
      exact of_resolveSlot data _ key touched (of_opened above apart declared _ after opens)

end Open

theorem of_walk (source : Source)
    (sourced : source.value ≠ none → rule.value ≠ none ∨ rule.valuePath ≠ none)
    (path : List String) (whole : front ++ path = rule.path) (below : Option Schema) (data : Object)
    (declared : DeclaredBelow schema front below) :
    WorkedMap context rule schema front data (walk context rule source path below data).2 := by
  induction path generalizing front below data with
  | nil => exact .refl ..
  | cons key path ih =>
    have above : front ++ [key] <+: rule.path := ⟨path, by simpa using whole⟩
    have here := declared.here key
    have resolved : ∀ after,
        WorkedMap context rule schema front (resolveSlot context data key).2 after →
        WorkedMap context rule schema front data after :=
      fun after => of_resolveSlot data after key (.target above)
    cases path with
    | nil =>
      rw [walk]
      apply resolved
      cases slot : resolveSlot context data key with
      | mk answer seen =>
        rcases answer with _ | _ | _
        · exact .refl ..
        · exact .refl ..
        · exact of_actAt whole below source sourced seen (whole ▸ here)
    | cons next rest =>
      have apart : front ++ [key] ≠ rule.path := by simp [← whole]
      have visit : ∀ child, WorkedMap context rule schema (front ++ [key]) child
          (walk context rule source (next :: rest) (below.bind fun s => s.child? key) child).2 :=
        fun child => ih (by simpa using whole) _ child (declared.child key)
      rw [walk_cons]
      cases step : ground context rule below data key with
      | mk found opened =>
        obtain ⟨left, met⟩ := ground_cases context rule below data opened key found step
        have idle : WorkedMap context rule schema front data opened := by
          rcases left with rfl | rfl
          · exact resolved _ (.refl ..)
          · exact resolved _ (of_openBelow above apart here _)
        cases found with
        | failed e => exact idle
        | closed => exact idle
        | map child =>
          obtain ⟨goesOn, rfl, there⟩ := met _ (.inl ⟨child, rfl, rfl⟩)
          refine of_entry above apart here data _ _ goesOn there fun x goesOn stood => ?_
          refine .of_entered x _ goesOn fun entered => ?_
          rw [stood] at entered ⊢
          exact (visit child).worked entered
        | list items =>
          obtain ⟨goesOn, rfl, there⟩ := met _ (.inr ⟨items, rfl, rfl⟩)
          refine of_entry above apart here data _ _ goesOn there fun x goesOn stood => ?_
          refine .list_of_entered x items _ goesOn stood (overMaps_length _ items)
            fun i item left first second entered => ?_
          rcases overMaps_items _ items i item left first second with rfl | ⟨child, rfl, rfl⟩
          · exact .same ..
          · exact (visit child).worked entered

end WorkedMap

/-! ## Taking away the source -/

/-- No call of a removed function stands on the way of some keys through maps, references and what
is in them apart. -/
def Context.Passes (context : Context) : List String → Object → Prop
  | [], _ => True
  | key :: rest, data => ∀ x, Entries.get? data key = some x →
    context.function? x ≠ some .removed ∧
      (context.function? x ≠ some .getParam → ∀ child, x = .object child →
        context.Passes rest child)

theorem passes_of_found (path : List String) (data seen : Object) (value : Json)
    (found : valueAt context path data = (.ok (.found value), seen)) :
    context.Passes path data := by
  induction path generalizing data seen with
  | nil => trivial
  | cons key rest ih =>
    intro x there
    rw [valueAt, resolveSlot_present data key x there] at found
    have entered : context.function? x ≠ some .removed := by
      intro removed
      have other : ∀ items, x ≠ .list items := by
        rintro items rfl
        cases removed
      rw [resolveParameter_of_not_list x other, removed] at found
      cases found
    refine ⟨entered, ?_⟩
    rintro unresolved child rfl
    have settled : resolveParameter context (.object child) = (.ok true, .object child) := by
      rw [resolveParameter_of_not_list _ (by simp)]
      split
      · rename_i removed
        exact absurd removed entered
      · rename_i reference
        exact absurd reference unresolved
      · rfl
    cases rest with
    | nil => trivial
    | cons next others =>
      rw [settled] at found
      simp only [Entries.get?_put, if_true] at found
      obtain ⟨inside, _⟩ := Prod.mk.inj found
      exact ih child _ (Prod.ext inside rfl)

theorem Worked.within {x : Json} {child after : Object} (may : Object → Prop)
    (entered : context.function? x ≠ some .removed)
    (passes : context.function? x ≠ some .getParam → ∀ before, x = .object before → may before)
    (stands : ∀ before, may before → WorkedMap context rule schema front before child →
      WorkedMap context rule schema front before after)
    (worked : Worked context rule schema front x (.object child)) :
    Worked context rule schema front x (.object after) := by
  by_cases reference : context.function? x = some .getParam
  · exact .reference reference
  · cases worked with
    | same => exact (stands child (passes reference child rfl) (.refl ..)).worked entered
    | reference known => exact .reference known
    | vacant => exact .vacant
    | map _ reshaped each =>
      exact (stands _ (passes reference _ rfl) ⟨reshaped, each⟩).worked entered

theorem WorkedMap.of_removeAt (replaces : rule.kind = .replace) (path : List String)
    (source : rule.valuePath = some (front ++ path)) (before after : Object)
    (passes : context.Passes path before)
    (worked : WorkedMap context rule schema front before after) :
    WorkedMap context rule schema front before (removeAt path after) := by
  induction path generalizing front before after with
  | nil => exact worked
  | cons key rest ih =>
    cases rest with
    | nil => exact worked.erase key (.source source replaces)
    | cons next others =>
      have touched : rule.Touches (front ++ [key]) := .source _ source ⟨next :: others, by simp⟩
      have source' : rule.valuePath = some ((front ++ [key]) ++ next :: others) := by
        simpa using source
      rw [removeAt]
      split
      · rename_i child there
        refine worked.update key _ _ there touched fun x present inside => ?_
        -- The child that stands there now came of some map before, and only that one is known to
        -- let the rule through.
        obtain ⟨entered, inner⟩ := passes x present
        exact inside.within (context.Passes (next :: others)) entered inner
          fun before => ih source' before child
      · exact worked

/-! ## Executing a rule -/

theorem Rule.write_worked (found : Option Json) (data seen : Object)
    (stands : ∀ after, WorkedMap context rule schema [] seen after →
      WorkedMap context rule schema [] data after)
    (passes : found.isSome = true → ∃ path, rule.valuePath = some path ∧ context.Passes path data) :
    WorkedMap context rule schema [] data (rule.write context schema found seen).2 := by
  have sourced : (rule.source found).value ≠ none → rule.value ≠ none ∨ rule.valuePath ≠ none := by
    cases found with
    | none => exact .inl
    | some value =>
      obtain ⟨path, reads, _⟩ := passes rfl
      exact fun _ => .inr (by simp [reads])
  have walked : WorkedMap context rule schema [] data
      (walk context rule (rule.source found) rule.path (some schema) seen).2 :=
    stands _ (.of_walk _ sourced rule.path rfl (some schema) seen (.root schema))
  unfold Rule.write
  simp only
  split
  · exact stands seen (.refl ..)
  · cases done : walk context rule (rule.source found) rule.path (some schema) seen with
    | mk answer left =>
      rw [done] at walked
      cases answer with
      | error e => exact walked
      | ok wrote =>
        simp only
        split
        · rename_i moves
          simp only [Bool.and_eq_true, beq_iff_eq] at moves
          obtain ⟨⟨_, fromPath⟩, replaces⟩ := moves
          obtain ⟨path, reads, passes⟩ := passes fromPath
          rw [reads]
          exact .of_removeAt replaces path (by rw [reads, List.nil_append]) data left passes walked
        · exact walked

theorem Rule.execute_worked (context : Context) (rule : Rule) (schema : Schema) (data : Object) :
    WorkedMap context rule schema [] data (rule.execute context schema data).2 := by
  unfold Rule.execute
  cases reads : rule.valuePath with
  | none => exact rule.write_worked none data data (fun _ => id) (by simp)
  | some path =>
    have seen : ∀ after, WorkedMap context rule schema [] (valueAt context path data).2 after →
        WorkedMap context rule schema [] data after :=
      fun after => .of_valueAt path reads data after
    simp only
    cases read : valueAt context path data with
    | mk answer left =>
      rw [read] at seen
      rcases answer with _ | value | _ | _
      · exact seen left (.refl ..)
      · exact rule.write_worked (some value) data left seen fun _ =>
          ⟨path, reads, passes_of_found path data left value read⟩
      · exact rule.write_worked none data left seen (by simp)
      · exact seen left (.refl ..)

end Orchestration.Migration
