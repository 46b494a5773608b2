import Orchestration.Proofs.Migration.Descent
import Orchestration.Proofs.Results

/-!
# The maps that a descent changes

A descent that goes through lists and creates missing maps comes to maps below maps, below the maps
of lists and below maps that it creates where the schema declares them.  `Reached` says which maps
those are, and `Spread` that each of them was changed and the rest stayed as it was.
-/

set_option autoImplicit false

namespace Orchestration.Migration

/-! ## The maps that a path comes to -/

/-- A path comes to a map: where it is, its schema and its entries.  On the way are maps, the maps
of lists, and new maps where nothing or null stands and the schema declares a map. -/
inductive Reached : List String → Option Schema → Object → List Json → Option Schema → Object → Prop
    where
  | target (key : String) (schema : Option Schema) (data : Object) :
    Reached [key] schema data [] schema data
  | map (key next : String) (rest : List String) (schema inner : Option Schema)
    (data child held : Object) (location : List Json)
    (there : Entries.get? data key = some (.object child))
    (below : Reached (next :: rest) (schema.bind fun s => s.child? key) child location inner held) :
    Reached (key :: next :: rest) schema data (.string key :: location) inner held
  | item (key next : String) (rest : List String) (schema inner : Option Schema)
    (data child held : Object) (location items : List Json) (i : Nat)
    (there : Entries.get? data key = some (.list items))
    (element : items[i]? = some (.object child))
    (below : Reached (next :: rest) (schema.bind fun s => s.child? key) child location inner held) :
    Reached (key :: next :: rest) schema data (.string key :: .ofInt i :: location) inner held
  | created (key next : String) (rest : List String) (schema inner : Option Schema)
    (data held : Object) (location : List Json)
    (vacant : Entries.get? data key = none ∨ Entries.get? data key = some .null)
    (declared : declaresMap schema key = true)
    (below : Reached (next :: rest) (schema.bind fun s => s.child? key) [] location inner held) :
    Reached (key :: next :: rest) schema data (.string key :: location) inner held

inductive Item (below : Object → Object → Prop) : Json → Json → Prop where
  | map (child left : Object) (inside : below child left) :
    Item below (.object child) (.object left)
  | other (x : Json) (notMap : ∀ child, x ≠ .object child) : Item below x x

inductive Through (declared : Bool) (below : Object → Object → Prop) :
    Option Json → Option Json → Prop where
  | map (child left : Object) (inside : below child left) :
    Through declared below (some (.object child)) (some (.object left))
  | list (items after : List Json) (each : List.Forall₂ (Item below) items after) :
    Through declared below (some (.list items)) (some (.list after))
  | created (slot : Option Json) (left : Object) (vacant : slot = none ∨ slot = some .null)
    (allowed : declared = true) (inside : below [] left) :
    Through declared below slot (some (.object left))
  | stopped (slot : Option Json)
    (undeclared : slot = none ∨ slot = some .null → declared = false)
    (notMap : ∀ child, slot ≠ some (.object child)) (notList : ∀ items, slot ≠ some (.list items)) :
    Through declared below slot slot

/-- The properties became others by a change of every map that a path comes to, and of nothing
else. -/
def Spread (change : Option Schema → Object → Object → Prop) :
    List String → Option Schema → Object → Object → Prop
  | [], _, data, left => left = data
  | [_], schema, data, left => change schema data left
  | key :: next :: rest, schema, data, left =>
    ∃ slot, Through (declaresMap schema key)
        (Spread change (next :: rest) (schema.bind fun s => s.child? key))
        (Entries.get? data key) slot ∧
      left = store data key slot

section Spread

variable {op : Descent} {change : Option Schema → Object → Object → Prop}

theorem item_of_passed {visit : Object → Change Object Bool} {below : Object → Object → Prop}
    {items after : List Json} {wrote : Bool} (passed : Passed visit items wrote after)
    (each : ∀ child wrote left, visit child = (.ok wrote, left) → below child left) :
    List.Forall₂ (Item below) items after := by
  induction passed with
  | nil => exact .nil
  | map child left rest behind first more here below ih =>
    exact .cons (.map child left (each child first left here)) ih
  | other item rest behind more other below ih => exact .cons (.other item other) ih

theorem run_spread (opens : op.opens = true) (spreads : op.spreads = true) (path : List String)
    (acts : ∀ key, path.getLast? = some key → ∀ schema data wrote left,
      op.act schema data key = (.ok wrote, left) → change schema data left)
    (schema : Option Schema) (data : Object) (wrote : Bool) (left : Object)
    (done : op.run path schema data = (.ok wrote, left)) :
    Spread change path schema data left := by
  induction path generalizing schema data wrote left with
  | nil =>
    cases done
    rfl
  | cons key path ih =>
    cases path with
    | nil => exact acts key rfl schema data wrote left done
    | cons next rest =>
      have below := ih (fun last here => acts last here) (schema.bind fun s => s.child? key)
      rw [Descent.run_cons] at done
      obtain ⟨answer, rfl⟩ := Prod.mk.injEq .. ▸ done
      refine ⟨_, ?_, rfl⟩
      rcases slot_cases (Entries.get? data key) with ⟨child, here⟩ | ⟨items, here⟩ | vacant | closed
      · rw [here] at answer ⊢
        exact .map child _ (below child wrote _ (Prod.ext answer rfl))
      · rw [here, Descent.inside_list, if_pos spreads] at answer ⊢
        exact .list items _ (item_of_passed ((passed_iff ..).mp (Prod.ext answer rfl)) below)
      · rw [Descent.inside_vacant _ _ _ _ vacant] at answer ⊢
        by_cases declared : declaresMap schema key = true
        · have opened : (declaresMap schema key && op.opens) = true := by rw [declared, opens]; rfl
          rw [if_pos opened] at answer ⊢
          exact .created _ _ vacant declared (below [] wrote _ (Prod.ext answer rfl))
        · have stays : ¬ (declaresMap schema key && op.opens) = true := fun both =>
            declared (Bool.and_eq_true_iff.mp both).1
          rw [if_neg stays]
          refine .stopped _ (fun _ => Bool.eq_false_iff.mpr declared) (fun child here => ?_)
            fun items here => ?_
          all_goals rw [here] at vacant; simp at vacant
      · rw [Descent.inside_closed _ _ _ _ closed]
        obtain ⟨value, here, notMap, notList, notNull⟩ := closed
        refine .stopped _ (fun vacant => ?_) (fun child there => ?_) fun items there => ?_
        · rw [here] at vacant
          simp [notNull] at vacant
        · exact notMap child (Option.some.inj (here.symm.trans there))
        · exact notList items (Option.some.inj (here.symm.trans there))

namespace Through

variable {declared : Bool} {below : Object → Object → Prop} {slot : Option Json}

theorem of_map {child : Object} (through : Through declared below (some (.object child)) slot) :
    ∃ left, slot = some (.object left) ∧ below child left := by
  cases through with
  | map child left inside => exact ⟨left, rfl, inside⟩
  | created slot left vacant => simp at vacant
  | stopped slot undeclared notMap => exact absurd rfl (notMap child)

theorem of_list {items : List Json} (through : Through declared below (some (.list items)) slot) :
    ∃ after, slot = some (.list after) ∧ List.Forall₂ (Item below) items after := by
  cases through with
  | list items after each => exact ⟨after, rfl, each⟩
  | created slot left vacant => simp at vacant
  | stopped slot undeclared notMap notList => exact absurd rfl (notList items)

theorem of_vacant {before : Option Json} (through : Through declared below before slot)
    (vacant : before = none ∨ before = some .null) (allowed : declared = true) :
    ∃ left, slot = some (.object left) ∧ below [] left := by
  cases through with
  | map => simp at vacant
  | list => simp at vacant
  | created slot left _ _ inside => exact ⟨left, rfl, inside⟩
  | stopped slot undeclared => cases allowed.symm.trans (undeclared vacant)

end Through

theorem Spread.reached {path : List String} {schema inner : Option Schema} {data left held : Object}
    {location : List Json} (spread : Spread change path schema data left)
    (reached : Reached path schema data location inner held) :
    ∃ made, (Json.object left).at? location = some (.object made) ∧ change inner held made := by
  induction reached generalizing left with
  | target key schema data => exact ⟨left, rfl, spread⟩
  | map key next rest schema inner data child held location there below ih =>
    obtain ⟨slot, through, rfl⟩ := spread
    rw [there] at through
    obtain ⟨inside, rfl, spread⟩ := through.of_map
    obtain ⟨made, here, changed⟩ := ih spread
    refine ⟨made, ?_, changed⟩
    rw [at?_string_cons, store, Entries.get?_put, if_pos rfl]
    exact here
  | item key next rest schema inner data child held location items i there element below ih =>
    obtain ⟨slot, through, rfl⟩ := spread
    rw [there] at through
    obtain ⟨after, rfl, each⟩ := through.of_list
    rcases forall₂_getElem? each i with ⟨absent, -⟩ | ⟨x, y, before, here, item⟩
    · cases element.symm.trans absent
    cases element.symm.trans before
    cases item with
    | map child inside spread =>
      obtain ⟨made, located, changed⟩ := ih spread
      refine ⟨made, ?_, changed⟩
      rw [at?_string_cons, store, Entries.get?_put, if_pos rfl, Option.bind_some, at?_ofInt_cons,
        here]
      exact located
    | other _ notMap => exact absurd rfl (notMap child)
  | created key next rest schema inner data held location vacant declared below ih =>
    obtain ⟨slot, through, rfl⟩ := spread
    obtain ⟨inside, rfl, spread⟩ := through.of_vacant vacant declared
    obtain ⟨made, here, changed⟩ := ih spread
    refine ⟨made, ?_, changed⟩
    rw [at?_string_cons, store, Entries.get?_put, if_pos rfl]
    exact here

theorem along?_store (data : Object) (key : String) (rest : List String) (slot : Option Json)
    (absent : slot = none → Entries.get? data key = none) :
    (Json.object (store data key slot)).along? (key :: rest) = slot.bind (Json.along? rest) := by
  rw [Json.along?, get?_store data key slot absent]

theorem Spread.along {path : List String} {schema : Option Schema} {data left : Object}
    (spread : Spread change path schema data left)
    (keeps : ∀ key, path.getLast? = some key → ∀ schema held made, change schema held made →
      ∀ name rest value, (Json.object held).along? (name :: rest) = some value →
        ∃ after, (Json.object made).along? (name :: rest) = some after ∧
          (¬ (name :: rest) <+: [key] → after = value))
    (name : String) (rest : List String) (value : Json)
    (there : (Json.object data).along? (name :: rest) = some value) :
    ∃ after, (Json.object left).along? (name :: rest) = some after ∧
      (¬ (name :: rest) <+: path → after = value) := by
  induction path generalizing schema data left name rest with
  | nil =>
    cases spread
    exact ⟨value, there, fun _ => rfl⟩
  | cons key path ih =>
    cases path with
    | nil => exact keeps key rfl schema data left spread name rest value there
    | cons next others =>
      obtain ⟨slot, through, rfl⟩ := spread
      by_cases same : name = key
      · subst same
        obtain ⟨x, here, inside⟩ := Option.bind_eq_some_iff.mp there
        rw [here] at through
        have found (y : Json) : (Json.object (store data name (some y))).along? (name :: rest) =
            y.along? rest := along?_store data name rest (some y) (by simp)
        cases rest with
        | nil =>
          have begins : [name] <+: name :: next :: others := ⟨next :: others, rfl⟩
          cases slot with
          | none => cases through
          | some y => exact ⟨y, found y, fun apart => absurd begins apart⟩
        | cons first more =>
          cases x with
          | object child =>
            obtain ⟨made, rfl, below⟩ := through.of_map
            obtain ⟨after, along, kept⟩ :=
              ih below (fun last here => keeps last here) first more inside
            refine ⟨after, (found _).trans along, fun apart => kept fun ahead => apart ?_⟩
            exact List.cons_prefix_cons.mpr ⟨rfl, ahead⟩
          | _ => cases inside
      · refine ⟨value, ?_, fun _ => rfl⟩
        rw [Json.along?, get?_store_of_ne data key slot name (Ne.symm same)]
        exact there

end Spread

/-! ## Refusals -/

section Refusals

variable {op : Descent} {failure : Error}

theorem overMaps_error {visit : Object → Change Object Bool} (items : List Json) (e : Error)
    (failed : (overMaps visit items).1 = .error e) :
    ∃ child, .object child ∈ items ∧ (visit child).1 = .error e := by
  induction items with
  | nil => cases failed
  | cons item rest ih =>
    have later (failed : (overMaps visit rest).1 = .error e) :
        ∃ child, .object child ∈ item :: rest ∧ (visit child).1 = .error e := by
      obtain ⟨child, member, fails⟩ := ih failed
      exact ⟨child, List.mem_cons_of_mem _ member, fails⟩
    by_cases map : ∃ child, item = .object child
    · obtain ⟨child, rfl⟩ := map
      rw [overMaps_object] at failed
      cases here : (visit child).1 with
      | error e' =>
        rw [here] at failed
        cases failed
        exact ⟨child, List.mem_cons_self .., here⟩
      | ok wrote =>
        rw [here] at failed
        exact later ((map_eq_error_iff ..).mp failed)
    · rw [overMaps_other _ item rest fun child same => map ⟨child, same⟩] at failed
      exact later failed

theorem overMaps_fails {visit : Object → Change Object Bool}
    (only : ∀ child e, (visit child).1 = .error e → e = failure) (items : List Json)
    (child : Object) (member : .object child ∈ items) (fails : (visit child).1 = .error failure) :
    (overMaps visit items).1 = .error failure := by
  cases done : overMaps visit items with
  | mk answer left =>
    cases answer with
    | error e =>
      obtain ⟨other, -, failed⟩ := overMaps_error items e (by rw [done])
      rw [only other e failed]
    | ok wrote =>
      obtain ⟨i, element⟩ := List.mem_iff_getElem?.mp member
      obtain ⟨written, made, here, -⟩ := overMaps_item visit items left wrote done i child element
      rw [here] at fails
      cases fails

theorem run_error (path : List String) (schema : Option Schema) (data : Object) (e : Error)
    (failed : (op.run path schema data).1 = .error e) :
    ∃ key location inner held, path.getLast? = some key ∧
      Reached path schema data location inner held ∧ (op.act inner held key).1 = .error e := by
  induction path generalizing schema data e with
  | nil => cases failed
  | cons key path ih =>
    cases path with
    | nil => exact ⟨key, [], schema, data, rfl, .target key schema data, failed⟩
    | cons next rest =>
      have below := ih (schema.bind fun s => s.child? key)
      rw [Descent.run_cons] at failed
      rcases slot_cases (Entries.get? data key) with ⟨child, here⟩ | ⟨items, here⟩ | vacant | closed
      · rw [here] at failed
        obtain ⟨last, location, inner, held, ends, reached, fails⟩ := below child e failed
        exact ⟨last, _, inner, held, ends, .map _ _ _ _ _ _ _ _ _ here reached, fails⟩
      · rw [here, Descent.inside_list] at failed
        split at failed
        · obtain ⟨child, member, failed⟩ := overMaps_error items e failed
          obtain ⟨i, element⟩ := List.mem_iff_getElem?.mp member
          obtain ⟨last, location, inner, held, ends, reached, fails⟩ := below child e failed
          exact ⟨last, _, inner, held, ends, .item _ _ _ _ _ _ _ _ _ items i here element reached,
            fails⟩
        · cases failed
      · rw [Descent.inside_vacant _ _ _ _ vacant] at failed
        split at failed
        · rename_i opened
          obtain ⟨last, location, inner, held, ends, reached, fails⟩ := below [] e failed
          have declared := (Bool.and_eq_true_iff.mp opened).1
          exact ⟨last, _, inner, held, ends, .created _ _ _ _ _ _ _ _ vacant declared reached,
            fails⟩
        · cases failed
      · rw [Descent.inside_closed _ _ _ _ closed] at failed
        cases failed

theorem run_fails (opens : op.opens = true) (spreads : op.spreads = true) {path : List String}
    (only : ∀ key, path.getLast? = some key → ∀ schema data e,
      (op.act schema data key).1 = .error e → e = failure)
    {schema inner : Option Schema} {data held : Object} {location : List Json}
    (reached : Reached path schema data location inner held)
    (fails : ∀ key, path.getLast? = some key → (op.act inner held key).1 = .error failure) :
    (op.run path schema data).1 = .error failure := by
  induction reached with
  | target key schema data => exact fails key rfl
  | map key next rest schema inner data child held location there below ih =>
    rw [Descent.run_cons, there]
    exact ih only fails
  | item key next rest schema inner data child held location items i there element below ih =>
    rw [Descent.run_cons, there, Descent.inside_list, if_pos spreads]
    refine overMaps_fails (fun child e failed => ?_) items child
      (List.mem_iff_getElem?.mpr ⟨i, element⟩) (ih only fails)
    obtain ⟨last, -, inner, held, ends, -, failed⟩ := run_error _ _ child e failed
    exact only last ends inner held e failed
  | created key next rest schema inner data held location vacant declared below ih =>
    rw [Descent.run_cons, Descent.inside_vacant _ _ _ _ vacant, declared, opens]
    exact ih only fails

end Refusals

end Orchestration.Migration
