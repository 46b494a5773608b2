import Orchestration.Migration.Apply
import Orchestration.Proofs.Migration.Parameters

/-!
# The maps that a rule comes to

A walk acts on every map that its path reaches, through maps and through the maps of lists.
`meetings` lists what a walk meets in turn: such a map with its place, or a reference that fails.
The answer of a walk is that of its acts in this order, and after a walk that succeeds each of the
maps is what its act left.
-/

set_option autoImplicit false

namespace Orchestration.Migration

/-- A map that a walk acts on: where it is, its schema, and its content with the target resolved. -/
structure Place where
  location : List Json
  schema : Option Schema
  data : Object

namespace Place

def within (front : List Json) (place : Place) : Place :=
  { place with location := front ++ place.location }

def act (context : Context) (rule : Rule) (source : Source) (key : String) (place : Place) :
    Change Object Bool :=
  actAt context rule place.schema source place.data key

end Place

abbrev Meeting : Type := Except Error Place

def Meeting.within (front : List Json) (meeting : Meeting) : Meeting :=
  meeting.map (Place.within front)

theorem Meeting.within_eq_ok_iff (front : List Json) (meeting : Meeting) (place : Place) :
    meeting.within front = .ok place ↔ ∃ inner, meeting = .ok inner ∧ inner.within front = place :=
  map_eq_ok_iff meeting (Place.within front) place

/-! ## One step of a walk -/

inductive Ground where
  | failed (error : Error)
  | closed
  | map (child : Object)
  | list (items : List Json)

variable (context : Context) (rule : Rule)

def ground (schema : Option Schema) (data : Object) (key : String) : Ground × Object :=
  match resolveSlot context data key with
  | (.error e, data) => (.failed e, data)
  | (.ok false, data) => (.closed, data)
  | (.ok true, data) =>
    let data := openBelow rule schema data key
    match Entries.get? data key with
    | some (.object child) => (.map child, data)
    | some (.list items) => (.list items, data)
    | _ => (.closed, data)

theorem walk_cons (source : Source) (key next : String) (rest : List String)
    (schema : Option Schema) (data : Object) :
    walk context rule source (key :: next :: rest) schema data =
      let visit := walk context rule source (next :: rest) (schema.bind fun s => s.child? key)
      match ground context rule schema data key with
      | (.failed e, data) => (.error e, data)
      | (.closed, data) => (.ok false, data)
      | (.map child, data) => ((visit child).1, Entries.put data key (.object (visit child).2))
      | (.list items, data) =>
        ((overMaps visit items).1, Entries.put data key (.list (overMaps visit items).2)) := by
  rw [walk, ground]
  obtain ⟨answer, resolved⟩ := resolveSlot context data key
  cases answer with
  | error e => rfl
  | ok open? =>
    cases open? with
    | false => rfl
    | true =>
      simp only
      cases Entries.get? (openBelow rule schema resolved key) key with
      | none => rfl
      | some value => cases value <;> rfl

theorem openBelow_cases (schema : Option Schema) (data : Object) (key : String) :
    openBelow rule schema data key = data ∨
      openBelow rule schema data key = Entries.put data key (.object []) := by
  unfold openBelow
  split
  · simp only
    split
    · exact .inr rfl
    · exact .inl rfl
  · simp only
    split
    · exact .inr rfl
    · exact .inl rfl
  · exact .inl rfl

theorem openBelow_vacant (below : Option Schema) (data : Object) (key : String) :
    openBelow rule below data key = data ∨
      openBelow rule below data key = Entries.put data key (.object []) ∧
        (Entries.get? data key = none ∨ Entries.get? data key = some .null) ∧
        rule.skipsMissing = false ∧
        ((below.bind fun s => Entries.get? s key).map PropertyType.isMap).getD false = true := by
  unfold openBelow
  split
  all_goals
    rename_i vacant
  · simp only
    split
    · rename_i opens
      simp only [Bool.and_eq_true, Bool.not_eq_true'] at opens
      exact .inr ⟨rfl, .inl vacant, opens.2, opens.1⟩
    · exact .inl rfl
  · simp only
    split
    · rename_i opens
      simp only [Bool.and_eq_true, Bool.not_eq_true'] at opens
      exact .inr ⟨rfl, .inr vacant, opens.2, opens.1⟩
    · exact .inl rfl
  · exact .inl rfl

theorem get?_openBelow_of_ne (schema : Option Schema) (data : Object) (key other : String)
    (apart : key ≠ other) :
    Entries.get? (openBelow rule schema data key) other = Entries.get? data other := by
  rcases openBelow_cases rule schema data key with same | put
  · rw [same]
  · rw [put, Entries.get?_put, if_neg apart]

theorem openBelow_wellFormed (schema : Option Schema) (data : Object) (key : String)
    (good : (Json.object data).WellFormed) :
    (Json.object (openBelow rule schema data key)).WellFormed := by
  rcases openBelow_cases rule schema data key with same | put
  · rwa [same]
  · rw [put]
    exact good.put key _ ((Json.wellFormed_object_iff []).mpr ⟨.nil, by simp⟩)

theorem get?_ground_of_ne (schema : Option Schema) (data : Object) (key other : String)
    (apart : key ≠ other) :
    Entries.get? (ground context rule schema data key).2 other = Entries.get? data other := by
  have slot : Entries.get? (resolveSlot context data key).2 other = Entries.get? data other :=
    get?_resolveSlot_of_ne data key other apart
  rw [ground]
  generalize resolveSlot context data key = found at slot
  match found with
  | (.error _, _) | (.ok false, _) => exact slot
  | (.ok true, resolved) =>
    simp only
    split <;> exact (get?_openBelow_of_ne rule schema resolved key other apart).trans slot

theorem get?_ground_map (schema : Option Schema) (data opened child : Object) (key : String)
    (found : ground context rule schema data key = (.map child, opened)) :
    Entries.get? opened key = some (.object child) := by
  rw [ground] at found
  split at found
  · cases found
  · cases found
  · simp only at found
    split at found <;> simp_all

theorem get?_ground_list (schema : Option Schema) (data opened : Object) (items : List Json)
    (key : String) (found : ground context rule schema data key = (.list items, opened)) :
    Entries.get? opened key = some (.list items) := by
  rw [ground] at found
  split at found
  · cases found
  · cases found
  · simp only at found
    split at found <;> simp_all

theorem ground_cases (below : Option Schema) (data opened : Object) (key : String) (found : Ground)
    (step : ground context rule below data key = (found, opened)) :
    (opened = (resolveSlot context data key).2 ∨
        opened = openBelow rule below (resolveSlot context data key).2 key) ∧
      ∀ value, (∃ child, found = .map child ∧ value = .object child) ∨
          (∃ items, found = .list items ∧ value = .list items) →
        (resolveSlot context data key).1 = .ok true ∧
          opened = openBelow rule below (resolveSlot context data key).2 key ∧
          Entries.get? opened key = some value := by
  rw [ground] at step
  split at step
  · rename_i resolved slot
    cases step
    exact ⟨.inl (by rw [slot]), by simp⟩
  · rename_i resolved slot
    cases step
    exact ⟨.inl (by rw [slot]), by simp⟩
  · rename_i resolved slot
    rw [slot]
    simp only at step
    split at step
    all_goals
      rename_i here
      cases step
    · exact ⟨.inr rfl, by simp [here]⟩
    · exact ⟨.inr rfl, by simp [here]⟩
    · exact ⟨.inr rfl, by simp⟩

theorem ground_wellFormed (parameters : context.WellFormed) (schema : Option Schema)
    (data : Object) (key : String) (good : (Json.object data).WellFormed) :
    (Json.object (ground context rule schema data key).2).WellFormed := by
  have slot := resolveSlot_wellFormed parameters data key good
  rw [ground]
  generalize resolveSlot context data key = found at slot
  match found with
  | (.error _, _) | (.ok false, _) => exact slot
  | (.ok true, resolved) =>
    simp only
    split <;> exact openBelow_wellFormed rule schema resolved key slot

/-! ## Going through a list -/

theorem overMaps_length (step : Object → Change Object Bool) (items : List Json) :
    (overMaps step items).2.length = items.length := by
  induction items with
  | nil => rfl
  | cons item rest ih =>
    cases item with
    | object child =>
      rw [overMaps]
      obtain ⟨answer, left⟩ := step child
      cases answer <;> simp [ih]
    | _ => rw [overMaps] <;> simp [ih]

theorem overMaps_items (step : Object → Change Object Bool) (items : List Json) (i : Nat)
    (x y : Json) (first : items[i]? = some x) (second : (overMaps step items).2[i]? = some y) :
    y = x ∨ ∃ child, x = .object child ∧ y = .object (step child).2 := by
  induction items generalizing i with
  | nil => simp at first
  | cons item rest ih =>
    cases item with
    | object child =>
      rw [overMaps] at second
      cases visited : step child with
      | mk answer left =>
        rw [visited] at second
        cases i with
        | zero =>
          cases first
          cases answer <;> (cases second; exact .inr ⟨child, rfl, by rw [visited]⟩)
        | succ i =>
          cases answer with
          | error e => exact .inl (Option.some.inj (second.symm.trans first))
          | ok wrote => exact ih i first second
    | _ =>
      rw [overMaps] at second
      · cases i with
        | zero => exact .inl (Option.some.inj (second.symm.trans first))
        | succ i => exact ih i first second
      · simp

/-! ## All that a walk meets -/

def inItems (visit : Object → List Meeting) (start : Nat) (items : List Json) : List Meeting :=
  (items.zipIdx start).flatMap fun (item, i) =>
    match item with
    | .object child => (visit child).map (Meeting.within [.ofInt i])
    | _ => []

def meetings : List String → Option Schema → Object → List Meeting
  | [], _, _ => []
  | [key], schema, data =>
    match resolveSlot context data key with
    | (.error e, _) => [.error e]
    | (.ok false, _) => []
    | (.ok true, data) => [.ok ⟨[], schema, data⟩]
  | key :: next :: rest, schema, data =>
    let visit := meetings (next :: rest) (schema.bind fun s => s.child? key)
    match (ground context rule schema data key).1 with
    | .failed e => [.error e]
    | .closed => []
    | .map child => (visit child).map (Meeting.within [.string key])
    | .list items => (inItems visit 0 items).map (Meeting.within [.string key])

theorem meetings_cons (key next : String) (rest : List String) (schema : Option Schema)
    (data : Object) :
    meetings context rule (key :: next :: rest) schema data =
      let visit := meetings context rule (next :: rest) (schema.bind fun s => s.child? key)
      match (ground context rule schema data key).1 with
      | .failed e => [.error e]
      | .closed => []
      | .map child => (visit child).map (Meeting.within [.string key])
      | .list items => (inItems visit 0 items).map (Meeting.within [.string key]) := by
  rw [meetings]

theorem mem_inItems (visit : Object → List Meeting) (items : List Json) (place : Place)
    (met : .ok place ∈ inItems visit 0 items) :
    ∃ (i : Nat) (child : Object) (inner : Place), items[i]? = some (.object child) ∧
      .ok inner ∈ visit child ∧ inner.within [.ofInt i] = place := by
  obtain ⟨⟨item, i⟩, member, inside⟩ := List.mem_flatMap.mp met
  have there := List.mem_zipIdx_iff_getElem?.mp member
  cases item with
  | object child =>
    obtain ⟨meeting, among, same⟩ := List.mem_map.mp inside
    obtain ⟨inner, rfl, placed⟩ := (Meeting.within_eq_ok_iff _ _ _).mp same
    exact ⟨i, child, inner, there, among, placed⟩
  | _ => cases inside

theorem mem_meetings_single (key : String) (schema : Option Schema) (data : Object)
    (place : Place) (met : .ok place ∈ meetings context rule [key] schema data) :
    ∃ resolved, resolveSlot context data key = (.ok true, resolved) ∧
      place = ⟨[], schema, resolved⟩ := by
  rw [meetings] at met
  split at met
  · cases List.mem_singleton.mp met
  · cases met
  · rename_i resolved slot
    cases List.mem_singleton.mp met
    exact ⟨resolved, slot, rfl⟩

theorem mem_meetings_cons (key next : String) (rest : List String) (schema : Option Schema)
    (data : Object) (place : Place)
    (met : .ok place ∈ meetings context rule (key :: next :: rest) schema data) :
    ∃ child inner opened,
      .ok inner ∈ meetings context rule (next :: rest) (schema.bind fun s => s.child? key) child ∧
      ((ground context rule schema data key = (.map child, opened) ∧
          place = inner.within [.string key]) ∨
        ∃ (items : List Json) (i : Nat),
          ground context rule schema data key = (.list items, opened) ∧
          items[i]? = some (.object child) ∧
          place = (inner.within [.ofInt i]).within [.string key]) := by
  rw [meetings_cons] at met
  cases step : ground context rule schema data key with
  | mk found opened =>
    rw [step] at met
    cases found with
    | failed e => cases List.mem_singleton.mp met
    | closed => cases met
    | map child =>
      obtain ⟨meeting, among, same⟩ := List.mem_map.mp met
      obtain ⟨inner, rfl, placed⟩ := (Meeting.within_eq_ok_iff _ _ _).mp same
      exact ⟨child, inner, opened, among, .inl ⟨rfl, placed.symm⟩⟩
    | list items =>
      obtain ⟨meeting, among, same⟩ := List.mem_map.mp met
      obtain ⟨inItem, rfl, placed⟩ := (Meeting.within_eq_ok_iff _ _ _).mp same
      obtain ⟨i, child, inner, there, visited, rfl⟩ := mem_inItems _ items inItem among
      exact ⟨child, inner, opened, visited, .inr ⟨items, i, rfl, there, placed.symm⟩⟩

/-- The maps that are met before a reference fails. -/
def untilFailure : List Meeting → List Place
  | .ok place :: rest => place :: untilFailure rest
  | _ => []

/-- The maps that a walk acts on unless an act fails. -/
def places (path : List String) (schema : Option Schema) (data : Object) : List Place :=
  untilFailure (meetings context rule path schema data)

theorem mem_of_untilFailure (met : List Meeting) (place : Place)
    (member : place ∈ untilFailure met) : .ok place ∈ met := by
  induction met with
  | nil => cases member
  | cons meeting rest ih =>
    cases meeting with
    | error e => cases member
    | ok first =>
      rcases List.mem_cons.mp member with rfl | later
      · exact List.mem_cons_self ..
      · exact List.mem_cons_of_mem _ (ih later)

/-! ## The answer of a walk -/

/-- Acts on what is met, in turn and up to an error; tells whether any act wrote something. -/
def inTurn (act : Place → Except Error Bool) : List Meeting → Except Error Bool
  | [] => .ok false
  | .error e :: _ => .error e
  | .ok place :: rest => (act place).bind fun wrote => (inTurn act rest).map (wrote || ·)

theorem inTurn_append (act : Place → Except Error Bool) (first second : List Meeting) :
    inTurn act (first ++ second) =
      (inTurn act first).bind fun wrote => (inTurn act second).map (wrote || ·) := by
  induction first with
  | nil =>
    rw [List.nil_append, inTurn]
    cases inTurn act second <;> rfl
  | cons meeting rest ih =>
    cases meeting with
    | error e => rfl
    | ok place =>
      rw [List.cons_append, inTurn, inTurn, ih]
      cases act place with
      | error e => rfl
      | ok wrote =>
        simp only [Except.bind]
        cases inTurn act rest with
        | error e => rfl
        | ok more =>
          cases inTurn act second with
          | error e => rfl
          | ok final => simp [Except.map, Bool.or_assoc]

theorem inTurn_within (source : Source) (key : String) (front : List Json) (met : List Meeting) :
    inTurn (fun place => (place.act context rule source key).1) (met.map (Meeting.within front)) =
      inTurn (fun place => (place.act context rule source key).1) met := by
  induction met with
  | nil => rfl
  | cons meeting rest ih =>
    cases meeting with
    | error e => rfl
    | ok place =>
      change Except.bind _ _ = Except.bind _ _
      rw [ih]
      rfl

theorem overMaps_answer (source : Source) (key : String) (step : Object → Change Object Bool)
    (visit : Object → List Meeting)
    (each : ∀ child,
      (step child).1 = inTurn (fun place => (place.act context rule source key).1) (visit child))
    (start : Nat) (items : List Json) :
    (overMaps step items).1 =
      inTurn (fun place => (place.act context rule source key).1) (inItems visit start items) := by
  induction items generalizing start with
  | nil => rfl
  | cons item rest ih =>
    have later := ih (start + 1)
    rw [inItems, List.zipIdx_cons, List.flatMap_cons]
    change _ = inTurn _ (_ ++ inItems visit (start + 1) rest)
    rw [inTurn_append, ← later]
    cases item with
    | object child =>
      simp only
      rw [inTurn_within, ← each child, overMaps]
      obtain ⟨answer, child⟩ := step child
      cases answer <;> rfl
    | _ =>
      rw [overMaps]
      · cases (overMaps step rest).1 <;> simp [inTurn, Except.bind, Except.map]
      · simp

theorem walk_answer (source : Source) (path : List String) (schema : Option Schema)
    (data : Object) :
    (walk context rule source path schema data).1 =
      inTurn (fun place => (place.act context rule source (path.getLastD "")).1)
        (meetings context rule path schema data) := by
  induction path generalizing schema data with
  | nil => rfl
  | cons key path ih =>
    cases path with
    | nil =>
      rw [walk, meetings]
      obtain ⟨answer, resolved⟩ := resolveSlot context data key
      cases answer with
      | error e => rfl
      | ok open? =>
        cases open? with
        | false => rfl
        | true =>
          simp only [inTurn, Place.act, List.getLastD_cons, List.getLastD_nil]
          cases (actAt context rule schema source resolved key).1 <;>
            simp [Except.bind, Except.map]
    | cons next rest =>
      have last : (key :: next :: rest).getLastD "" = (next :: rest).getLastD "" := by simp
      rw [walk_cons, meetings, last]
      obtain ⟨found, opened⟩ := ground context rule schema data key
      cases found with
      | failed e => rfl
      | closed => rfl
      | map child =>
        simp only
        rw [inTurn_within, ih]
      | list items =>
        simp only
        rw [inTurn_within]
        exact overMaps_answer context rule source _ _ _ (fun child => ih _ child) 0 items

/-- When acts can fail in one way only, one that fails before any reference does decides. -/
theorem inTurn_error (act : Place → Except Error Bool) (failure : Error)
    (only : ∀ place e, act place = .error e → e = failure) (met : List Meeting) (place : Place)
    (member : place ∈ untilFailure met) (fails : act place = .error failure) :
    inTurn act met = .error failure := by
  induction met with
  | nil => cases member
  | cons meeting rest ih =>
    cases meeting with
    | error e => cases member
    | ok first =>
      rw [inTurn]
      cases acted : act first with
      | error e => rw [only first e acted]; rfl
      | ok wrote =>
        rcases List.mem_cons.mp member with rfl | later
        · rw [fails] at acted
          cases acted
        · rw [ih later]
          rfl

theorem mem_untilFailure (act : Place → Except Error Bool) (met : List Meeting) (wrote : Bool)
    (done : inTurn act met = .ok wrote) (place : Place) (member : .ok place ∈ met) :
    place ∈ untilFailure met := by
  induction met generalizing wrote with
  | nil => cases member
  | cons meeting rest ih =>
    cases meeting with
    | error e => cases done
    | ok first =>
      obtain ⟨here, -, later⟩ := (bind_eq_ok_iff _ _ _).mp done
      obtain ⟨more, below, -⟩ := (map_eq_ok_iff _ _ _).mp later
      rcases List.mem_cons.mp member with same | among
      · cases same
        exact List.mem_cons_self ..
      · exact List.mem_cons_of_mem _ (ih more below among)

theorem met_of_inTurn_true (act : Place → Except Error Bool) (met : List Meeting)
    (done : inTurn act met = .ok true) : ∃ place, .ok place ∈ met := by
  cases met with
  | nil => cases done
  | cons meeting rest =>
    cases meeting with
    | error e => cases done
    | ok place => exact ⟨place, List.mem_cons_self ..⟩

theorem nothing_met_of_inTurn_false (act : Place → Except Error Bool)
    (writes : ∀ place wrote, act place = .ok wrote → wrote = true) (met : List Meeting)
    (done : inTurn act met = .ok false) : met = [] := by
  cases met with
  | nil => rfl
  | cons meeting rest =>
    cases meeting with
    | error e => cases done
    | ok place =>
      obtain ⟨here, acted, later⟩ := (bind_eq_ok_iff _ _ _).mp done
      obtain ⟨more, -, both⟩ := (map_eq_ok_iff _ _ _).mp later
      rw [writes place here acted] at both
      cases both

/-! ## The maps after a walk -/

theorem overMaps_congr (step other : Object → Change Object Bool) (items : List Json)
    (same : ∀ child, .object child ∈ items → step child = other child) :
    overMaps step items = overMaps other items := by
  induction items with
  | nil => rfl
  | cons item rest ih =>
    have below := ih fun child member => same child (List.mem_cons_of_mem _ member)
    cases item with
    | object child =>
      rw [overMaps, overMaps, same child (List.mem_cons_self ..), below]
    | _ => rw [overMaps, overMaps, below] <;> simp

theorem overMaps_item (step : Object → Change Object Bool) (items after : List Json) (wrote : Bool)
    (done : overMaps step items = (.ok wrote, after)) (i : Nat) (child : Object)
    (there : items[i]? = some (.object child)) :
    ∃ written left, step child = (.ok written, left) ∧ after[i]? = some (.object left) := by
  induction items generalizing after wrote i with
  | nil => simp at there
  | cons item rest ih =>
    cases more : overMaps step rest with
    | mk answer others =>
      cases item with
      | object first =>
        rw [overMaps, more] at done
        cases acted : step first with
        | mk outcome left =>
          cases outcome with
          | error e => simp [acted] at done
          | ok written =>
            rw [acted] at done
            simp only [Prod.mk.injEq] at done
            obtain ⟨answered, rfl⟩ := done
            obtain ⟨wroteMore, rfl, -⟩ := (map_eq_ok_iff _ _ _).mp answered
            cases i with
            | zero =>
              cases there
              exact ⟨written, left, acted, rfl⟩
            | succ i => exact ih others wroteMore more i there
      | _ =>
        rw [overMaps, more] at done
        · simp only [Prod.mk.injEq] at done
          obtain ⟨rfl, rfl⟩ := done
          cases i with
          | zero => cases there
          | succ i => exact ih others wrote more i there
        · simp

theorem at?_string_cons (data : Object) (key : String) (path : List Json) :
    (Json.object data).at? (.string key :: path) =
      (Entries.get? data key).bind fun next => next.at? path := rfl

theorem at?_ofInt_cons (items : List Json) (i : Nat) (path : List Json) :
    (Json.list items).at? (.ofInt i :: path) = items[i]?.bind fun next => next.at? path := by
  simp [Json.at?, Json.step?, Json.ofInt, Json.position?]

/-- After a walk that succeeds, each map that it came to is what the act there left. -/
theorem walk_reaches (source : Source) (path : List String) (schema : Option Schema)
    (data after : Object) (wrote : Bool)
    (done : walk context rule source path schema data = (.ok wrote, after)) (place : Place)
    (met : .ok place ∈ meetings context rule path schema data) :
    ∃ written left, place.act context rule source (path.getLastD "") = (.ok written, left) ∧
      (Json.object after).at? place.location = some (.object left) := by
  induction path generalizing schema data after wrote place with
  | nil => cases met
  | cons key path ih =>
    cases path with
    | nil =>
      obtain ⟨resolved, slot, rfl⟩ := mem_meetings_single context rule key schema data place met
      rw [walk, slot] at done
      exact ⟨wrote, after, done, rfl⟩
    | cons next rest =>
      obtain ⟨child, inner, opened, among, ⟨step, rfl⟩ | ⟨items, i, step, there, rfl⟩⟩ :=
        mem_meetings_cons context rule key next rest schema data place met
      · rw [walk_cons, step] at done
        obtain ⟨answered, rfl⟩ := Prod.mk.inj done
        obtain ⟨written, left, acted, located⟩ :=
          ih _ child _ wrote (Prod.ext answered rfl) inner among
        refine ⟨written, left, acted, ?_⟩
        rw [Place.within, List.singleton_append, at?_string_cons, Entries.get?_put, if_pos rfl]
        exact located
      · rw [walk_cons, step] at done
        obtain ⟨answered, rfl⟩ := Prod.mk.inj done
        obtain ⟨writtenHere, leftHere, walked, moved⟩ :=
          overMaps_item _ items _ wrote (Prod.ext answered rfl) i child there
        obtain ⟨written, left, acted, located⟩ :=
          ih _ child leftHere writtenHere walked inner among
        refine ⟨written, left, acted, ?_⟩
        rw [Place.within, Place.within, List.singleton_append, List.singleton_append,
          at?_string_cons, Entries.get?_put, if_pos rfl, Option.bind_some, at?_ofInt_cons, moved]
        exact located

/-! ## Well-formed maps -/

theorem meetings_wellFormed (parameters : context.WellFormed) (path : List String)
    (schema : Option Schema) (data : Object) (good : (Json.object data).WellFormed) (place : Place)
    (met : .ok place ∈ meetings context rule path schema data) :
    (Json.object place.data).WellFormed := by
  induction path generalizing schema data place with
  | nil => cases met
  | cons key path ih =>
    cases path with
    | nil =>
      obtain ⟨resolved, slot, rfl⟩ := mem_meetings_single context rule key schema data place met
      have kept := resolveSlot_wellFormed parameters data key good
      rwa [slot] at kept
    | cons next rest =>
      have kept := ground_wellFormed context rule parameters schema data key good
      obtain ⟨child, inner, opened, among, ⟨step, rfl⟩ | ⟨items, i, step, there, rfl⟩⟩ :=
        mem_meetings_cons context rule key next rest schema data place met
      · rw [step] at kept
        have inside := get?_ground_map context rule schema data opened child key step
        exact ih _ child (kept.entry key _ inside) inner among
      · rw [step] at kept
        have inside := get?_ground_list context rule schema data opened items key step
        have list : (Json.list items).WellFormed := kept.entry key _ inside
        exact ih _ child (list.item _ (List.mem_of_getElem? there)) inner among

theorem overMaps_wellFormed (step : Object → Change Object Bool) (items : List Json)
    (keeps : ∀ child, (Json.object child).WellFormed → (Json.object (step child).2).WellFormed)
    (good : ∀ x ∈ items, x.WellFormed) : ∀ x ∈ (overMaps step items).2, x.WellFormed := by
  induction items with
  | nil => exact good
  | cons item rest ih =>
    have below := ih fun x member => good x (List.mem_cons_of_mem _ member)
    have here := good item (List.mem_cons_self ..)
    intro x member
    cases item with
    | object child =>
      have kept := keeps child here
      rw [overMaps] at member
      generalize step child = acted at member kept
      match acted with
      | (.error _, left) =>
        rcases List.mem_cons.mp member with rfl | later
        · exact kept
        · exact good x (List.mem_cons_of_mem _ later)
      | (.ok _, left) =>
        rcases List.mem_cons.mp member with rfl | later
        · exact kept
        · exact below x later
    | _ =>
      rw [overMaps] at member
      · rcases List.mem_cons.mp member with rfl | later
        · exact here
        · exact below x later
      · simp

theorem walk_wellFormed (parameters : context.WellFormed) (source : Source)
    (keeps : ∀ schema data key, (Json.object data).WellFormed →
      (Json.object (actAt context rule schema source data key).2).WellFormed)
    (path : List String) (schema : Option Schema) (data : Object)
    (good : (Json.object data).WellFormed) :
    (Json.object (walk context rule source path schema data).2).WellFormed := by
  induction path generalizing schema data with
  | nil => exact good
  | cons key path ih =>
    cases path with
    | nil =>
      have slot := resolveSlot_wellFormed parameters data key good
      rw [walk]
      generalize resolveSlot context data key = found at slot
      match found with
      | (.error _, _) | (.ok false, _) => exact slot
      | (.ok true, resolved) => exact keeps schema resolved key slot
    | cons next rest =>
      have opened := ground_wellFormed context rule parameters schema data key good
      rw [walk_cons]
      cases step : ground context rule schema data key with
      | mk found left =>
        rw [step] at opened
        cases found with
        | failed e => exact opened
        | closed => exact opened
        | map child =>
          have inside := get?_ground_map context rule schema data left child key step
          exact opened.put key _ (ih _ child (opened.entry key _ inside))
        | list items =>
          have inside := get?_ground_list context rule schema data left items key step
          have list : (Json.list items).WellFormed := opened.entry key _ inside
          refine opened.put key _ ((Json.wellFormed_list_iff _).mpr ?_)
          exact overMaps_wellFormed _ items (fun child => ih _ child) fun x => list.item x

end Orchestration.Migration
