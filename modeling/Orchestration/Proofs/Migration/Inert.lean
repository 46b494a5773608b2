import Orchestration.Proofs.Migration.Sources

/-!
# Properties without calls

Where no call stands on the way of a rule, nothing is resolved: a walk only goes through maps and
lists, and reading the value path changes nothing.  No call stands anywhere if no key of a map names
a function.
-/

set_option autoImplicit false

namespace Orchestration

namespace Json

mutual

def Keyed (allowed : String → Prop) : Json → Prop
  | .list items => KeyedItems allowed items
  | .object entries => KeyedEntries allowed entries
  | _ => True

def KeyedItems (allowed : String → Prop) : List Json → Prop
  | [] => True
  | x :: rest => Keyed allowed x ∧ KeyedItems allowed rest

def KeyedEntries (allowed : String → Prop) : List (String × Json) → Prop
  | [] => True
  | (k, v) :: rest => (allowed k ∧ Keyed allowed v) ∧ KeyedEntries allowed rest

end

variable (allowed : String → Prop)

theorem keyed_list_iff (items : List Json) :
    Keyed allowed (.list items) ↔ ∀ x ∈ items, Keyed allowed x := by
  rw [Keyed]
  induction items with
  | nil => simp [KeyedItems]
  | cons x rest ih => rw [KeyedItems, ih, List.forall_mem_cons]

theorem keyed_object_iff (entries : Object) :
    Keyed allowed (.object entries) ↔ ∀ entry ∈ entries, allowed entry.1 ∧ Keyed allowed entry.2 := by
  rw [Keyed]
  induction entries with
  | nil => simp [KeyedEntries]
  | cons entry rest ih => rw [KeyedEntries, ih, List.forall_mem_cons]

/-- A well-formed value in which no key names a function, so that nothing in it is resolved. -/
structure Inert (version : Version) (value : Json) : Prop where
  wellFormed : value.WellFormed
  keyed : value.Keyed fun key => version.function? key = none

namespace Inert

variable {version : Version} {entries : Object} {items : List Json}

theorem item (inert : Inert version (.list items)) (x : Json) (member : x ∈ items) :
    x.Inert version where
  wellFormed := inert.wellFormed.item x member
  keyed := (keyed_list_iff _ items).mp inert.keyed x member

theorem list (each : ∀ x ∈ items, x.Inert version) : Inert version (.list items) where
  wellFormed := (wellFormed_list_iff items).mpr fun x member => (each x member).wellFormed
  keyed := (keyed_list_iff _ items).mpr fun x member => (each x member).keyed

theorem entry (inert : Inert version (.object entries)) (key : String) (value : Json)
    (found : Entries.get? entries key = some value) : value.Inert version where
  wellFormed := inert.wellFormed.entry key value found
  keyed := ((keyed_object_iff _ entries).mp inert.keyed _
    (Entries.mem_of_get? entries key value found)).2

theorem key (inert : Inert version (.object entries)) (key : String) (value : Json)
    (found : Entries.get? entries key = some value) : version.function? key = none :=
  ((keyed_object_iff _ entries).mp inert.keyed _ (Entries.mem_of_get? entries key value found)).1

theorem empty : Inert version (.object []) :=
  ⟨(wellFormed_object_iff []).mpr ⟨.nil, by simp⟩, (keyed_object_iff _ []).mpr (by simp)⟩

theorem put (inert : Inert version (.object entries)) (key : String) (value : Json)
    (named : version.function? key = none) (good : value.Inert version) :
    Inert version (.object (Entries.put entries key value)) where
  wellFormed := inert.wellFormed.put key value good.wellFormed
  keyed := by
    refine (keyed_object_iff _ _).mpr fun entry member => ?_
    rcases Entries.mem_put entries key value entry member with rfl | old
    · exact ⟨named, good.keyed⟩
    · exact (keyed_object_iff _ entries).mp inert.keyed entry old

theorem erase (inert : Inert version (.object entries)) (key : String) :
    Inert version (.object (Entries.erase entries key)) where
  wellFormed := inert.wellFormed.erase key
  keyed := (keyed_object_iff _ _).mpr fun entry member =>
    (keyed_object_iff _ entries).mp inert.keyed entry (Entries.mem_of_mem_erase entries key entry member)

end Inert

end Json

namespace Migration

variable {context : Context}

theorem Context.function?_inert (value : Json) (inert : value.Inert context.template.version) :
    context.function? value = none := by
  match value with
  | .object [(name, args)] =>
    exact ((Json.keyed_object_iff _ _).mp inert.keyed (name, args) (List.mem_cons_self ..)).1
  | .object [] | .object (_ :: _ :: _) => rfl
  | .null | .bool _ | .number _ | .string _ | .list _ => rfl

namespace Context

/-- The value is no call, and neither is an item of it if it is a list: those are resolved with
it. -/
inductive CallFree (context : Context) : Json → Prop where
  | list (items : List Json) (each : ∀ x ∈ items, CallFree context x) : CallFree context (.list items)
  | other (value : Json) (notList : ∀ items, value ≠ .list items)
    (notCall : context.function? value = none) : CallFree context value

/-- No call stands on the way along a path or at its end.  The way goes through maps, and through
the maps of lists if it spreads. -/
def FreeAlong (context : Context) (spreads : Bool) : List String → Object → Prop
  | [], _ => True
  | key :: rest, data => ∀ x, Entries.get? data key = some x → context.CallFree x ∧
      (∀ child, x = .object child → FreeAlong context spreads rest child) ∧
      (spreads = true → ∀ items child, x = .list items → .object child ∈ items →
        FreeAlong context spreads rest child)

theorem CallFree.of_inert {value : Json} (inert : value.Inert context.template.version) :
    context.CallFree value := by
  induction value using Json.parts_induction with
  | list items ih => exact .list items fun x member => ih x member (inert.item x member)
  | _ => exact .other _ (by simp) (context.function?_inert _ inert)

theorem FreeAlong.of_inert (spreads : Bool) (path : List String) (data : Object)
    (inert : (Json.object data).Inert context.template.version) :
    context.FreeAlong spreads path data := by
  induction path generalizing data with
  | nil => trivial
  | cons key rest ih =>
    intro x there
    have good := inert.entry key x there
    refine ⟨.of_inert good, ?_, ?_⟩
    · rintro child rfl
      exact ih child good
    · rintro - items child rfl member
      exact ih child (good.item _ member)

theorem FreeAlong.empty (spreads : Bool) (path : List String) :
    context.FreeAlong spreads path [] := by
  cases path with
  | nil => trivial
  | cons key rest =>
    intro x there
    cases there

end Context

theorem resolveParameter_free (value : Json) (free : context.CallFree value) :
    resolveParameter context value = (.ok true, value) := by
  induction free with
  | list items each ih => rw [resolveParameter, resolveItems_settled items ih]
  | other value notList notCall => rw [resolveParameter_of_not_list _ notList, notCall]

theorem resolveSlot_free (data : Object) (key : String)
    (free : ∀ x, Entries.get? data key = some x → context.CallFree x) :
    resolveSlot context data key = (.ok true, data) := by
  cases present : Entries.get? data key with
  | none => exact resolveSlot_absent data key present
  | some x =>
    rw [resolveSlot_present data key x present, resolveParameter_free x (free x present),
      Entries.put_of_get? data key x present]

/-- What is found at a value path when nothing is resolved on the way. -/
def readAt : List String → Object → Except Error Lookup
  | [], _ => .ok .missing
  | key :: rest, data =>
    match rest, Entries.get? data key with
    | [], some value => .ok (if isPopulated value then .found value else .missing)
    | _ :: _, some (.object child) => readAt rest child
    | _ :: _, some (.list _) => .error .sourceInsideList
    | _, _ => .ok .missing

theorem readAt_cons (key next : String) (rest : List String) (data : Object) :
    readAt (key :: next :: rest) data =
      match Entries.get? data key with
      | some (.object child) => readAt (next :: rest) child
      | some (.list _) => .error .sourceInsideList
      | _ => .ok .missing := by
  cases here : Entries.get? data key with
  | none => simp only [readAt, here]
  | some x => cases x <;> simp only [readAt, here]

theorem readAt_empty (path : List String) : readAt path [] = .ok .missing := by
  match path with
  | [] | [_] | _ :: _ :: _ => rfl

theorem readAt_of_get? (key : String) (rest : List String) {first second : Object}
    (same : Entries.get? first key = Entries.get? second key) :
    readAt (key :: rest) first = readAt (key :: rest) second := by
  cases rest with
  | nil => simp only [readAt, same]
  | cons next rest => rw [readAt_cons, readAt_cons, same]

theorem readAt_found {version : Version} (path : List String) (data : Object) (value : Json)
    (inert : (Json.object data).Inert version) (found : readAt path data = .ok (.found value)) :
    value.Inert version ∧ ∀ key ∈ path, version.function? key = none := by
  induction path generalizing data with
  | nil => cases found
  | cons key rest ih =>
    cases here : Entries.get? data key with
    | none => cases rest <;> simp only [readAt, here] at found <;> cases found
    | some held =>
      have named := inert.key key held here
      cases rest with
      | nil =>
        simp only [readAt, here] at found
        split at found
        · cases found
          exact ⟨inert.entry key value here, List.forall_mem_singleton.mpr named⟩
        · cases found
      | cons next others =>
        rw [readAt_cons, here] at found
        cases held with
        | object child =>
          obtain ⟨good, below⟩ := ih child (inert.entry key _ here) found
          exact ⟨good, List.forall_mem_cons.mpr ⟨named, below⟩⟩
        | _ => cases found

theorem valueAt_free (path : List String) (data : Object) (free : context.FreeAlong false path data) :
    valueAt context path data = (readAt path data, data) := by
  induction path generalizing data with
  | nil => rfl
  | cons key rest ih =>
    rw [valueAt, resolveSlot_free data key fun x present => (free x present).1]
    cases rest with
    | nil => cases here : Entries.get? data key <;> simp only [readAt, here]
    | cons next others =>
      cases here : Entries.get? data key with
      | none => simp only [readAt, here]
      | some x =>
        cases x with
        | object child =>
          simp only [readAt, here, ih child ((free _ here).2.1 child rfl),
            Entries.put_of_get? data key _ here]
        | _ => simp only [readAt, here]

end Migration

end Orchestration
