import Orchestration.Proofs.Migration.Places

/-!
# The value at a path of keys

A value path leads through maps only.  What reading it finds stands at that path afterwards, and
taking away what stands at one path changes nothing at a path that neither leads to the first one
nor goes on from it.
-/

set_option autoImplicit false

namespace Orchestration

def Json.along? : List String → Json → Option Json
  | [], value => some value
  | key :: rest, .object entries => (Entries.get? entries key).bind (along? rest)
  | _ :: _, _ => none

def Json.keysOf (location : List Json) : List String :=
  location.filterMap Json.text?

namespace Migration

theorem along?_append (first second : List String) (value : Json) :
    value.along? (first ++ second) = (value.along? first).bind fun next => next.along? second := by
  induction first generalizing value with
  | nil => rfl
  | cons key rest ih =>
    cases value with
    | object entries =>
      rw [List.cons_append, Json.along?, Json.along?]
      cases Entries.get? entries key with
      | none => rfl
      | some next => exact ih next
    | _ => rfl

theorem at?_of_along? (path : List String) (value found : Json)
    (there : value.along? path = some found) : value.at? (path.map .string) = some found := by
  induction path generalizing value with
  | nil => exact there
  | cons key rest ih =>
    cases value with
    | object entries =>
      obtain ⟨next, here, below⟩ := Option.bind_eq_some_iff.mp there
      rw [List.map_cons, at?_string_cons, here]
      exact ih next below
    | _ => cases there

theorem populated_of_along? (path : List String) (value found : Json)
    (there : value.along? path = some found) (populated : isPopulated found = true) :
    isPopulated value = true := by
  cases path with
  | nil =>
    cases there
    exact populated
  | cons key rest =>
    cases value with
    | object entries =>
      cases entries with
      | nil => cases there
      | cons entry others => rfl
    | _ => cases there

theorem along?_wellFormed (path : List String) (value found : Json) (good : value.WellFormed)
    (there : value.along? path = some found) : found.WellFormed :=
  good.descendant value found (path.map .string) (at?_of_along? path value found there)

/-! ## Reading a value path -/

variable {context : Context}

theorem valueAt_found (path : List String) (data seen : Object) (value : Json)
    (found : valueAt context path data = (.ok (.found value), seen)) :
    (Json.object seen).along? path = some value ∧ isPopulated value = true := by
  induction path generalizing data seen with
  | nil => cases found
  | cons key rest ih =>
    rw [valueAt] at found
    split at found
    · cases found
    · cases found
    · rename_i resolved slot
      split at found
      · rename_i held here
        split at found
        · rename_i populated
          cases found
          refine ⟨?_, populated⟩
          rw [Json.along?, here]
          rfl
        · cases found
      · rename_i next others child here
        cases read : valueAt context (next :: others) child with
        | mk answer left =>
          rw [read] at found
          cases found
          obtain ⟨there, populated⟩ := ih child left read
          refine ⟨?_, populated⟩
          rw [Json.along?, Entries.get?_put, if_pos rfl]
          exact there
      · cases found
      · cases found

theorem valueAt_wellFormed (parameters : context.WellFormed) (path : List String) (data : Object)
    (good : (Json.object data).WellFormed) :
    (Json.object (valueAt context path data).2).WellFormed := by
  induction path generalizing data with
  | nil => exact good
  | cons key rest ih =>
    have slot := resolveSlot_wellFormed parameters data key good
    rw [valueAt]
    generalize resolveSlot context data key = found at slot
    match found with
    | (.error _, _) | (.ok false, _) => exact slot
    | (.ok true, resolved) =>
      simp only
      split
      · exact slot
      · rename_i next others child here
        exact slot.put key _ (ih child (slot.entry key _ here))
      · exact slot
      · exact slot

theorem keys_valueAt (path : List String) (data : Object) :
    Entries.keys (valueAt context path data).2 = Entries.keys data := by
  cases path with
  | nil => rfl
  | cons key rest =>
    have slot : Entries.keys (resolveSlot context data key).2 = Entries.keys data :=
      keys_resolveSlot data key
    rw [valueAt]
    generalize resolveSlot context data key = found at slot
    obtain ⟨answer, resolved⟩ := found
    rcases answer with _ | _ | _
    · exact slot
    · exact slot
    · simp only
      split
      · exact slot
      · rename_i here
        exact (Entries.keys_put_of_present resolved key _ _ here).trans slot
      · exact slot
      · exact slot

/-! ## Taking the value away -/

theorem at?_of_not_text (data : Object) (step : Json) (rest : List Json)
    (other : step.text? = none) : (Json.object data).at? (step :: rest) = none := by
  rw [Json.at?, Json.step?, other]
  rfl

theorem at?_removeAt (path : List String) (data : Object) (good : (Json.object data).WellFormed)
    (location : List Json) (notAbove : ¬ path <+: Json.keysOf location)
    (notBelow : ¬ Json.keysOf location <+: path) :
    (Json.object (removeAt path data)).at? location = (Json.object data).at? location := by
  induction path generalizing data location with
  | nil => exact absurd List.nil_prefix notAbove
  | cons key path ih =>
    cases location with
    | nil => exact absurd List.nil_prefix notBelow
    | cons step rest =>
      cases text : step.text? with
      | none => rw [at?_of_not_text _ step rest text, at?_of_not_text _ step rest text]
      | some name =>
        cases step with
        | string k =>
          cases text
          have keys : Json.keysOf (.string name :: rest) = name :: Json.keysOf rest := rfl
          rw [keys] at notAbove notBelow
          rw [at?_string_cons, at?_string_cons]
          cases path with
          | nil =>
            have apart : key ≠ name := by
              rintro rfl
              exact notAbove ⟨Json.keysOf rest, rfl⟩
            rw [removeAt, Entries.get?_erase data good.distinct, if_neg apart]
          | cons next others =>
            rw [removeAt]
            split
            · rename_i child here
              rw [Entries.get?_put]
              by_cases same : key = name
              · subst same
                rw [if_pos rfl, here, Option.bind_some, Option.bind_some]
                refine ih child (good.entry key _ here) rest ?_ ?_
                · exact fun above => notAbove (List.cons_prefix_cons.mpr ⟨rfl, above⟩)
                · exact fun below => notBelow (List.cons_prefix_cons.mpr ⟨rfl, below⟩)
              · rw [if_neg same]
            · rfl
        | _ => cases text

end Migration

end Orchestration
