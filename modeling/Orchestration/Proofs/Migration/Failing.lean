import Orchestration.Proofs.Migration.Resolving

/-!
# Errors of rules

A rule fails because of a reference on its way that has no value for another reason than that a
parameter is missing, because of an act at one of its targets, or because its value path runs into a
list.  An act that looks up ids is the only one that can fail for something that is not available.
-/

set_option autoImplicit false

namespace Orchestration.Migration

/-- A parameter that was not provided, or a function that is not supported any more. -/
def Error.Unavailable : Error → Prop
  | .template (.missingParameter _) | .template (.removed _) => True
  | _ => False

variable {context : Context}

/-- The call is a reference, and it has no value for another reason than a missing parameter. -/
def Context.Breaks (context : Context) (call : Json) (error : Error) : Prop :=
  context.function? call = some .getParam ∧ ∃ cause, context.resolve call = .error cause ∧
    error = .template cause ∧ ∀ name, cause ≠ .missingParameter name

theorem Context.Breaks.removed {call : Json} {error : Error} (breaks : context.Breaks call error)
    (unavailable : error.Unavailable) :
    ∃ function, error = .template (.removed function) ∧
      context.resolve call = .error (.removed function) := by
  obtain ⟨-, cause, failed, rfl, other⟩ := breaks
  cases cause with
  | missingParameter name => exact absurd rfl (other name)
  | removed function => exact ⟨function, rfl, failed⟩
  | _ => cases unavailable

/-! ## References that break -/

theorem resolveItems_error (items : List Json) (error : Error)
    (each : ∀ x ∈ items, (resolveParameter context x).1 = .error error →
      ∃ call ∈ references context x, context.Breaks call error)
    (fails : (resolveItems context items).1 = .error error) :
    ∃ call ∈ referencesInItems context items, context.Breaks call error := by
  induction items with
  | nil =>
    rw [resolveItems] at fails
    cases fails
  | cons x rest ih =>
    have here := each x (List.mem_cons_self ..)
    have later := ih fun y member => each y (List.mem_cons_of_mem _ member)
    rw [resolveItems] at fails
    rw [referencesInItems]
    cases done : resolveParameter context x with
    | mk answer left =>
      rw [done] at fails here
      -- an item that stops the resolving hides the errors of those after it
      rcases answer with e | _ | _
      · exact here fails
      · cases fails
      · obtain ⟨call, member, breaks⟩ := later fails
        exact ⟨call, List.mem_append_right _ member, breaks⟩

theorem resolveParameter_error (value : Json) (error : Error)
    (fails : (resolveParameter context value).1 = .error error) :
    ∃ call ∈ references context value, context.Breaks call error := by
  have single : ∀ value : Json, (∀ items, value ≠ .list items) →
      (resolveParameter context value).1 = .error error →
      ∃ call ∈ references context value, context.Breaks call error := by
    intro value other fails
    rw [resolveParameter_of_not_list value other] at fails
    cases known : context.function? value with
    | none => simp [known] at fails
    | some function =>
      cases function with
      | getParam =>
        simp only [known, resolveReference] at fails
        have listed : references context value = [value] := by
          cases value with
          | list items => exact absurd rfl (other items)
          | _ => simp [references, known]
        split at fails
        · cases fails
        · cases fails
        · rename_i cause different failed
          cases fails
          exact ⟨value, listed ▸ List.mem_singleton_self value, known, cause, failed, rfl,
            different⟩
      | _ => simp [known] at fails
  induction value using Json.parts_induction with
  | list items ih =>
    rw [resolveParameter] at fails
    rw [references]
    exact resolveItems_error items error (fun x member => ih x member) fails
  | _ => exact single _ (by simp) fails

theorem resolveSlot_error (data : Object) (key : String) (error : Error)
    (fails : (resolveSlot context data key).1 = .error error) :
    ∃ call ∈ slotReferences context data key, context.Breaks call error := by
  cases present : Entries.get? data key with
  | none =>
    rw [resolveSlot_absent data key present] at fails
    cases fails
  | some value =>
    rw [resolveSlot_present data key value present] at fails
    rw [slotReferences, present]
    exact resolveParameter_error value error fails

theorem valueAt_error (path : List String) (data : Object) (error : Error)
    (fails : (valueAt context path data).1 = .error error) :
    error = .sourceInsideList ∨
      ∃ call ∈ referencesAlong context path data, context.Breaks call error := by
  induction path generalizing data with
  | nil => cases fails
  | cons key rest ih =>
    rw [valueAt] at fails
    rw [referencesAlong]
    cases slot : resolveSlot context data key with
    | mk answer resolved =>
      rw [slot] at fails
      rcases answer with e | _ | _
      · cases fails
        obtain ⟨call, member, breaks⟩ := resolveSlot_error data key error (by rw [slot])
        exact .inr ⟨call, List.mem_append_left _ member, breaks⟩
      · cases fails
      · simp only at fails
        split at fails
        · cases fails
        · rename_i next others child here
          refine (ih child fails).imp id ?_
          rintro ⟨call, member, breaks⟩
          exact ⟨call, List.mem_append_right _ (by simpa only [here] using member), breaks⟩
        · exact .inl (Except.error.inj fails).symm
        · cases fails

/-! ## Errors of a walk -/

section Walk

variable (rule : Rule)

theorem ground_failed (schema : Option Schema) (data opened : Object) (key : String)
    (error : Error) (step : ground context rule schema data key = (.failed error, opened)) :
    (resolveSlot context data key).1 = .error error := by
  rw [ground] at step
  split at step
  · rename_i slot
    cases step
    rw [slot]
  · cases step
  · simp only at step
    split at step <;> cases step

theorem mem_inItems_error (visit : Object → List Meeting) (items : List Json) (error : Error)
    (met : .error error ∈ inItems visit 0 items) :
    ∃ (i : Nat) (child : Object), items[i]? = some (.object child) ∧
      .error error ∈ visit child := by
  obtain ⟨⟨item, i⟩, member, inside⟩ := List.mem_flatMap.mp met
  have there := List.mem_zipIdx_iff_getElem?.mp member
  cases item with
  | object child =>
    obtain ⟨meeting, among, same⟩ := List.mem_map.mp inside
    rw [Meeting.within, map_eq_error_iff] at same
    exact ⟨i, child, there, same ▸ among⟩
  | _ => cases inside

theorem meetings_error (path : List String) (schema : Option Schema) (data : Object)
    (error : Error) (met : .error error ∈ meetings context rule path schema data) :
    ∃ evaluation ∈ evaluations context rule path schema data,
      context.Breaks evaluation.call error := by
  induction path generalizing schema data with
  | nil => cases met
  | cons key path ih =>
    have slot : (resolveSlot context data key).1 = .error error →
        ∃ evaluation ∈ evaluations context rule (key :: path) schema data,
          context.Breaks evaluation.call error := by
      intro fails
      obtain ⟨call, member, breaks⟩ := resolveSlot_error data key error fails
      exact ⟨_, mem_evaluations_slot rule key path schema data call member, breaks⟩
    cases path with
    | nil =>
      rw [meetings] at met
      split at met
      · rename_i failed
        cases List.mem_singleton.mp met
        exact slot (by rw [failed])
      · cases met
      · cases List.mem_singleton.mp met
    | cons next rest =>
      rw [meetings_cons] at met
      cases step : ground context rule schema data key with
      | mk found opened =>
        rw [step] at met
        cases found with
        | failed e =>
          cases List.mem_singleton.mp met
          exact slot (ground_failed rule schema data opened key error step)
        | closed => cases met
        | map child =>
          obtain ⟨meeting, among, same⟩ := List.mem_map.mp met
          rw [Meeting.within, map_eq_error_iff] at same
          obtain ⟨evaluation, member, breaks⟩ := ih _ child (same ▸ among)
          exact ⟨_, mem_evaluations_map rule key next rest schema data child opened step evaluation
            member, breaks⟩
        | list items =>
          obtain ⟨meeting, among, same⟩ := List.mem_map.mp met
          rw [Meeting.within, map_eq_error_iff] at same
          obtain ⟨i, child, there, visited⟩ := mem_inItems_error _ items error (same ▸ among)
          obtain ⟨evaluation, member, breaks⟩ := ih _ child visited
          exact ⟨_, mem_evaluations_item rule key next rest schema data items opened step i child
            there evaluation member, breaks⟩

end Walk

theorem inTurn_error_cases (act : Place → Except Error Bool) (met : List Meeting) (error : Error)
    (fails : inTurn act met = .error error) :
    .error error ∈ met ∨ ∃ place, .ok place ∈ met ∧ act place = .error error := by
  induction met with
  | nil => cases fails
  | cons meeting rest ih =>
    cases meeting with
    | error e =>
      cases fails
      exact .inl (List.mem_cons_self ..)
    | ok place =>
      rw [inTurn] at fails
      cases acted : act place with
      | error e =>
        rw [acted] at fails
        cases fails
        exact .inr ⟨place, List.mem_cons_self .., acted⟩
      | ok wrote =>
        rw [acted] at fails
        rcases ih ((map_eq_error_iff _ _ _).mp fails) with broken | ⟨other, member, failed⟩
        · exact .inl (List.mem_cons_of_mem _ broken)
        · exact .inr ⟨other, List.mem_cons_of_mem _ member, failed⟩

/-! ## Errors of acts -/

section Act

variable (rule : Rule) (source : Source) (data : Object) (key : String) (error : Error)

theorem addTo_error (schema : Option Schema)
    (fails : (addTo rule schema source data key).1 = .error error) : error = .notAList key := by
  rw [addTo] at fails
  split at fails
  · cases fails
  · simp only at fails
    split at fails
    · cases fails
    · split at fails
      · cases fails
      · exact (Except.error.inj fails).symm
    · split at fails
      · cases fails
      · exact (Except.error.inj fails).symm
    · exact (Except.error.inj fails).symm

theorem replaceAt_error (fails : (replaceAt rule source data key).1 = .error error) :
    ∃ name, error = .conflict key name := by
  rw [replaceAt] at fails
  split at fails
  · simp only at fails
    split at fails
    · exact ⟨_, (Except.error.inj fails).symm⟩
    · split at fails
      · split at fails <;> cases fails
      · split at fails <;> cases fails
      · cases fails
  · simp only at fails
    split at fails
    · cases fails
    · split at fails
      · exact ⟨_, (Except.error.inj fails).symm⟩
      · cases fails

theorem findItem_error (finder : Finder) (value : Json)
    (fails : findItem context finder value = .error error) :
    ∃ name, context.find finder name = .error error := by
  cases value with
  | string name =>
    rw [findItem] at fails
    split at fails
    · cases fails
    · exact ⟨name, (map_eq_error_iff _ _ _).mp fails⟩
  | _ => cases fails

theorem findItems_error (finder : Finder) (items : List Json)
    (fails : items.mapM (findItem context finder) = .error error) :
    ∃ name, context.find finder name = .error error := by
  induction items with
  | nil => cases fails
  | cons x rest ih =>
    rw [List.mapM_cons] at fails
    cases here : findItem context finder x with
    | error e =>
      rw [here] at fails
      cases fails
      exact findItem_error error finder x here
    | ok id =>
      cases more : rest.mapM (findItem context finder) with
      | error e =>
        rw [here, more] at fails
        cases fails
        exact ih more
      | ok ids =>
        rw [here, more] at fails
        cases fails

theorem findIds_error (finder : Finder) (value : Json)
    (fails : findIds context finder value = .error error) :
    ∃ name, context.find finder name = .error error := by
  cases value with
  | string name =>
    rw [findIds] at fails
    split at fails
    · cases fails
    · exact findItem_error error finder _ ((map_eq_error_iff _ _ _).mp fails)
  | list items =>
    rw [findIds] at fails
    split at fails
    · cases fails
    · exact findItems_error error finder items ((map_eq_error_iff _ _ _).mp fails)
  | _ => cases fails

theorem resolveAt_error (fails : (resolveAt context rule data key).1 = .error error) :
    (∃ call ∈ targetCall? context data key, ∃ cause, context.resolve call = .error cause ∧
      error = .template cause) ∨
      ∃ finder name, rule.finder = some finder ∧ context.find finder name = .error error := by
  rw [resolveAt] at fails
  split at fails
  · rename_i finder current client present
    split at fails
    · cases fails
    · rename_i other
      simp only at fails
      split at fails
      · rename_i e failed
        cases fails
        cases known : context.function? current with
        | none =>
          simp only [known, Option.isSome_none, Bool.false_eq_true, if_false, Except.bind] at failed
          obtain ⟨name, unknown⟩ := findIds_error error finder current failed
          exact .inr ⟨finder, name, client, unknown⟩
        | some function =>
          simp only [known, Option.isSome_some, if_true] at failed
          cases resolved : context.resolve current with
          | error cause =>
            rw [resolved] at failed
            cases failed
            refine .inl ⟨current, ?_, cause, resolved, rfl⟩
            rw [targetCall?, present]
            cases function with
            | getResource => exact absurd known other
            | _ => simp [known]
          | ok value =>
            rw [resolved] at failed
            obtain ⟨name, unknown⟩ := findIds_error error finder value failed
            exact .inr ⟨finder, name, client, unknown⟩
      · cases fails
      · cases fails
  · cases fails

theorem actAt_unavailable (schema : Option Schema) (unavailable : error.Unavailable)
    (fails : (actAt context rule schema source data key).1 = .error error) :
    rule.kind = .resolve ∧ (resolveAt context rule data key).1 = .error error := by
  rw [actAt] at fails
  cases kind : rule.kind with
  | add =>
    simp only [kind] at fails
    cases addTo_error rule source data key error schema fails
    cases unavailable
  | replace =>
    simp only [kind] at fails
    obtain ⟨name, rfl⟩ := replaceAt_error rule source data key error fails
    cases unavailable
  | delete =>
    simp only [kind] at fails
    cases fails
  | resolve =>
    simp only [kind] at fails
    exact ⟨rfl, fails⟩

end Act

/-! ## Errors of rules -/

/-- Where an error for something unavailable comes from: a reference on the way of the rule whose
operands call a removed function, a call at a target that ids are looked up for, or the client. -/
inductive Rule.Exposes (context : Context) (schema : Schema) (rule : Rule) (data : Object) :
    Error → Prop where
  | reference {function : String} (evaluation : Evaluation)
    (member : evaluation ∈ rule.evaluated context schema data)
    (known : context.function? evaluation.call = some .getParam)
    (fails : context.resolve evaluation.call = .error (.removed function)) :
    Exposes context schema rule data (.template (.removed function))
  | target {cause : TemplateError} (resolves : rule.kind = .resolve) (place : Place)
    (met : .ok place ∈ rule.met context schema data) (call : Json)
    (stands : call ∈ targetCall? context place.data rule.target)
    (fails : context.resolve call = .error cause) :
    Exposes context schema rule data (.template cause)
  | client {error : Error} (resolves : rule.kind = .resolve) (finder : Finder) (name : String)
    (asks : rule.finder = some finder) (fails : context.find finder name = .error error) :
    Exposes context schema rule data error

namespace Rule

variable (rule : Rule) (schema : Schema) (data seen : Object) (error : Error)

theorem Exposes.of_breaks (evaluation : Evaluation)
    (member : evaluation ∈ rule.evaluated context schema data)
    (breaks : context.Breaks evaluation.call error) (unavailable : error.Unavailable) :
    rule.Exposes context schema data error := by
  obtain ⟨function, rfl, fails⟩ := breaks.removed unavailable
  exact .reference evaluation member breaks.1 fails

theorem write_unavailable (found : Option Json) (went : rule.lookUp context data = (.ok true, seen))
    (unavailable : error.Unavailable)
    (fails : (rule.write context schema found seen).1 = .error error) :
    rule.Exposes context schema data error := by
  have walked : (walk context rule (rule.source found) rule.path (some schema) seen).1 =
      .error error := by
    rw [write] at fails
    split at fails
    · cases fails
    · split at fails
      · rename_i failed
        cases fails
        rw [failed]
      · split at fails <;> cases fails
  have met : rule.met context schema data = meetings context rule rule.path (some schema) seen := by
    rw [Rule.met, went]
  rw [walk_answer] at walked
  rcases inTurn_error_cases _ _ error walked with broken | ⟨place, member, failed⟩
  · obtain ⟨evaluation, among, breaks⟩ := meetings_error rule rule.path _ seen error broken
    refine .of_breaks rule schema data error evaluation ?_ breaks unavailable
    rw [evaluated, went]
    exact List.mem_append_right _ among
  · obtain ⟨resolves, failed⟩ := actAt_unavailable rule _ _ _ error _ unavailable failed
    rcases resolveAt_error rule _ _ error failed with
      ⟨call, stands, cause, unresolved, rfl⟩ | ⟨finder, name, asks, unknown⟩
    · exact .target resolves place (met ▸ member) call stands unresolved
    · exact .client resolves finder name asks unknown

theorem execute_unavailable (unavailable : error.Unavailable)
    (fails : (rule.execute context schema data).1 = .error error) :
    rule.Exposes context schema data error := by
  unfold execute at fails
  cases reads : rule.valuePath with
  | none =>
    rw [reads] at fails
    exact rule.write_unavailable schema data data error none (by rw [lookUp, reads]) unavailable
      fails
  | some path =>
    simp only [reads] at fails
    cases read : valueAt context path data with
    | mk answer seen =>
      rw [read] at fails
      rcases answer with e | value | _ | _
      · cases fails
        rcases valueAt_error path data error (by rw [read]) with rfl | ⟨call, member, breaks⟩
        · cases unavailable
        · refine .of_breaks rule schema data error ⟨[], call⟩ ?_ breaks unavailable
          rw [evaluated, reads]
          exact List.mem_append_left _ (List.mem_map_of_mem member)
      · exact rule.write_unavailable schema data seen error (some value)
          (by simp only [lookUp, reads, read]) unavailable fails
      · exact rule.write_unavailable schema data seen error none
          (by simp only [lookUp, reads, read]) unavailable fails
      · cases fails

end Rule

theorem executeAll_error (schema : Schema) (rules : List Rule) (data : Object) (error : Error)
    (fails : (executeAll context schema rules data).1 = .error error) :
    ∃ before rule later reached, rules = before ++ rule :: later ∧
      executeAll context schema before data = (.ok (), reached) ∧
      (rule.execute context schema reached).1 = .error error := by
  induction rules generalizing data with
  | nil => cases fails
  | cons rule rest ih =>
    rw [executeAll] at fails
    cases done : rule.execute context schema data with
    | mk answer left =>
      rw [done] at fails
      cases answer with
      | error e =>
        cases fails
        exact ⟨[], rule, rest, data, rfl, rfl, by rw [done]⟩
      | ok _ =>
        obtain ⟨before, failing, later, reached, rfl, went, failed⟩ := ih left fails
        refine ⟨rule :: before, failing, later, reached, rfl, ?_, failed⟩
        rw [executeAll, done]
        exact went

end Orchestration.Migration
