import Orchestration.Proofs.Migration.Places

/-!
# Ids that last

A rule that looks up ids evaluates calls: the references on its ways, and the calls at its targets.
What such a call comes to is final if nothing that it needs is still to come.  An id that was found
from final values alone is found again on every stack that the first one grows to, unless the rule
fails there before it comes to the target.
-/

set_option autoImplicit false

namespace Orchestration.Migration

namespace Context

def on (context : Context) (stack : Stack) : Context :=
  { context with stack := stack }

theorem function?_on (context : Context) (stack : Stack) (value : Json) :
    (context.on stack).function? value = context.function? value := rfl

theorem findIds_on (context : Context) (stack : Stack) (finder : Finder) :
    findIds (context.on stack) finder = findIds context finder := rfl

/-- The call has a value, and everything that the value needs is there. -/
def Final (context : Context) (call : Json) : Prop :=
  ∃ node result, Node.parse context.template.version call = .ok node ∧
    node.Settles ⟨context.template.digests, context.stack⟩ result

end Context

/-! ## What is evaluated -/

/-- A call that a rule evaluates, with the place of the key where it stands. -/
structure Evaluation where
  slot : List Json
  call : Json

def Evaluation.within (front : List Json) (evaluation : Evaluation) : Evaluation :=
  { evaluation with slot := front ++ evaluation.slot }

section Evaluations

variable (context : Context)

mutual

/-- The references that are evaluated when a value is resolved, up to the first that must be left
alone. -/
def references : Json → List Json
  | .list items => referencesInItems items
  | value =>
    match context.function? value with
    | some .getParam => [value]
    | _ => []

def referencesInItems : List Json → List Json
  | [] => []
  | x :: rest =>
    match (resolveParameter context x).1 with
    | .ok true => references x ++ referencesInItems rest
    | _ => references x

end

def slotReferences (data : Object) (key : String) : List Json :=
  ((Entries.get? data key).map (references context)).getD []

def targetCall? (data : Object) (key : String) : Option Json :=
  (Entries.get? data key).bind fun current =>
    match context.function? current with
    | none | some .getResource => none
    | some _ => some current

def referencesAlong : List String → Object → List Json
  | [], _ => []
  | key :: rest, data =>
    slotReferences context data key ++
      match resolveSlot context data key with
      | (.ok true, data) =>
        match rest, Entries.get? data key with
        | _ :: _, some (.object child) => referencesAlong rest child
        | _, _ => []
      | _ => []

variable (rule : Rule)

def evaluationsInItems (visit : Object → List Evaluation) (items : List Json) : List Evaluation :=
  items.zipIdx.flatMap fun (item, i) =>
    match item with
    | .object child => (visit child).map (Evaluation.within [.ofInt i])
    | _ => []

/-- The calls that are evaluated on the walk of a rule that looks up ids. -/
def evaluations : List String → Option Schema → Object → List Evaluation
  | [], _, _ => []
  | [key], _, data =>
    (slotReferences context data key).map (⟨[.string key], ·⟩) ++
      match resolveSlot context data key with
      | (.ok true, data) => (targetCall? context data key).toList.map (⟨[.string key], ·⟩)
      | _ => []
  | key :: next :: rest, schema, data =>
    let visit := evaluations (next :: rest) (schema.bind fun s => s.child? key)
    (slotReferences context data key).map (⟨[.string key], ·⟩) ++
      match (ground context rule schema data key).1 with
      | .map child => (visit child).map (Evaluation.within [.string key])
      | .list items => (evaluationsInItems visit items).map (Evaluation.within [.string key])
      | _ => []

end Evaluations

section Evaluations

variable {context : Context} (rule : Rule)

theorem mem_evaluations_slot (key : String) (rest : List String) (schema : Option Schema)
    (data : Object) (call : Json) (member : call ∈ slotReferences context data key) :
    ⟨[.string key], call⟩ ∈ evaluations context rule (key :: rest) schema data := by
  have here := List.mem_map_of_mem (f := (Evaluation.mk [.string key])) member
  cases rest <;> exact List.mem_append_left _ here

theorem mem_evaluations_target (key : String) (schema : Option Schema) (data resolved : Object)
    (slot : resolveSlot context data key = (.ok true, resolved)) (call : Json)
    (evaluated : call ∈ targetCall? context resolved key) :
    ⟨[.string key], call⟩ ∈ evaluations context rule [key] schema data := by
  rw [evaluations, slot]
  exact List.mem_append_right _ (List.mem_map_of_mem (Option.mem_toList.mpr evaluated))

variable (key next : String) (rest : List String) (schema : Option Schema) (data : Object)

theorem mem_evaluations_map (child opened : Object)
    (step : ground context rule schema data key = (.map child, opened)) (evaluation : Evaluation)
    (below : evaluation ∈
      evaluations context rule (next :: rest) (schema.bind fun s => s.child? key) child) :
    evaluation.within [.string key] ∈
      evaluations context rule (key :: next :: rest) schema data := by
  rw [evaluations, step]
  exact List.mem_append_right _ (List.mem_map_of_mem below)

theorem mem_evaluations_item (items : List Json) (opened : Object)
    (step : ground context rule schema data key = (.list items, opened)) (i : Nat) (child : Object)
    (there : items[i]? = some (.object child)) (evaluation : Evaluation)
    (below : evaluation ∈
      evaluations context rule (next :: rest) (schema.bind fun s => s.child? key) child) :
    (evaluation.within [.ofInt i]).within [.string key] ∈
      evaluations context rule (key :: next :: rest) schema data := by
  rw [evaluations, step]
  refine List.mem_append_right _ (List.mem_map_of_mem (List.mem_flatMap.mpr ?_))
  exact ⟨(.object child, i), List.mem_zipIdx_iff_getElem?.mpr there, List.mem_map_of_mem below⟩

end Evaluations

namespace Rule

def lookUp (context : Context) (rule : Rule) (data : Object) : Change Object Bool :=
  match rule.valuePath with
  | none => (.ok true, data)
  | some path =>
    match valueAt context path data with
    | (.error e, data) => (.error e, data)
    | (.ok .skip, data) => (.ok false, data)
    | (.ok _, data) => (.ok true, data)

def met (context : Context) (schema : Schema) (rule : Rule) (data : Object) : List Meeting :=
  match rule.lookUp context data with
  | (.ok true, data) => meetings context rule rule.path (some schema) data
  | _ => []

/-- All calls that the rule evaluates.  What stands on its value path comes before every target. -/
def evaluated (context : Context) (schema : Schema) (rule : Rule) (data : Object) :
    List Evaluation :=
  (referencesAlong context (rule.valuePath.getD []) data).map (⟨[], ·⟩) ++
    match rule.lookUp context data with
    | (.ok true, data) => evaluations context rule rule.path (some schema) data
    | _ => []

def target (rule : Rule) : String := rule.path.getLastD ""

/-- The rule replaces what stands at a location by ids. -/
def PutsIds (context : Context) (schema : Schema) (rule : Rule) (data : Object)
    (location : List Json) (ids : Json) : Prop :=
  ∃ place, .ok place ∈ rule.met context schema data ∧
    location = place.location ++ [.string rule.target] ∧
    resolveAt context rule place.data rule.target =
      (.ok true, Entries.put place.data rule.target ids)

end Rule

theorem mem_inItems_of_getElem? (visit : Object → List Meeting) (items : List Json) (i : Nat)
    (child : Object) (there : items[i]? = some (.object child)) (inner : Place)
    (visited : .ok inner ∈ visit child) :
    .ok (inner.within [.ofInt i]) ∈ inItems visit 0 items :=
  List.mem_flatMap.mpr ⟨(.object child, i), List.mem_zipIdx_iff_getElem?.mpr there,
    List.mem_map_of_mem (f := Meeting.within [.ofInt i]) visited⟩

theorem targetCall_evaluated (context : Context) (rule : Rule) (path : List String)
    (schema : Option Schema) (data : Object) (place : Place)
    (met : .ok place ∈ meetings context rule path schema data) (call : Json)
    (evaluated : call ∈ targetCall? context place.data (path.getLastD "")) :
    ⟨place.location ++ [.string (path.getLastD "")], call⟩ ∈
      evaluations context rule path schema data := by
  induction path generalizing schema data place with
  | nil => cases met
  | cons key path ih =>
    cases path with
    | nil =>
      obtain ⟨resolved, slot, rfl⟩ := mem_meetings_single context rule key schema data place met
      exact mem_evaluations_target rule key schema data resolved slot call evaluated
    | cons next rest =>
      have last : (key :: next :: rest).getLastD "" = (next :: rest).getLastD "" := by simp
      rw [last] at evaluated ⊢
      obtain ⟨child, inner, opened, among, ⟨step, rfl⟩ | ⟨items, i, step, there, rfl⟩⟩ :=
        mem_meetings_cons context rule key next rest schema data place met
      · exact mem_evaluations_map rule key next rest schema data child opened step _
          (ih _ child inner among evaluated)
      · exact mem_evaluations_item rule key next rest schema data items opened step i child there _
          (ih _ child inner among evaluated)

/-! ## Evaluating on a larger stack -/

section Later

variable {context : Context} {later : Stack} (grows : context.stack.GrowsTo later)
include grows

theorem Context.resolve_final (call : Json) (final : context.Final call) :
    (context.on later).resolve call = context.resolve call := by
  obtain ⟨node, result, read, settled⟩ := final
  have settled' := Node.settles_grows _ _ _ grows node result settled
  have answer : (node.resolve ⟨context.template.digests, context.stack⟩).value = .ok result :=
    congrArg Prod.snd settled
  have answer' : (node.resolve ⟨context.template.digests, later⟩).value = .ok result :=
    congrArg Prod.snd settled'
  simp only [resolve, on, read, bind, Except.bind, answer, answer']

theorem resolveReference_final (value : Json) (final : context.Final value) :
    resolveReference (context.on later) value = resolveReference context value := by
  rw [resolveReference, resolveReference, context.resolve_final grows value final]

omit grows in
theorem resolveItems_final (items : List Json)
    (each : ∀ x ∈ items, (∀ call ∈ references context x, context.Final call) →
      resolveParameter (context.on later) x = resolveParameter context x)
    (final : ∀ call ∈ referencesInItems context items, context.Final call) :
    resolveItems (context.on later) items = resolveItems context items := by
  induction items with
  | nil => rw [resolveItems, resolveItems]
  | cons x rest ih =>
    rw [referencesInItems] at final
    have here : resolveParameter (context.on later) x = resolveParameter context x := by
      apply each x (List.mem_cons_self ..)
      intro call member
      apply final
      split
      · exact List.mem_append_left _ member
      · exact member
    rw [resolveItems, resolveItems, here]
    cases slot : resolveParameter context x with
    | mk answer left =>
      rcases answer with _ | _ | _
      · rfl
      · rfl
      · rw [slot] at final
        simp only
        rw [ih (fun y member => each y (List.mem_cons_of_mem _ member)) fun call member =>
          final call (List.mem_append_right _ member)]

theorem resolveParameter_final (value : Json)
    (final : ∀ call ∈ references context value, context.Final call) :
    resolveParameter (context.on later) value = resolveParameter context value := by
  have single : ∀ value : Json, (∀ items, value ≠ .list items) →
      (∀ call ∈ references context value, context.Final call) →
      resolveParameter (context.on later) value = resolveParameter context value := by
    intro value other final
    rw [resolveParameter_of_not_list value other, resolveParameter_of_not_list value other,
      context.function?_on]
    cases known : context.function? value with
    | none => rfl
    | some function =>
      cases function with
      | getParam =>
        refine resolveReference_final grows value (final value ?_)
        unfold references
        split
        · exact absurd rfl (other _)
        · simp [known]
      | _ => rfl
  induction value using Json.parts_induction with
  | list items ih =>
    rw [references] at final
    rw [resolveParameter, resolveParameter, resolveItems_final items ih final]
  | _ => exact single _ (by simp) final

theorem resolveSlot_final (data : Object) (key : String)
    (final : ∀ call ∈ slotReferences context data key, context.Final call) :
    resolveSlot (context.on later) data key = resolveSlot context data key := by
  cases present : Entries.get? data key with
  | none => rw [resolveSlot_absent data key present, resolveSlot_absent data key present]
  | some value =>
    rw [slotReferences, present] at final
    rw [resolveSlot_present data key value present, resolveSlot_present data key value present,
      resolveParameter_final grows value final]

theorem ground_final (rule : Rule) (schema : Option Schema) (data : Object) (key : String)
    (final : ∀ call ∈ slotReferences context data key, context.Final call) :
    ground (context.on later) rule schema data key = ground context rule schema data key := by
  rw [ground, ground, resolveSlot_final grows data key final]

theorem resolveAt_final (rule : Rule) (data : Object) (key : String)
    (final : ∀ call ∈ targetCall? context data key, context.Final call) :
    resolveAt (context.on later) rule data key = resolveAt context rule data key := by
  rw [resolveAt, resolveAt]
  cases rule.finder with
  | none => rfl
  | some finder =>
    cases present : Entries.get? data key with
    | none => rfl
    | some current =>
      cases known : context.function? current with
      | none => simp only [context.function?_on, context.findIds_on, known]; rfl
      | some function =>
        by_cases reference : function = .getResource
        · simp only [context.function?_on, known, reference, if_true]
        · have evaluated : targetCall? context data key = some current := by
            rw [targetCall?, present, Option.bind_some, known]
            cases function <;> first | rfl | exact absurd rfl reference
          simp only [context.function?_on, context.findIds_on, known,
            context.resolve_final grows current (final current evaluated)]

theorem valueAt_final (path : List String) (data : Object)
    (final : ∀ call ∈ referencesAlong context path data, context.Final call) :
    valueAt (context.on later) path data = valueAt context path data := by
  induction path generalizing data with
  | nil => rfl
  | cons key rest ih =>
    rw [referencesAlong] at final
    have slot := resolveSlot_final grows data key fun call member =>
      final call (List.mem_append_left _ member)
    rw [valueAt, valueAt, slot]
    cases found : resolveSlot context data key with
    | mk answer resolved =>
      rcases answer with _ | _ | _
      · rfl
      · rfl
      · simp only
        rw [found] at final
        split
        · rfl
        · rename_i next others child here
          rw [ih child fun call member => final call (List.mem_append_right _ (by
            simpa only [here] using member))]
        · rfl
        · rfl

/-! ## The walk on a larger stack -/

theorem walk_final (rule : Rule) (resolves : rule.kind = .resolve) (source : Source)
    (path : List String) (schema : Option Schema) (data : Object)
    (final : ∀ evaluation ∈ evaluations context rule path schema data,
      context.Final evaluation.call) :
    walk (context.on later) rule source path schema data =
      walk context rule source path schema data := by
  induction path generalizing schema data with
  | nil => rfl
  | cons key path ih =>
    have references : ∀ call ∈ slotReferences context data key, context.Final call :=
      fun call member => final _ (mem_evaluations_slot rule key path schema data call member)
    cases path with
    | nil =>
      rw [walk, walk, resolveSlot_final grows data key references]
      cases slot : resolveSlot context data key with
      | mk answer resolved =>
        rcases answer with _ | _ | _
        · rfl
        · rfl
        · simp only [actAt, resolves]
          exact resolveAt_final grows rule resolved key fun call evaluated =>
            final _ (mem_evaluations_target rule key schema data resolved slot call evaluated)
    | cons next rest =>
      rw [walk_cons, walk_cons, ground_final grows rule schema data key references]
      cases step : ground context rule schema data key with
      | mk found opened =>
        cases found with
        | failed e => rfl
        | closed => rfl
        | map child =>
          simp only
          rw [ih _ child fun evaluation member => final (evaluation.within [.string key])
            (mem_evaluations_map rule key next rest schema data child opened step _ member)]
        | list items =>
          simp only
          rw [overMaps_congr _ _ items fun child member => ih _ child ?_]
          intro evaluation visited
          obtain ⟨i, there⟩ := List.mem_iff_getElem?.mp member
          exact final ((evaluation.within [.ofInt i]).within [.string key])
            (mem_evaluations_item rule key next rest schema data items opened step i child there
              evaluation visited)

theorem meetings_final (rule : Rule) (path : List String) (schema : Option Schema) (data : Object)
    (place : Place) (met : .ok place ∈ meetings context rule path schema data)
    (final : ∀ evaluation ∈ evaluations context rule path schema data,
      evaluation.slot <+: place.location ++ [.string (path.getLastD "")] →
        context.Final evaluation.call) :
    .ok place ∈ meetings (context.on later) rule path schema data := by
  induction path generalizing schema data place with
  | nil => cases met
  | cons key path ih =>
    cases path with
    | nil =>
      obtain ⟨resolved, slot, rfl⟩ := mem_meetings_single context rule key schema data place met
      have references : ∀ call ∈ slotReferences context data key, context.Final call :=
        fun call member => final _ (mem_evaluations_slot rule key [] schema data call member)
          List.prefix_rfl
      rw [meetings, resolveSlot_final grows data key references, slot]
      exact List.mem_cons_self ..
    | cons next rest =>
      have last : (key :: next :: rest).getLastD "" = (next :: rest).getLastD "" := by simp
      rw [last] at final
      obtain ⟨child, inner, opened, among, ⟨step, rfl⟩ | ⟨items, i, step, there, rfl⟩⟩ :=
        mem_meetings_cons context rule key next rest schema data place met
      · have references : ∀ call ∈ slotReferences context data key, context.Final call :=
          fun call member => final _
            (mem_evaluations_slot rule key (next :: rest) schema data call member)
            ⟨inner.location ++ [.string ((next :: rest).getLastD "")], rfl⟩
        have below := ih _ child inner among fun evaluation member above =>
          final (evaluation.within [.string key])
          (mem_evaluations_map rule key next rest schema data child opened step _ member)
          (List.cons_prefix_cons.mpr ⟨rfl, above⟩)
        rw [meetings_cons, ground_final grows rule schema data key references, step]
        exact List.mem_map_of_mem (f := Meeting.within [.string key]) below
      · have references : ∀ call ∈ slotReferences context data key, context.Final call :=
          fun call member => final _
            (mem_evaluations_slot rule key (next :: rest) schema data call member)
            ⟨.ofInt i :: inner.location ++ [.string ((next :: rest).getLastD "")], rfl⟩
        have below := ih _ child inner among fun evaluation member above =>
          final ((evaluation.within [.ofInt i]).within [.string key])
          (mem_evaluations_item rule key next rest schema data items opened step i child there _
            member)
          (List.cons_prefix_cons.mpr ⟨rfl, List.cons_prefix_cons.mpr ⟨rfl, above⟩⟩)
        rw [meetings_cons, ground_final grows rule schema data key references, step]
        exact List.mem_map_of_mem (f := Meeting.within [.string key])
          (mem_inItems_of_getElem? _ items i child there inner below)

end Later

/-! ## Rules that look up ids -/

section Rule

variable {context : Context} {schema : Schema} {rule : Rule}

theorem Rule.execute_met (resolves : rule.kind = .resolve) (data after : Object)
    (done : rule.execute context schema data = (.ok (), after)) (place : Place)
    (met : .ok place ∈ rule.met context schema data) :
    ∃ source seen wrote, .ok place ∈ meetings context rule rule.path (some schema) seen ∧
      walk context rule source rule.path (some schema) seen = (.ok wrote, after) := by
  have written : ∀ found seen, rule.write context schema found seen = (.ok (), after) →
      ∃ wrote, walk context rule (rule.source found) rule.path (some schema) seen =
        (.ok wrote, after) := by
    intro found seen done
    simp only [Rule.write, resolves] at done
    rw [if_neg (by simp)] at done
    cases walked : walk context rule (rule.source found) rule.path (some schema) seen with
    | mk answer left =>
      rw [walked] at done
      cases answer with
      | error e => cases done
      | ok wrote =>
        simp only [show (RuleKind.resolve == RuleKind.replace) = false from rfl,
          Bool.and_false] at done
        cases done
        exact ⟨wrote, rfl⟩
  unfold Rule.execute at done
  unfold Rule.met Rule.lookUp at met
  cases reads : rule.valuePath with
  | none =>
    simp only [reads] at done met
    obtain ⟨wrote, walked⟩ := written none data done
    exact ⟨_, data, wrote, met, walked⟩
  | some path =>
    simp only [reads] at done met
    cases read : valueAt context path data with
    | mk answer seen =>
      rw [read] at done met
      rcases answer with _ | found
      · cases met
      · cases found with
        | skip => cases met
        | missing =>
          obtain ⟨wrote, walked⟩ := written none seen done
          exact ⟨_, seen, wrote, met, walked⟩
        | found value =>
          obtain ⟨wrote, walked⟩ := written (some value) seen done
          exact ⟨_, seen, wrote, met, walked⟩

theorem Rule.at?_of_putsIds (resolves : rule.kind = .resolve) (data after : Object)
    (done : rule.execute context schema data = (.ok (), after)) (location : List Json) (ids : Json)
    (puts : rule.PutsIds context schema data location ids) :
    (Json.object after).at? location = some ids := by
  obtain ⟨place, met, rfl, acts⟩ := puts
  obtain ⟨source, seen, wrote, meets, walked⟩ := rule.execute_met resolves data after done place met
  obtain ⟨written, left, acted, there⟩ :=
    walk_reaches context rule source rule.path (some schema) seen after wrote walked place meets
  simp only [Place.act, actAt, resolves] at acted
  rw [Rule.target] at acts ⊢
  rw [acts] at acted
  cases acted
  rw [Json.at?_append, there, Option.bind_some, at?_string_cons, Entries.get?_put, if_pos rfl]
  rfl

variable {later : Stack} (grows : context.stack.GrowsTo later)
include grows

theorem Rule.lookUp_final (data : Object)
    (final : ∀ call ∈ referencesAlong context (rule.valuePath.getD []) data, context.Final call) :
    rule.lookUp (context.on later) data = rule.lookUp context data := by
  unfold Rule.lookUp
  cases reads : rule.valuePath with
  | none => rfl
  | some path =>
    rw [reads] at final
    simp only [valueAt_final grows path data final]

theorem Rule.putsIds_final (data : Object) (location : List Json) (ids : Json)
    (puts : rule.PutsIds context schema data location ids)
    (final : ∀ evaluation ∈ rule.evaluated context schema data,
      evaluation.slot <+: location → context.Final evaluation.call) :
    rule.PutsIds (context.on later) schema data location ids := by
  obtain ⟨place, met, rfl, acts⟩ := puts
  -- The value path is read before any target, so what stands on it is on the way to each.
  have looked := rule.lookUp_final grows data fun call member =>
    final ⟨[], call⟩ (List.mem_append_left _ (List.mem_map_of_mem member)) List.nil_prefix
  unfold Rule.met at met
  unfold Rule.evaluated at final
  split at met
  case h_2 => cases met
  case h_1 seen found =>
  simp only [found] at final
  have walked : ∀ evaluation ∈ evaluations context rule rule.path (some schema) seen,
      evaluation.slot <+: place.location ++ [.string rule.target] →
        context.Final evaluation.call :=
    fun evaluation member => final evaluation (List.mem_append_right _ member)
  refine ⟨place, ?_, rfl, ?_⟩
  · simp only [Rule.met, looked, found]
    exact meetings_final grows rule rule.path (some schema) seen place met walked
  · rw [resolveAt_final grows rule place.data rule.target, acts]
    exact fun call evaluated => walked ⟨place.location ++ [.string rule.target], call⟩
      (targetCall_evaluated context rule rule.path (some schema) seen place met call evaluated)
      List.prefix_rfl

theorem Rule.write_final (resolves : rule.kind = .resolve) (found : Option Json) (data : Object)
    (final : ∀ evaluation ∈ evaluations context rule rule.path (some schema) data,
      context.Final evaluation.call) :
    rule.write (context.on later) schema found data = rule.write context schema found data := by
  unfold Rule.write
  simp only [walk_final grows rule resolves _ rule.path (some schema) data final]

theorem Rule.execute_final (resolves : rule.kind = .resolve) (data : Object)
    (final : ∀ evaluation ∈ rule.evaluated context schema data, context.Final evaluation.call) :
    rule.execute (context.on later) schema data = rule.execute context schema data := by
  unfold Rule.evaluated Rule.lookUp at final
  unfold Rule.execute
  cases reads : rule.valuePath with
  | none =>
    simp only [reads] at final ⊢
    exact rule.write_final grows resolves none data fun evaluation member =>
      final evaluation (List.mem_append_right _ member)
  | some path =>
    simp only [reads] at final ⊢
    have read := valueAt_final grows path data fun call member =>
      final ⟨[], call⟩ (List.mem_append_left _ (List.mem_map_of_mem member))
    rw [read]
    cases found : valueAt context path data with
    | mk answer seen =>
      rw [found] at final
      rcases answer with _ | _ | _ | _
      · rfl
      · exact rule.write_final grows resolves _ seen fun evaluation member =>
          final evaluation (List.mem_append_right _ member)
      · exact rule.write_final grows resolves none seen fun evaluation member =>
          final evaluation (List.mem_append_right _ member)
      · rfl

end Rule

/-- An id that was looked up from final values alone is found again on every larger stack, unless
the rule fails there.  If all that the rule evaluates is final, it does the same as before. -/
theorem ids_last (context : Context) (later : Stack) (grows : context.stack.GrowsTo later)
    (schema : Schema) (rule : Rule) (resolves : rule.kind = .resolve) (data : Object) :
    (∀ after location ids, rule.execute context schema data = (.ok (), after) →
        rule.PutsIds context schema data location ids →
        (∀ evaluation ∈ rule.evaluated context schema data,
          evaluation.slot <+: location → context.Final evaluation.call) →
        (Json.object after).at? location = some ids ∧
          ∀ after', rule.execute (context.on later) schema data = (.ok (), after') →
            (Json.object after').at? location = some ids) ∧
      ((∀ evaluation ∈ rule.evaluated context schema data, context.Final evaluation.call) →
        rule.execute (context.on later) schema data = rule.execute context schema data) := by
  refine ⟨?_, rule.execute_final grows resolves data⟩
  intro after location ids done puts final
  have lasting := rule.putsIds_final grows data location ids puts final
  exact ⟨rule.at?_of_putsIds resolves data after done location ids puts, fun after' done' =>
    rule.at?_of_putsIds resolves data after' done' location ids lasting⟩

def imageRule : Rule :=
  ⟨.resolve, ["servers", "image"], none, none, none, some ⟨"image", none⟩⟩

/-- Of two servers, one has the image of a resource that is to come. -/
def serversWithImages : Object :=
  [("servers", .list
    [.object [("image", .object [("list_join", .list [.string "-", .list [.string "ubuntu",
      .object [("get_attr", .list [.string "base", .string "release"])]]])])],
     .object [("image", .object [("get_attr", .list [.string "mirror", .string "image"])])]])]

def releasedBase : Resource :=
  { Resource.created "base" with attributes := [("release", .string "24")] }

def baseOnly : Stack :=
  ⟨[], [("base", releasedBase), ("mirror", .pending "mirror")], [], none⟩

def baseAndMirror : Stack :=
  ⟨[], [("base", releasedBase),
    ("mirror", { Resource.created "mirror" with attributes := [("image", .string "bsd")] })], [],
    none⟩

theorem baseOnly_growsTo : baseOnly.GrowsTo baseAndMirror := by
  refine ⟨by simp [baseOnly, Stack.parameter?], by simp [baseOnly, Stack.file?],
    by simp [baseOnly], ?_⟩
  intro key resource found readable
  simp only [baseOnly, Stack.resource?, Entries.get?_cons, Entries.get?_nil] at found
  split at found
  · rename_i same
    cases found
    subst same
    exact ⟨_, rfl, rfl, rfl, rfl⟩
  · split at found
    · cases found
      cases readable
    · cases found

def imageContext : Context :=
  ⟨⟨.v20161014, []⟩, baseOnly, fun _ name => .ok ("id-" ++ name)⟩

theorem ids_last_for_first_server :
    let location := [Json.string "servers", .ofInt 0, .string "image"]
    imageContext.stack.GrowsTo baseAndMirror ∧
      imageRule.PutsIds imageContext [] serversWithImages location (.string "id-ubuntu-24") ∧
      ∃ after, imageRule.execute (imageContext.on baseAndMirror) [] serversWithImages =
          (.ok (), after) ∧
        (Json.object after).at? location = some (.string "id-ubuntu-24") := by
  intro location
  have puts :
      imageRule.PutsIds imageContext [] serversWithImages location (.string "id-ubuntu-24") :=
    ⟨_, List.mem_cons_self .., rfl, rfl⟩
  have final : ∀ evaluation ∈ imageRule.evaluated imageContext [] serversWithImages,
      evaluation.slot <+: location → imageContext.Final evaluation.call := by
    have all : imageRule.evaluated imageContext [] serversWithImages =
        [⟨location, .object [("list_join", .list [.string "-", .list [.string "ubuntu",
            .object [("get_attr", .list [.string "base", .string "release"])]]])]⟩,
          ⟨[.string "servers", .ofInt 1, .string "image"],
            .object [("get_attr", .list [.string "mirror", .string "image"])]⟩] := rfl
    rw [all, List.forall_mem_cons, List.forall_mem_singleton]
    refine ⟨fun _ => ⟨_, _, rfl, rfl⟩, fun onTheWay => ?_⟩
    simp [location, Json.ofInt] at onTheWay
  obtain ⟨lasting, _⟩ := ids_last imageContext baseAndMirror baseOnly_growsTo [] imageRule rfl
    serversWithImages
  exact ⟨baseOnly_growsTo, puts, _, rfl, (lasting _ location _ rfl puts final).2 _ rfl⟩

def mirrorImage : Object :=
  [("image", .object [("list_join", .list [.string "-", .list [.string "a",
    .object [("get_attr", .list [.string "mirror", .string "image"])]]])])]

/-- A value that is to come is left out of the text that is looked up, and the id of that text
stays. -/
example :
    let rule : Rule := { imageRule with path := ["image"] }
    rule.execute imageContext [] mirrorImage = (.ok (), [("image", .string "id-a-")]) ∧
      rule.execute (imageContext.on baseAndMirror) [] mirrorImage =
        (.ok (), [("image", .string "id-a-bsd")]) := ⟨rfl, rfl⟩

end Orchestration.Migration
