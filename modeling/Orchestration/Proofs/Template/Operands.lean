import Mathlib.Data.List.Forall2
import Orchestration.Proofs.Entries
import Orchestration.Proofs.Results
import Orchestration.Template.Resolve

/-!
# The operands of a call

Whatever the form of its arguments, a call resolves a list of trees in order and checks each value
before it goes on.  `operands?` gives that list, and `outcome_call` says what a call comes to from
it.  `Node.parts_induction` is the induction that goes with it: an operand is the arguments
themselves or directly below them.
-/

set_option autoImplicit false

namespace Orchestration

namespace Step

variable {τ σ α β : Type}

/-- What a step says, apart from the tree: whether everything was ready, and the answer. -/
def outcome (step : Step τ α) : Bool × Except TemplateError α :=
  (step.ready, step.value)

theorem value_congr {step : Step τ α} {other : Step σ α} (same : step.outcome = other.outcome) :
    step.value = other.value :=
  (Prod.ext_iff.mp same).2

@[simp] theorem outcome_onTree (f : τ → σ) (step : Step τ α) :
    (step.onTree f).outcome = step.outcome := rfl

theorem outcome_onValue (f : α → β) (step : Step τ α) :
    (step.onValue f).outcome = (step.outcome.1, step.outcome.2.map f) := rfl

theorem outcome_andThen (step : Step τ α) (f : α → Except TemplateError (β × Bool)) :
    (step.andThen f).outcome =
      match step.outcome with
      | (_, .error e) => (false, .error e)
      | (ready, .ok a) =>
        match f a with
        | .error e => (false, .error e)
        | .ok (b, more) => (ready && more, .ok b) := by
  obtain ⟨tree, ready, value⟩ := step
  cases value with
  | error e => rfl
  | ok a =>
    simp only [andThen, outcome]
    cases f a <;> rfl

theorem tree_andThen (step : Step τ α) (f : α → Except TemplateError (β × Bool)) :
    (step.andThen f).tree = step.tree := by
  unfold andThen
  split
  · rfl
  · split <;> rfl

end Step

namespace Node

/-! ## Trees below a tree -/

def parts : Node → List Node
  | .literal _ => []
  | .list items => items
  | .map entries => entries.map Prod.snd
  | .call _ _ args _ => [args]

/-- Induction over a tree.  A call may also use what holds below its arguments, for these are what
it resolves. -/
@[elab_as_elim]
theorem parts_induction {motive : Node → Prop}
    (literal : ∀ value, motive (.literal value))
    (list : ∀ items, (∀ x ∈ items, motive x) → motive (.list items))
    (map : ∀ entries, (∀ x ∈ entries.map Prod.snd, motive x) → motive (.map entries))
    (call : ∀ function name args memo, (∀ x ∈ args :: args.parts, motive x) →
      motive (.call function name args memo))
    (node : Node) : motive node := by
  -- Beside a tree, the induction carries the trees directly below it, which a call asks for.
  refine (@Node.rec (fun node => motive node ∧ ∀ x ∈ node.parts, motive x)
    (fun items => ∀ x ∈ items, motive x) (fun entries => ∀ x ∈ entries.map Prod.snd, motive x)
    (fun entry => motive entry.2) ?_ ?_ ?_ ?_ (by simp) ?_ (by simp) ?_ (fun _ _ holds => holds.1)
    node).1
  · exact fun value => ⟨literal value, by simp [parts]⟩
  · exact fun items holds => ⟨list items holds, holds⟩
  · exact fun entries holds => ⟨map entries holds, holds⟩
  · intro function name args memo holds
    refine ⟨call function name args memo ?_, ?_⟩
    · intro x member
      rcases List.mem_cons.mp member with rfl | below
      · exact holds.1
      · exact holds.2 x below
    · intro x member
      rw [List.mem_singleton.mp member]
      exact holds.1
  · intro first rest holds more x member
    rcases List.mem_cons.mp member with rfl | later
    · exact holds.1
    · exact more x later
  · intro first rest holds more x member
    rcases List.mem_cons.mp member with rfl | later
    · exact holds
    · exact more x later

@[elab_as_elim]
theorem below_induction {motive : Node → Prop}
    (step : ∀ node, (∀ x ∈ node.parts, motive x) → motive node) (node : Node) : motive node := by
  induction node using parts_induction with
  | literal value => exact step _ (by simp [parts])
  | list items ih => exact step _ ih
  | map entries ih => exact step _ ih
  | call function name args memo ih =>
    refine step _ fun x member => ?_
    rw [List.mem_singleton.mp member]
    exact ih args (List.mem_cons_self ..)

/-! ## Resolving operands in order -/

def unchecked : Check := fun _ _ => .ok ()

theorem outcome_resolveFirst_zero (scope : Scope) (check : Check) (position : Nat)
    (xs : List Node) : (resolveFirst scope check position 0 xs).outcome = (true, .ok []) := by
  cases xs <;> simp [resolveFirst, Step.outcome]

theorem outcome_resolveFirst_cons (scope : Scope) (check : Check) (position count : Nat) (x : Node)
    (rest : List Node) :
    (resolveFirst scope check position (count + 1) (x :: rest)).outcome =
      match (resolve scope x).value.bind fun value =>
        (check position value).map fun _ => value with
      | .error e => (false, .error e)
      | .ok value =>
        let more := (resolveFirst scope check (position + 1) count rest).outcome
        ((resolve scope x).ready && more.1, more.2.map (value :: ·)) := by
  rw [resolveFirst]
  cases (resolve scope x).value.bind fun value => (check position value).map fun _ => value <;> rfl

theorem values_resolveFirst_cons_iff (scope : Scope) (check : Check) (position count : Nat)
    (x : Node) (rest : List Node) (values : List Json) :
    (resolveFirst scope check position (count + 1) (x :: rest)).outcome.2 = .ok values ↔
      ∃ value more, (resolve scope x).value = .ok value ∧ check position value = .ok () ∧
        (resolveFirst scope check (position + 1) count rest).outcome.2 = .ok more ∧
        values = value :: more := by
  rw [outcome_resolveFirst_cons]
  cases resolved : (resolve scope x).value with
  | error e => simp [Except.bind]
  | ok value =>
    cases checked : check position value with
    | error e => simp [checked, Except.bind, Except.map]
    | ok _ =>
      simp only [Except.bind, checked, Except.map, Except.ok.injEq, exists_and_left,
        exists_eq_left', true_and]
      exact (map_eq_ok_iff ..).trans (exists_congr fun more => and_congr_right fun _ => eq_comm)

theorem checked_cons_iff (check : Check) (position : Nat) (value : Json) (more : List Json) :
    (∀ i other, (value :: more)[i]? = some other → check (position + i) other = .ok ()) ↔
      check position value = .ok () ∧
        ∀ i other, more[i]? = some other → check (position + 1 + i) other = .ok () := by
  constructor
  · intro each
    refine ⟨each 0 value rfl, fun i other found => ?_⟩
    rw [Nat.add_right_comm]
    exact each (i + 1) other found
  · rintro ⟨first, later⟩ i other found
    cases i with
    | zero =>
      cases found
      exact first
    | succ i =>
      rw [← Nat.add_assoc, Nat.add_right_comm]
      exact later i other found

theorem values_of_resolveFirst (scope : Scope) (check : Check) (xs : List Node)
    (position count : Nat) (values : List Json)
    (found : (resolveFirst scope check position count xs).outcome.2 = .ok values) :
    (∀ i value, values[i]? = some value → check (position + i) value = .ok ()) ∧
      ∀ value more, values = value :: more →
        ∃ x rest, xs = x :: rest ∧ (resolve scope x).value = .ok value := by
  induction xs generalizing position count values with
  | nil =>
    simp only [resolveFirst, Step.outcome, Except.ok.injEq] at found
    simp [← found]
  | cons x rest ih =>
    cases count with
    | zero =>
      rw [outcome_resolveFirst_zero, Except.ok.injEq] at found
      simp [← found]
    | succ count =>
      obtain ⟨value, others, resolved, checked, later, rfl⟩ :=
        (values_resolveFirst_cons_iff ..).mp found
      constructor
      · exact (checked_cons_iff ..).mpr
          ⟨checked, (ih (position + 1) count others later).1⟩
      · intro head more same
        cases same
        exact ⟨x, rest, rfl, resolved⟩

theorem values_take (scope : Scope) (check : Check) (xs : List Node) (position count fewer : Nat)
    (values : List Json) (enough : fewer ≤ count ∨ xs.length ≤ count)
    (found : (resolveFirst scope check position count xs).outcome.2 = .ok values) :
    (resolveFirst scope check position fewer xs).outcome.2 = .ok (values.take fewer) := by
  induction xs generalizing position count fewer values with
  | nil =>
    simp only [resolveFirst, Step.outcome, Except.ok.injEq] at found ⊢
    simp [← found]
  | cons x rest ih =>
    cases fewer with
    | zero => simp [outcome_resolveFirst_zero]
    | succ fewer =>
      cases count with
      | zero => simp at enough
      | succ count =>
        obtain ⟨value, others, resolved, checked, later, rfl⟩ :=
          (values_resolveFirst_cons_iff ..).mp found
        have enough' : fewer ≤ count ∨ rest.length ≤ count := by
          simpa only [List.length_cons, Nat.add_le_add_iff_right] using enough
        exact (values_resolveFirst_cons_iff ..).mpr
          ⟨value, _, resolved, checked, ih (position + 1) count fewer others enough' later, rfl⟩

theorem outcome_resolveFirst_congr (scope other : Scope) (check otherCheck : Check) :
    ∀ (xs ys : List Node) (position count : Nat),
      List.Forall₂ (fun x y => (resolve scope x).outcome = (resolve other y).outcome) xs ys →
      (∀ i x value, xs[i]? = some x → (resolve scope x).value = .ok value →
        check (position + i) value = otherCheck (position + i) value) →
      (resolveFirst scope check position count xs).outcome =
        (resolveFirst other otherCheck position count ys).outcome := by
  intro xs
  induction xs with
  | nil =>
    intro ys position count alike checks
    cases alike
    simp [resolveFirst]
  | cons x rest ih =>
    intro ys position count alike checks
    cases alike with
    | cons same later =>
      rename_i y others
      cases count with
      | zero => rw [outcome_resolveFirst_zero, outcome_resolveFirst_zero]
      | succ count =>
        have readyEq : (resolve scope x).ready = (resolve other y).ready := congrArg Prod.fst same
        have valueEq : (resolve scope x).value = (resolve other y).value := congrArg Prod.snd same
        have more := ih others (position + 1) count later (by
          intro i z value found resolved
          have checked := checks (i + 1) z value found resolved
          simpa only [Nat.add_assoc, Nat.add_comm 1 i] using checked)
        rw [outcome_resolveFirst_cons, outcome_resolveFirst_cons, more, readyEq, ← valueEq]
        cases resolved : (resolve scope x).value with
        | error e => rfl
        | ok value =>
          have checked := checks 0 x value rfl resolved
          simp only [Nat.add_zero] at checked
          simp only [Except.bind, checked]

/-- The tree has a value, and everything that the value needs is ready. -/
def Settles (scope : Scope) (node : Node) (value : Json) : Prop :=
  (resolve scope node).outcome = (true, .ok value)

theorem ready_resolveFirst_cons_iff (scope : Scope) (check : Check) (position count : Nat)
    (x : Node) (rest : List Node) (values : List Json) :
    (resolveFirst scope check position (count + 1) (x :: rest)).outcome = (true, .ok values) ↔
      ∃ value more, Settles scope x value ∧ check position value = .ok () ∧
        (resolveFirst scope check (position + 1) count rest).outcome = (true, .ok more) ∧
        values = value :: more := by
  constructor
  · intro whole
    obtain ⟨value, more, resolved, checked, later, rfl⟩ :=
      (values_resolveFirst_cons_iff ..).mp (congrArg Prod.snd whole)
    have ready := congrArg Prod.fst whole
    rw [outcome_resolveFirst_cons] at ready
    simp only [resolved, checked, Except.bind, Except.map, Bool.and_eq_true] at ready
    exact ⟨value, more, Prod.ext ready.1 resolved, checked, Prod.ext ready.2 later, rfl⟩
  · rintro ⟨value, more, settled, checked, later, rfl⟩
    have ready : (resolve scope x).ready = true := congrArg Prod.fst settled
    have resolved : (resolve scope x).value = .ok value := congrArg Prod.snd settled
    rw [outcome_resolveFirst_cons]
    simp only [resolved, checked, ready, later, Except.bind, Except.map, Bool.and_self]

theorem resolveFirst_ready_iff (scope : Scope) (check : Check) :
    ∀ (xs : List Node) (position : Nat) (values : List Json),
      (resolveFirst scope check position xs.length xs).outcome = (true, .ok values) ↔
        List.Forall₂ (Settles scope) xs values ∧
          ∀ i value, values[i]? = some value → check (position + i) value = .ok () := by
  intro xs
  induction xs with
  | nil =>
    intro position values
    cases values <;> simp [resolveFirst, Step.outcome]
  | cons x rest ih =>
    intro position values
    rw [List.length_cons, ready_resolveFirst_cons_iff, List.forall₂_cons_left_iff]
    simp only [ih]
    constructor
    · rintro ⟨value, more, settled, checked, ⟨others, checks⟩, rfl⟩
      exact ⟨⟨value, more, settled, others, rfl⟩, (checked_cons_iff ..).mpr ⟨checked, checks⟩⟩
    · rintro ⟨⟨value, more, settled, others, rfl⟩, checks⟩
      obtain ⟨checked, later⟩ := (checked_cons_iff ..).mp checks
      exact ⟨value, more, settled, checked, ⟨others, later⟩, rfl⟩

/-! ## What a call resolves -/

/-- The trees that a call resolves, in this order; nothing if its arguments do not have them. -/
def operands? (function : Intrinsic) (args : Node) : Option (List Node) :=
  match function.operands, args with
  | .none, _ => some []
  | .whole, args => some [args]
  | .items, .list items => some items
  | .fields first second, .map entries =>
    match Entries.get? entries first, Entries.get? entries second with
    | some x, some y => some [x, y]
    | _, _ => none
  | _, _ => none

theorem mem_of_operands? (function : Intrinsic) (args : Node) (nodes : List Node)
    (found : operands? function args = some nodes) : ∀ x ∈ nodes, x ∈ args :: args.parts := by
  intro x member
  unfold operands? at found
  cases form : function.operands with
  | none =>
    simp only [form, Option.some.injEq] at found
    simp [← found] at member
  | whole =>
    simp only [form, Option.some.injEq] at found
    rw [← found] at member
    exact List.mem_cons.mpr (.inl (List.mem_singleton.mp member))
  | items =>
    cases args with
    | list items =>
      simp only [form, Option.some.injEq] at found
      exact List.mem_cons_of_mem _ (found ▸ member)
    | _ => simp [form] at found
  | fields first second =>
    cases args with
    | map entries =>
      simp only [form] at found
      split at found
      · rename_i y z foundFirst foundSecond
        cases found
        apply List.mem_cons_of_mem
        simp only [List.mem_cons, List.not_mem_nil, or_false] at member
        rcases member with rfl | rfl
        · exact List.mem_map_of_mem (Entries.mem_of_get? entries first _ foundFirst)
        · exact List.mem_map_of_mem (Entries.mem_of_get? entries second _ foundSecond)
      · cases found
    | _ => simp [form] at found

def operandsOutcome (scope : Scope) (function : Intrinsic) (name : String) (args : Node) :
    Bool × Except TemplateError (List Json) :=
  match operands? function args with
  | some nodes => (resolveFirst scope (scope.accept function name) 0 nodes.length nodes).outcome
  | none => (false, .error (.invalid name function.operandFault))

def operandsStep (scope : Scope) (function : Intrinsic) (name : String) (args : Node) :
    Step Node (List Json) :=
  match function.operands with
  | .none => ⟨args, true, .ok []⟩
  | .whole => (resolve scope args).andThen fun value =>
      (scope.accept function name 0 value).map fun _ => ([value], true)
  | .items => resolveItems scope (scope.accept function name)
      (.invalid name function.operandFault) (itemCount args) args
  | .fields first second => resolveFields scope (scope.accept function name)
      (.invalid name function.operandFault) first second args

theorem resolve_call (scope : Scope) (function : Intrinsic) (name : String) (args : Node) :
    resolve scope (.call function name args none) =
      remember function name
        ((operandsStep scope function name args).andThen (scope.finish function name)) := by
  cases form : function.operands <;> simp only [resolve, operandsStep, form]

theorem resolveEntry_eq (scope : Scope) (key : String) (entries : List (String × Node)) :
    resolveEntry scope key entries = (Entries.get? entries key).map (resolve scope) := by
  induction entries with
  | nil => simp [resolveEntry, Entries.get?]
  | cons entry rest ih =>
    obtain ⟨k, x⟩ := entry
    rw [resolveEntry, Entries.get?_cons, ih]
    split <;> rfl

theorem outcome_bothFields (scope : Scope) (check : Check) (first second : String)
    (entries : List (String × Node)) (x y : Node) :
    (bothFields check first second entries (resolve scope x) (resolve scope y)).outcome =
      (resolveFirst scope check 0 2 [x, y]).outcome := by
  rw [outcome_resolveFirst_cons, outcome_resolveFirst_cons, bothFields]
  cases (resolve scope x).value.bind fun value => (check 0 value).map fun _ => value with
  | error e => rfl
  | ok left =>
    simp only [Nat.zero_add]
    cases (resolve scope y).value.bind fun value => (check 1 value).map fun _ => value with
    | error e => simp [Step.outcome, Except.map]
    | ok right => simp [resolveFirst, Step.outcome, Except.map]

theorem outcome_operandsStep (scope : Scope) (function : Intrinsic) (name : String) (args : Node) :
    (operandsStep scope function name args).outcome =
      operandsOutcome scope function name args := by
  unfold operandsStep operandsOutcome operands?
  cases function.operands with
  | none => simp [resolveFirst, Step.outcome]
  | whole =>
    simp only [List.length_singleton]
    rw [outcome_resolveFirst_cons, Step.outcome_andThen]
    cases resolved : (resolve scope args).value with
    | error e => simp [Step.outcome, resolved, Except.bind]
    | ok value =>
      simp only [Step.outcome, resolved, Except.bind]
      cases scope.accept function name 0 value <;> simp [resolveFirst, Except.map]
  | items =>
    cases args with
    | list items => simp [resolveItems, itemCount]
    | _ => simp [resolveItems, Step.outcome]
  | fields first second =>
    cases args with
    | map entries =>
      simp only [resolveFields, resolveEntry_eq]
      cases Entries.get? entries first with
      | none => simp [Step.outcome]
      | some x =>
        cases Entries.get? entries second with
        | none => simp [Step.outcome]
        | some y => simp [outcome_bothFields]
    | _ => simp [resolveFields, Step.outcome]

theorem outcome_remember (function : Intrinsic) (name : String) (step : Step Node Json) :
    (remember function name step).outcome =
      match step.outcome with
      | (_, .error e) => (false, .error e)
      | (ready, .ok value) => (ready, .ok value) := by
  obtain ⟨tree, ready, value⟩ := step
  cases value with
  | error e => rfl
  | ok value => cases ready <;> rfl

theorem outcome_call (scope : Scope) (function : Intrinsic) (name : String) (args : Node) :
    (resolve scope (.call function name args none)).outcome =
      match operandsOutcome scope function name args with
      | (_, .error e) => (false, .error e)
      | (ready, .ok values) =>
        match scope.finish function name values with
        | .error e => (false, .error e)
        | .ok (value, more) => (ready && more, .ok value) := by
  rw [resolve_call, outcome_remember, Step.outcome_andThen, outcome_operandsStep]
  obtain ⟨ready, answer⟩ := operandsOutcome scope function name args
  cases answer with
  | error e => rfl
  | ok values =>
    simp only
    cases scope.finish function name values <;> rfl

/-! ## Lists and maps -/

theorem outcome_list (scope : Scope) (items : List Node) :
    (resolve scope (.list items)).outcome =
      ((resolveFirst scope unchecked 0 items.length items).onValue .list).outcome := by
  rw [resolve]
  rfl

theorem outcome_resolveEntries (scope : Scope) (entries : List (String × Node)) :
    ∀ position, (resolveEntries scope entries).outcome =
      ((resolveFirst scope unchecked position entries.length (entries.map Prod.snd)).onValue
        fun values => (Entries.keys entries).zip values).outcome := by
  induction entries with
  | nil =>
    intro position
    simp [resolveEntries, resolveFirst, Step.outcome, Step.onValue, Except.map]
  | cons entry rest ih =>
    intro position
    obtain ⟨key, x⟩ := entry
    rw [List.length_cons, List.map_cons, Step.outcome_onValue, outcome_resolveFirst_cons,
      resolveEntries]
    have later := ih (position + 1)
    rw [Step.outcome_onValue] at later
    cases (resolve scope x).value with
    | error e => simp [Step.outcome, Except.bind, Except.map]
    | ok value =>
      have moreReady := congrArg Prod.fst later
      have moreValue := congrArg Prod.snd later
      simp only [Step.outcome] at moreReady moreValue
      simp only [Step.outcome, Except.bind, unchecked, Except.map, moreReady, moreValue]
      cases (resolveFirst scope _ (position + 1) rest.length (rest.map Prod.snd)).value <;> rfl

theorem outcome_map (scope : Scope) (entries : List (String × Node)) :
    (resolve scope (.map entries)).outcome =
      ((resolveFirst scope unchecked 0 entries.length (entries.map Prod.snd)).onValue
        fun values => Json.object ((Entries.keys entries).zip values)).outcome := by
  rw [resolve, Step.outcome_onValue, Step.outcome_onTree, outcome_resolveEntries scope entries 0,
    Step.outcome_onValue, Step.outcome_onValue]
  cases (resolveFirst scope unchecked 0 entries.length (entries.map Prod.snd)).outcome.2 <;> rfl

section Alike

variable (scope other : Scope)

theorem outcome_list_congr (items after : List Node)
    (each : List.Forall₂ (fun x y => (resolve scope x).outcome = (resolve other y).outcome) items
      after) :
    (resolve scope (.list items)).outcome = (resolve other (.list after)).outcome := by
  rw [outcome_list, outcome_list, Step.outcome_onValue, Step.outcome_onValue, ← each.length_eq,
    outcome_resolveFirst_congr scope other unchecked unchecked items after 0 _ each
      fun _ _ _ _ _ => rfl]

theorem outcome_map_congr (entries after : List (String × Node))
    (keys : Entries.keys after = Entries.keys entries)
    (each : List.Forall₂ (fun x y => (resolve scope x).outcome = (resolve other y).outcome)
      (entries.map Prod.snd) (after.map Prod.snd)) :
    (resolve scope (.map entries)).outcome = (resolve other (.map after)).outcome := by
  have length : after.length = entries.length := by
    simpa using each.length_eq.symm
  rw [outcome_map, outcome_map, Step.outcome_onValue, Step.outcome_onValue, keys, length,
    outcome_resolveFirst_congr scope other unchecked unchecked _ _ 0 _ each fun _ _ _ _ _ => rfl]

end Alike

end Node
end Orchestration
