import Orchestration.Proofs.Results
import Orchestration.Proofs.Template.Sessions

/-!
# What a call waits for

Resolving a tree consults calls that read a resource; calls that remember their value are not looked
into.  The value of a call is remembered exactly if every call that it consulted had what it reads:
a readable resource and, where an attribute is named, a value there.  What is remembered stays,
whatever becomes of the stack.
-/

set_option autoImplicit false

namespace Orchestration

/-- The resource is readable, and the attribute that is named, if any, has a value. -/
def Resource.Supplies (resource : Resource) (named : List Json) : Prop :=
  resource.readable = true ∧ ∀ attributeName path, named = .string attributeName :: path →
    (resource.attribute? attributeName path).isSome = true

namespace Scope

def Available (scope : Scope) (values : List Json) : Prop :=
  ∃ key named resource, values = .string key :: named ∧ scope.stack.resource? key = some resource ∧
    resource.Supplies named

theorem available_iff (scope : Scope) (name : String) (first : Json) (named : List Json)
    (resource : Resource) (found : scope.resource? name first = .ok resource) :
    scope.Available (first :: named) ↔ resource.Supplies named := by
  obtain ⟨key, rfl, held⟩ := (resource?_eq_ok_iff scope name first resource).mp found
  constructor
  · rintro ⟨_, _, other, same, there, supplies⟩
    cases same
    rw [held] at there
    cases there
    exact supplies
  · exact fun supplies => ⟨key, named, resource, rfl, held, supplies⟩

theorem attributeValue_ready_iff (resource : Resource) (named : List Json) :
    (attributeValue resource named).2 = true ↔ resource.Supplies named := by
  unfold attributeValue Resource.Supplies
  cases resource.readable with
  | false => simp
  | true =>
    match named with
    | .string attributeName :: path =>
      cases held : resource.attribute? attributeName path <;> simp [held]
    | [] | .null :: _ | .bool _ :: _ | .number _ :: _ | .list _ :: _ | .object _ :: _ => simp

theorem ready_of_finish (scope : Scope) (function : Intrinsic) (name : String) (values : List Json)
    (value : Json) (ready : Bool) (apart : function.refers = false)
    (done : scope.finish function name values = .ok (value, ready)) : ready = true := by
  have immediately : ∀ result, immediate name result = .ok (value, ready) → ready = true := by
    intro result same
    cases result <;> simp only [immediate] at same <;> cases same
    rfl
  have mapped : ∀ result : Except TemplateError Json,
      (result.map fun held => (held, true)) = .ok (value, ready) → ready = true := by
    intro result same
    obtain ⟨held, _, pair⟩ := (map_eq_ok_iff _ _ _).mp same
    exact (Prod.ext_iff.mp pair).2.symm
  unfold finish at done
  split at done
  all_goals first
    | exact immediately _ done
    | exact mapped _ done
    | exact absurd apart (by decide)
    | (cases done <;> rfl)

theorem finish_ready_iff (scope : Scope) (function : Intrinsic) (name : String)
    (values : List Json) (value : Json) (ready : Bool)
    (done : scope.finish function name values = .ok (value, ready)) :
    ready = true ↔ (function.refers = true → scope.Available values) := by
  cases refers : function.refers with
  | false => simp [ready_of_finish scope function name values value ready refers done]
  | true =>
    cases values with
    | nil => cases function <;> simp [Intrinsic.refers, finish] at refers done
    | cons first rest =>
      obtain ⟨resource, found⟩ := resource?_of_finish scope function name first rest _ refers done
      rw [available_iff scope name first rest resource found]
      cases function with
      | getResource =>
        cases rest with
        | nil =>
          simp only [finish, found, Except.map, Except.ok.injEq, Prod.mk.injEq] at done
          simp [Resource.Supplies, ← done.2]
        | cons second more => simp [finish] at done
      | getAttr | getAttrAll =>
        simp only [finish, found, Except.map, Except.ok.injEq] at done
        rw [← attributeValue_ready_iff, done]
        simp
      | _ => simp [Intrinsic.refers] at refers

end Scope

namespace Node

/-- Resolving the tree resolves a call that reads a resource: neither the call nor one around it
remembers its value. -/
inductive Consults : Node → Intrinsic → String → Node → Prop where
  | here (function : Intrinsic) (name : String) (args : Node) (refers : function.refers = true) :
      Consults (.call function name args none) function name args
  | operand (function : Intrinsic) (name : String) (args : Node) (nodes : List Node) (x : Node)
      (found : operands? function args = some nodes) (member : x ∈ nodes) (inner : Intrinsic)
      (innerName : String) (innerArgs : Node) (below : Consults x inner innerName innerArgs) :
      Consults (.call function name args none) inner innerName innerArgs
  | item (items : List Node) (x : Node) (member : x ∈ items) (inner : Intrinsic)
      (innerName : String) (innerArgs : Node) (below : Consults x inner innerName innerArgs) :
      Consults (.list items) inner innerName innerArgs
  | entry (entries : List (String × Node)) (x : Node) (member : x ∈ entries.map Prod.snd)
      (inner : Intrinsic) (innerName : String) (innerArgs : Node)
      (below : Consults x inner innerName innerArgs) :
      Consults (.map entries) inner innerName innerArgs

def ReadsAvailable (scope : Scope) (function : Intrinsic) (name : String) (args : Node) : Prop :=
  ∃ values, (operandsOutcome scope function name args).2 = .ok values ∧ scope.Available values

/-- Every call that resolving the tree consults reads what is available. -/
def Supplied (scope : Scope) (node : Node) : Prop :=
  ∀ function name args, node.Consults function name args → ReadsAvailable scope function name args

section Supplied

variable (scope : Scope)

theorem supplied_literal (value : Json) : Supplied scope (.literal value) := by
  intro function name args consults
  cases consults

theorem supplied_list_iff (items : List Node) :
    Supplied scope (.list items) ↔ ∀ x ∈ items, Supplied scope x := by
  constructor
  · intro supplied x member function name args consults
    exact supplied _ _ _ (.item items x member _ _ _ consults)
  · intro each function name args consults
    cases consults with
    | item _ x member _ _ _ below => exact each x member _ _ _ below

theorem supplied_map_iff (entries : List (String × Node)) :
    Supplied scope (.map entries) ↔ ∀ x ∈ entries.map Prod.snd, Supplied scope x := by
  constructor
  · intro supplied x member function name args consults
    exact supplied _ _ _ (.entry entries x member _ _ _ consults)
  · intro each function name args consults
    cases consults with
    | entry _ x member _ _ _ below => exact each x member _ _ _ below

theorem supplied_memo (function : Intrinsic) (name : String) (args : Node) (held : Json) :
    Supplied scope (.call function name args (some held)) := by
  intro function name args consults
  cases consults

theorem supplied_call_iff (function : Intrinsic) (name : String) (args : Node) (nodes : List Node)
    (found : operands? function args = some nodes) :
    Supplied scope (.call function name args none) ↔ (∀ x ∈ nodes, Supplied scope x) ∧
      (function.refers = true → ReadsAvailable scope function name args) := by
  constructor
  · intro supplied
    refine ⟨fun x member inner innerName innerArgs consults => ?_, fun refers => ?_⟩
    · exact supplied _ _ _ (.operand function name args nodes x found member _ _ _ consults)
    · exact supplied _ _ _ (.here function name args refers)
  · rintro ⟨each, own⟩ inner innerName innerArgs consults
    cases consults with
    | here _ _ _ refers => exact own refers
    | operand _ _ _ nodes' x found' member _ _ _ below =>
      rw [found] at found'
      cases found'
      exact each x member _ _ _ below

end Supplied

theorem resolveFirst_ready_iff_supplied (scope : Scope) (check : Check) (items : List Node)
    (position : Nat) (values : List Json)
    (each : ∀ x ∈ items, ∀ value, (resolve scope x).value = .ok value →
      ((resolve scope x).ready = true ↔ Supplied scope x))
    (done : (resolveFirst scope check position items.length items).outcome.2 = .ok values) :
    (resolveFirst scope check position items.length items).outcome.1 = true ↔
      ∀ x ∈ items, Supplied scope x := by
  induction items generalizing position values with
  | nil => simp [resolveFirst, Step.outcome]
  | cons x rest ih =>
    obtain ⟨first, others⟩ := List.forall_mem_cons.mp each
    rw [List.length_cons] at done ⊢
    obtain ⟨value, more, resolved, checked, later, _⟩ :=
      (values_resolveFirst_cons_iff ..).mp done
    rw [outcome_resolveFirst_cons]
    simp only [resolved, checked, Except.bind, Except.map]
    rw [Bool.and_eq_true, List.forall_mem_cons, first value resolved,
      ih (position + 1) more others later]

theorem operands_ready_iff_supplied (scope : Scope) (function : Intrinsic) (name : String)
    (args : Node) (ready : Bool) (values : List Json)
    (each : ∀ x ∈ args :: args.parts, ∀ value, (resolve scope x).value = .ok value →
      ((resolve scope x).ready = true ↔ Supplied scope x))
    (done : operandsOutcome scope function name args = (ready, .ok values)) :
    ∃ nodes, operands? function args = some nodes ∧
      (ready = true ↔ ∀ x ∈ nodes, Supplied scope x) := by
  unfold operandsOutcome at done
  cases found : operands? function args with
  | none => simp [found] at done
  | some nodes =>
    simp only [found] at done
    have resolved := resolveFirst_ready_iff_supplied scope _ nodes 0 values
      (fun x member => each x (mem_of_operands? function args nodes found x member))
      (congrArg Prod.snd done)
    rw [done] at resolved
    exact ⟨nodes, rfl, resolved⟩

/-- A value is ready exactly if everything that was consulted for it is available. -/
theorem ready_iff_supplied (scope : Scope) (node : Node) (value : Json)
    (done : (resolve scope node).value = .ok value) :
    (resolve scope node).ready = true ↔ Supplied scope node := by
  change (resolve scope node).outcome.2 = .ok value at done
  change (resolve scope node).outcome.1 = true ↔ _
  induction node using parts_induction generalizing value with
  | literal held => simp [resolve, Step.outcome, supplied_literal]
  | list items ih =>
    rw [outcome_list, Step.outcome_onValue] at done ⊢
    obtain ⟨values, resolved, _⟩ := (map_eq_ok_iff _ _ _).mp done
    rw [supplied_list_iff]
    exact resolveFirst_ready_iff_supplied scope unchecked items 0 values ih resolved
  | map entries ih =>
    rw [outcome_map, Step.outcome_onValue, ← List.length_map (f := Prod.snd)] at done ⊢
    obtain ⟨values, resolved, _⟩ := (map_eq_ok_iff _ _ _).mp done
    rw [supplied_map_iff]
    exact resolveFirst_ready_iff_supplied scope unchecked _ 0 values ih resolved
  | call function name args memo ih =>
    cases memo with
    | some held => simp [resolve, Step.outcome, supplied_memo]
    | none =>
      rw [outcome_call] at done ⊢
      cases operands : operandsOutcome scope function name args with
      | mk ready answer =>
        cases answer with
        | error e => simp [operands] at done
        | ok values =>
          cases finished : scope.finish function name values with
          | error e => simp [operands, finished] at done
          | ok result =>
            obtain ⟨held, more⟩ := result
            have own : ReadsAvailable scope function name args ↔ scope.Available values := by
              simp [ReadsAvailable, operands]
            obtain ⟨nodes, found, resolved⟩ :=
              operands_ready_iff_supplied scope function name args ready values ih operands
            simp only [finished, Bool.and_eq_true]
            rw [supplied_call_iff scope function name args nodes found, resolved, own,
              Scope.finish_ready_iff scope function name values held more finished]

/-! ## What a call remembers after it was asked -/

theorem tree_remember (function : Intrinsic) (name : String) (step : Step Node Json) :
    (remember function name step).tree = .call function name step.tree
      (match (remember function name step).outcome with
        | (true, .ok value) => some value
        | _ => none) := by
  obtain ⟨tree, ready, value⟩ := step
  cases value with
  | error e => rfl
  | ok value => cases ready <;> rfl

theorem resolve_call_memo (scope : Scope) (function : Intrinsic) (name : String) (args : Node)
    (memo : Option Json) :
    ∃ after later, (resolve scope (.call function name args memo)).tree =
        .call function name after later ∧
      (∀ value, (resolve scope (.call function name args memo)).value = .ok value →
        (later = none ∨ later = some value) ∧
          (later.isSome = true ↔
            memo.isSome = true ∨ Supplied scope (.call function name args memo))) ∧
      ∀ e, (resolve scope (.call function name args memo)).value = .error e → later = none := by
  cases memo with
  | some held =>
    refine ⟨args, some held, by rw [resolve], fun value done => ?_, fun e failed => ?_⟩
    · rw [resolve, Except.ok.injEq] at done
      simp [done]
    · simp [resolve] at failed
  | none =>
    have remembered := tree_remember function name
      ((operandsStep scope function name args).andThen (scope.finish function name))
    rw [← resolve_call] at remembered
    refine ⟨_, _, remembered, fun value done => ?_, fun e failed => ?_⟩
    · have supplied := ready_iff_supplied scope _ value done
      rw [← supplied]
      simp only [Step.outcome, done]
      cases (resolve scope (.call function name args none)).ready <;> simp
    · simp only [Step.outcome, failed]
      cases (resolve scope (.call function name args none)).ready <;> rfl

theorem Fuller.memo_below? {scope : Scope} {before after : Node}
    (fuller : Fuller scope before after) (path : List Json) (function : Intrinsic) (name : String)
    (args : Node) (held : Json)
    (found : before.below? path = some (.call function name args (some held))) :
    ∃ args', after.below? path = some (.call function name args' (some held)) := by
  rcases fuller.below? path with ⟨missing, _⟩ | ⟨x, y, found', foundAfter, below⟩
  · rw [missing] at found
    cases found
  · rw [found] at found'
    cases found'
    cases below with
    | call _ _ _ args' _ later _ kept _ =>
      rw [kept held rfl] at foundAfter
      exact ⟨args', foundAfter⟩

theorem ask_resolve_of_below? (scope : Scope) (root x : Node) (path : List Json)
    (found : root.below? path = some x) :
    (root.ask scope (.resolve path)).2 = .value (resolve scope x).value ∧
      (root.ask scope (.resolve path)).1.below? path = some (resolve scope x).tree := by
  have answer := answer_stepAt
    (fun node => ((resolve scope node).tree, Answer.value (resolve scope node).value)) path root
  rw [found, Option.map_some, Option.map_eq_some_iff] at answer
  obtain ⟨reached, here, answered⟩ := answer
  obtain ⟨y, found', left⟩ := below?_stepAt _ path root reached here
  rw [found] at found'
  cases found'
  rw [ask, askAt, here, Option.getD_some]
  exact ⟨answered, left⟩

end Node

namespace Template

theorem memo_after (template : Template) (stack : Stack) (root : Node)
    (events : List SessionEvent) (path : List Json) (function : Intrinsic) (name : String)
    (args : Node) (held : Json)
    (found : root.below? path = some (.call function name args (some held))) :
    ∃ args', (template.after stack root events).2.below? path =
      some (.call function name args' (some held)) := by
  induction events generalizing stack root args with
  | nil => exact ⟨args, found⟩
  | cons event rest ih =>
    cases event with
    | change next => exact ih next root args found
    | ask question =>
      have fuller := (Node.steady_ask ⟨template.digests, stack⟩ question).fuller root
      obtain ⟨args', kept⟩ := fuller.memo_below? path function name args held found
      exact ih stack _ args' kept

/-- When a call anywhere in a tree is asked for its value and has one, it remembers the value
exactly if it remembered one before or everything that it consulted was available; without a value
it remembers nothing.  What it remembers is its value ever after, whatever becomes of the stack. -/
theorem memo_exact_and_lasting (template : Template) (stack : Stack) (root : Node)
    (path : List Json) (function : Intrinsic) (name : String) (args : Node) (memo : Option Json)
    (found : root.below? path = some (.call function name args memo)) :
    (∃ result args' later,
      (root.ask ⟨template.digests, stack⟩ (.resolve path)).2 = .value result ∧
        (root.ask ⟨template.digests, stack⟩ (.resolve path)).1.below? path =
          some (.call function name args' later) ∧
        (∀ value, result = .ok value → (later = none ∨ later = some value) ∧
          (later.isSome = true ↔ memo.isSome = true ∨
            Node.Supplied ⟨template.digests, stack⟩ (.call function name args memo))) ∧
        ∀ e, result = .error e → later = none) ∧
      ∀ held, memo = some held → ∀ events,
        ((template.after stack root events).2.ask
          ⟨template.digests, (template.after stack root events).1⟩ (.resolve path)).2 =
            .value (.ok held) ∧
          ∃ args', (template.after stack root events).2.below? path =
            some (.call function name args' (some held)) := by
  constructor
  · obtain ⟨answer, left⟩ := Node.ask_resolve_of_below? ⟨template.digests, stack⟩ root _ path found
    obtain ⟨args', later, tree, remembered⟩ :=
      Node.resolve_call_memo ⟨template.digests, stack⟩ function name args memo
    exact ⟨_, args', later, answer, left.trans (congrArg some tree), remembered⟩
  · rintro held rfl events
    obtain ⟨args', kept⟩ := memo_after template stack root events path function name args held found
    obtain ⟨answer, _⟩ := Node.ask_resolve_of_below?
      ⟨template.digests, (template.after stack root events).1⟩ _ _ path kept
    rw [Node.resolve] at answer
    exact ⟨answer, args', kept⟩

def serverAndVolumeTree : Node :=
  .call .joinMultiple "list_join" (.list [.literal (.string ","), .list
    [.call .getAttrAll "get_attr"
        (.list [.literal (.string "server"), .literal (.string "address")]) none,
      .call .getAttrAll "get_attr" (.list [.literal (.string "volume"), .literal (.string "size")])
        none]]) none

/-- While the server is pending, only the size of the volume is remembered, and that for good. -/
theorem only_volume_is_remembered :
    let template : Template := ⟨.v20161014, []⟩
    let asked := (serverAndVolumeTree.ask ⟨[], volumeOnly⟩ (.resolve [])).1
    Node.parse .v20161014 serverAndVolume = .ok serverAndVolumeTree ∧
      serverAndVolumeTree.below? [] = some serverAndVolumeTree ∧
      (serverAndVolumeTree.ask ⟨[], volumeOnly⟩ (.resolve [])).2 = .value (.ok (.string ",5")) ∧
      (∃ args, asked.below? [] = some (.call .joinMultiple "list_join" args none)) ∧
      ¬ Node.Supplied ⟨[], volumeOnly⟩ serverAndVolumeTree ∧
      ∀ events, ((template.after volumeOnly asked events).2.ask
        ⟨[], (template.after volumeOnly asked events).1⟩
        (.resolve [.string "args", .ofInt 1, .ofInt 1])).2 = .value (.ok (.string "5")) := by
  have found : serverAndVolumeTree.below? [] = some serverAndVolumeTree := rfl
  obtain ⟨⟨result, args, later, answer, left, remembered, _⟩, _⟩ :=
    memo_exact_and_lasting ⟨.v20161014, []⟩ volumeOnly serverAndVolumeTree [] _ _ _ _ found
  cases answer
  cases left
  have waits : ¬ Node.Supplied ⟨[], volumeOnly⟩ serverAndVolumeTree := fun supplied => by
    simpa using (remembered (.string ",5") rfl).2.mpr (.inr supplied)
  refine ⟨rfl, found, rfl, ⟨_, rfl⟩, waits, fun events => ?_⟩
  exact ((memo_exact_and_lasting ⟨.v20161014, []⟩ volumeOnly
    (serverAndVolumeTree.ask ⟨[], volumeOnly⟩ (.resolve [])).1
    [.string "args", .ofInt 1, .ofInt 1] .getAttrAll "get_attr"
    (.list [.literal (.string "volume"), .literal (.string "size")]) (some (.string "5")) rfl).2
    _ rfl events).1

end Template

end Orchestration
