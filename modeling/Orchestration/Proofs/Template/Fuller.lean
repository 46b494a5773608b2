import Orchestration.Proofs.Entries
import Orchestration.Proofs.Template.Operands

/-!
# Trees that remember more

`Fuller scope before after`: the second tree is the first one with more values remembered, each of
which its call settles on.  Nothing is asked of what the first tree remembers; it may be left from
other stacks.  A fuller tree comes to the same (`Fuller.outcome`), and a tree is only made fuller by
resolving it (`fuller_resolve`).
-/

set_option autoImplicit false

namespace Orchestration

namespace Node

/-- The second tree is the first one with more values remembered, each of which its call settles
on. -/
inductive Fuller (scope : Scope) : Node → Node → Prop where
  | literal (value : Json) : Fuller scope (.literal value) (.literal value)
  | list (items after : List Node) (each : List.Forall₂ (Fuller scope) items after) :
      Fuller scope (.list items) (.list after)
  | map (entries after : List (String × Node)) (keys : Entries.keys after = Entries.keys entries)
      (each : List.Forall₂ (Fuller scope) (entries.map Prod.snd) (after.map Prod.snd)) :
      Fuller scope (.map entries) (.map after)
  | call (function : Intrinsic) (name : String) (args after : Node) (memo later : Option Json)
      (below : Fuller scope args after)
      (kept : ∀ value, memo = some value → later = some value)
      (final : ∀ value, memo = none → later = some value →
        Settles scope (.call function name args none) value) :
      Fuller scope (.call function name args memo) (.call function name after later)

namespace Fuller

variable {scope : Scope} {node before middle after : Node}

theorem refl : Fuller scope node node := by
  induction node using parts_induction with
  | literal value => exact .literal value
  | list items ih => exact .list items items (List.forall₂_same.mpr ih)
  | map entries ih => exact .map entries entries rfl (List.forall₂_same.mpr ih)
  | call function name args memo ih =>
    exact .call function name args args memo memo (ih args (List.mem_cons_self ..))
      (fun _ same => same) (fun _ missing present => by rw [missing] at present; cases present)

theorem args {function : Intrinsic} {name : String} {memo : Option Json}
    (fuller : Fuller scope before after) :
    Fuller scope (.call function name before memo) (.call function name after memo) :=
  .call function name before after memo memo fuller (fun _ same => same)
    (fun _ missing present => by rw [missing] at present; cases present)

theorem parts (fuller : Fuller scope before after) :
    List.Forall₂ (Fuller scope) before.parts after.parts := by
  cases fuller with
  | literal value => exact .nil
  | list items after each => exact each
  | map entries after keys each => exact each
  | call function name args after memo later below kept final => exact .cons below .nil

theorem itemCount (fuller : Fuller scope before after) :
    Node.itemCount after = Node.itemCount before := by
  cases fuller with
  | list items after each => exact each.length_eq.symm
  | _ => rfl

theorem operands? (function : Intrinsic) (fuller : Fuller scope before after) :
    (Node.operands? function before = none ∧ Node.operands? function after = none) ∨
      ∃ nodes others, Node.operands? function before = some nodes ∧
        Node.operands? function after = some others ∧ List.Forall₂ (Fuller scope) nodes others := by
  unfold Node.operands?
  cases form : function.operands with
  | none => exact .inr ⟨[], [], rfl, rfl, .nil⟩
  | whole => exact .inr ⟨[before], [after], rfl, rfl, .cons fuller .nil⟩
  | items =>
    cases fuller with
    | list items after each => exact .inr ⟨items, after, rfl, rfl, each⟩
    | _ => exact .inl ⟨rfl, rfl⟩
  | fields first second =>
    cases fuller with
    | map entries after keys each =>
      simp only
      rcases Entries.get?_related entries after keys each first with
        ⟨missing, missing'⟩ | ⟨x, x', found, found', one⟩
      · exact .inl ⟨by rw [missing], by rw [missing']⟩
      · rw [found, found']
        rcases Entries.get?_related entries after keys each second with
          ⟨missing, missing'⟩ | ⟨y, y', there, there', two⟩
        · exact .inl ⟨by rw [missing], by rw [missing']⟩
        · rw [there, there']
          exact .inr ⟨[x, y], [x', y'], rfl, rfl, .cons one (.cons two .nil)⟩
    | _ => exact .inl ⟨rfl, rfl⟩

end Fuller

/-! ## A fuller tree comes to the same -/

theorem outcome_resolveFirst_alike (scope : Scope) (check : Check) (items after : List Node)
    (position count : Nat)
    (each : List.Forall₂ (fun x y => (resolve scope y).outcome = (resolve scope x).outcome) items
      after) :
    (resolveFirst scope check position count after).outcome =
      (resolveFirst scope check position count items).outcome :=
  (outcome_resolveFirst_congr scope scope check check items after position count
    (each.imp fun _ _ same => same.symm) fun _ _ _ _ _ => rfl).symm

theorem operandsOutcome_alike (scope : Scope) (function : Intrinsic) (name : String)
    (args after : Node) (fuller : Fuller scope args after)
    (same : ∀ x ∈ args :: args.parts, ∀ y, Fuller scope x y →
      (resolve scope y).outcome = (resolve scope x).outcome) :
    operandsOutcome scope function name after = operandsOutcome scope function name args := by
  unfold operandsOutcome
  rcases fuller.operands? function with ⟨missing, missing'⟩ | ⟨nodes, others, found, found', each⟩
  · rw [missing, missing']
  · rw [found, found']
    simp only
    rw [← each.length_eq]
    exact outcome_resolveFirst_alike scope _ nodes others 0 _ (related_of_mem each fun x member =>
      same x (mem_of_operands? function args nodes found x member))

theorem Fuller.outcome {scope : Scope} {before after : Node} (fuller : Fuller scope before after) :
    (resolve scope after).outcome = (resolve scope before).outcome := by
  induction before using parts_induction generalizing after with
  | literal value =>
    cases fuller
    rfl
  | list items ih =>
    cases fuller with
    | list _ after each =>
      exact (outcome_list_congr scope scope items after (related_of_mem each
        fun x member y below => (ih x member below).symm)).symm
  | map entries ih =>
    cases fuller with
    | map _ after keys each =>
      exact (outcome_map_congr scope scope entries after keys (related_of_mem each
        fun x member y below => (ih x member below).symm)).symm
  | call function name args memo ih =>
    cases fuller with
    | call _ _ _ after _ later below kept final =>
      have asCall : (resolve scope (.call function name after none)).outcome =
          (resolve scope (.call function name args none)).outcome := by
        rw [outcome_call, outcome_call,
          operandsOutcome_alike scope function name args after below fun x member y => ih x member]
      cases memo with
      | some value =>
        rw [kept value rfl, resolve, resolve]
        rfl
      | none =>
        cases later with
        | none => exact asCall
        | some value =>
          -- What is new in memory is what the call settles on.
          rw [final value rfl rfl, resolve]
          rfl

theorem Fuller.value {scope : Scope} {before after : Node} (fuller : Fuller scope before after) :
    (resolve scope after).value = (resolve scope before).value :=
  Step.value_congr fuller.outcome

theorem forall₂_fuller_trans {scope : Scope} {items middle after : List Node}
    (first : List.Forall₂ (Fuller scope) items middle)
    (second : List.Forall₂ (Fuller scope) middle after)
    (each : ∀ x ∈ items, ∀ {y z}, Fuller scope x y → Fuller scope y z → Fuller scope x z) :
    List.Forall₂ (Fuller scope) items after := by
  induction first generalizing after with
  | nil => exact second
  | cons one rest ih =>
    cases second with
    | cons two more =>
      exact .cons (each _ (List.mem_cons_self ..) one two)
        (ih more fun x member => each x (List.mem_cons_of_mem _ member))

theorem Fuller.trans {scope : Scope} {before middle after : Node}
    (first : Fuller scope before middle) (second : Fuller scope middle after) :
    Fuller scope before after := by
  induction before using parts_induction generalizing middle after with
  | literal value =>
    cases first
    exact second
  | list items ih =>
    cases first with
    | list _ middle one =>
      cases second with
      | list _ after two =>
        exact .list items after (forall₂_fuller_trans one two ih)
  | map entries ih =>
    cases first with
    | map _ middle keys one =>
      cases second with
      | map _ after moreKeys two =>
        exact .map entries after (moreKeys.trans keys) (forall₂_fuller_trans one two ih)
  | call function name args memo ih =>
    cases first with
    | call _ _ _ middle _ later below kept final =>
      cases second with
      | call _ _ _ after _ last below' kept' final' =>
        refine .call function name args after memo last
          (ih args (List.mem_cons_self ..) below below')
          (fun value known => kept' value (kept value known)) fun value missing present => ?_
        cases later with
        | some held =>
          have same := kept' held rfl
          rw [present] at same
          cases same
          exact final value missing rfl
        | none =>
          have settled := final' value rfl present
          rwa [Settles, Fuller.outcome below.args] at settled

/-! ## Resolving leaves a fuller tree -/

section Resolve

variable (scope : Scope)

theorem fuller_resolveFirst (check : Check) (items : List Node) (position count : Nat)
    (each : ∀ x ∈ items, Fuller scope x (resolve scope x).tree) :
    List.Forall₂ (Fuller scope) items (resolveFirst scope check position count items).tree := by
  induction items generalizing position count with
  | nil => simp [resolveFirst]
  | cons x rest ih =>
    have first := each x (List.mem_cons_self ..)
    have untouched : List.Forall₂ (Fuller scope) rest rest :=
      List.forall₂_same.mpr fun _ _ => .refl
    cases count with
    | zero =>
      rw [resolveFirst]
      · exact .cons .refl untouched
      · simp
    | succ count =>
      rw [resolveFirst]
      split
      · exact .cons first untouched
      · exact .cons first (ih (position + 1) count fun y member =>
          each y (List.mem_cons_of_mem _ member))

theorem fuller_resolveEntries (entries : List (String × Node))
    (each : ∀ x ∈ entries.map Prod.snd, Fuller scope x (resolve scope x).tree) :
    Fuller scope (.map entries) (.map (resolveEntries scope entries).tree) := by
  induction entries with
  | nil =>
    rw [resolveEntries]
    exact .refl
  | cons entry rest ih =>
    obtain ⟨key, x⟩ := entry
    have first := each x (List.mem_cons_self ..)
    rw [resolveEntries]
    split
    · exact .map _ _ rfl (.cons first (List.forall₂_same.mpr fun _ _ => .refl))
    · cases ih fun y member => each y (List.mem_cons_of_mem _ member) with
      | map _ _ keys later =>
        exact .map _ _ (congrArg (key :: ·) keys) (.cons first later)

theorem fuller_put (entries : List (String × Node)) (key : String) (x after : Node)
    (found : Entries.get? entries key = some x) (fuller : Fuller scope x after) :
    Fuller scope (.map entries) (.map (Entries.put entries key after)) := by
  refine .map _ _ (Entries.keys_put_of_present entries key x after found) ?_
  induction entries with
  | nil => simp at found
  | cons entry rest ih =>
    obtain ⟨k, y⟩ := entry
    rw [Entries.get?_cons] at found
    rw [Entries.put]
    split at found
    · rename_i same
      cases found
      rw [if_pos same]
      exact .cons fuller (List.forall₂_same.mpr fun _ _ => .refl)
    · rename_i other
      rw [if_neg other]
      exact .cons .refl (ih found)

theorem fuller_set (items : List Node) (i : Nat) (x after : Node) (found : items[i]? = some x)
    (fuller : Fuller scope x after) : Fuller scope (.list items) (.list (items.set i after)) := by
  refine .list _ _ ?_
  induction items generalizing i with
  | nil => simp at found
  | cons y rest ih =>
    cases i with
    | zero =>
      cases found
      exact .cons fuller (List.forall₂_same.mpr fun _ _ => .refl)
    | succ i => exact .cons .refl (ih i found)

theorem fuller_resolveFields (check : Check) (fault : TemplateError) (first second : String)
    (args : Node) (each : ∀ x ∈ args.parts, Fuller scope x (resolve scope x).tree) :
    Fuller scope args (resolveFields scope check fault first second args).tree := by
  cases args with
  | map entries =>
    simp only [resolveFields, resolveEntry_eq]
    cases foundFirst : Entries.get? entries first with
    | none => exact .refl
    | some x =>
      cases foundSecond : Entries.get? entries second with
      | none => exact .refl
      | some y =>
        have fullerFirst := each x
          (List.mem_map_of_mem (Entries.mem_of_get? entries first x foundFirst))
        have fullerSecond := each y
          (List.mem_map_of_mem (Entries.mem_of_get? entries second y foundSecond))
        have written := fuller_put scope entries first x _ foundFirst fullerFirst
        have writtenBoth : Fuller scope (.map entries) (.map (Entries.put
            (Entries.put entries first (resolve scope x).tree) second (resolve scope y).tree)) := by
          refine written.trans ?_
          -- The second tree is put into what the first one left, where it may stand itself.
          by_cases same : first = second
          · subst second
            rw [foundFirst] at foundSecond
            cases foundSecond
            exact fuller_put scope _ first _ _ (by rw [Entries.get?_put, if_pos rfl]) .refl
          · exact fuller_put scope _ second y _ (by rw [Entries.get?_put, if_neg same, foundSecond])
              fullerSecond
        simp only [Option.map_some, bothFields]
        split
        · exact written
        · split <;> exact writtenBoth
  | _ => exact .refl

theorem fuller_operandsStep (function : Intrinsic) (name : String) (args : Node)
    (each : ∀ x ∈ args :: args.parts, Fuller scope x (resolve scope x).tree) :
    Fuller scope args (operandsStep scope function name args).tree := by
  unfold operandsStep
  cases function.operands with
  | none => exact .refl
  | whole =>
    simp only [Step.tree_andThen]
    exact each args (List.mem_cons_self ..)
  | items =>
    cases args with
    | list items =>
      exact .list _ _ (fuller_resolveFirst scope _ items 0 _ fun x member =>
        each x (List.mem_cons_of_mem _ member))
    | _ => exact .refl
  | fields first second =>
    exact fuller_resolveFields scope _ _ first second args fun x member =>
      each x (List.mem_cons_of_mem _ member)

theorem fuller_remember (function : Intrinsic) (name : String) (args : Node) (step : Step Node Json)
    (fuller : Fuller scope args step.tree)
    (final : ∀ value, step.outcome = (true, .ok value) →
      Settles scope (.call function name args none) value) :
    Fuller scope (.call function name args none) (remember function name step).tree := by
  unfold remember
  split
  · rename_i value answered
    split
    · rename_i ready
      refine .call function name args _ none _ fuller (by simp) ?_
      intro remembered _ same
      cases same
      exact final value (Prod.ext ready answered)
    · exact fuller.args
  · exact fuller.args

theorem fuller_resolve (node : Node) : Fuller scope node (resolve scope node).tree := by
  induction node using parts_induction with
  | literal value =>
    rw [resolve]
    exact .refl
  | list items ih =>
    rw [resolve]
    exact .list _ _ (fuller_resolveFirst scope _ items 0 _ ih)
  | map entries ih =>
    rw [resolve]
    exact fuller_resolveEntries scope entries ih
  | call function name args memo ih =>
    cases memo with
    | some value =>
      rw [resolve]
      exact .refl
    | none =>
      rw [resolve_call]
      apply fuller_remember
      · rw [Step.tree_andThen]
        exact fuller_operandsStep scope function name args ih
      · intro value final
        rw [Settles, resolve_call, outcome_remember, final]

end Resolve

end Node

end Orchestration
