import Orchestration.Proofs.Results
import Orchestration.Proofs.Template.Visits

/-!
# Wider functions

Four functions of the older version have a wider one of the same name in the newer version.
`widened` puts these in place of the older ones.  Whatever an operation on a tree comes to, it comes
to the same on the widened tree, and leaves the widened tree of what it left before; where the
older functions fail, the wider ones may come to something.
-/

set_option autoImplicit false

namespace Orchestration

/-- The function of the newer version that has the name of this one. -/
def Intrinsic.widened : Intrinsic → Intrinsic
  | .getAttr => .getAttrAll
  | .join => .joinMultiple
  | .replace => .replaceJson
  | .repeatList => .repeatWithMap
  | function => function

namespace Version

def addedNames : List String := ["str_split", "map_merge", "map_replace", "equals"]

theorem function?_eq (version : Version) (name : String) :
    version.function? name = (common? name).or (version.own? name) := by
  unfold function?
  cases common? name <;> rfl

theorem widened_of_common (name : String) (function : Intrinsic)
    (known : common? name = some function) : function.widened = function := by
  unfold common? at known
  split at known
  case h_6 =>
    split at known
    · cases known
      rfl
    · cases known
  all_goals
    cases known
    rfl

theorem own?_widened (name : String) (function : Intrinsic)
    (known : Version.v20150430.own? name = some function) :
    Version.v20161014.own? name = some function.widened := by
  unfold own? at known
  split at known <;> cases known <;> rfl

theorem function?_widened (name : String) (function : Intrinsic)
    (known : Version.v20150430.function? name = some function) :
    Version.v20161014.function? name = some function.widened := by
  rw [function?_eq] at known ⊢
  cases common : common? name with
  | some shared =>
    rw [common] at known
    cases known
    rw [widened_of_common name function common]
    rfl
  | none =>
    rw [common] at known
    exact own?_widened name function known

theorem function?_of_not_added (name : String) (plain : name ∉ addedNames)
    (unknown : Version.v20150430.function? name = none) :
    Version.v20161014.function? name = none := by
  rw [function?_eq, Option.or_eq_none_iff] at unknown ⊢
  refine ⟨unknown.1, ?_⟩
  have older := unknown.2
  unfold own? at older ⊢
  split <;> simp_all [addedNames]

end Version

namespace Functions

theorem mapM_plainItem (items : List Json) (texts : List String)
    (plain : items.mapM plainItem = .ok texts) : items.map Json.inlineText = texts := by
  induction items generalizing texts with
  | nil => simpa [pure, Except.pure] using plain
  | cons item rest ih =>
    simp only [List.mapM_cons, bind, bind_eq_ok_iff] at plain
    obtain ⟨text, first, others, more, done⟩ := plain
    cases done
    rw [List.map_cons, ih others more]
    cases item <;> simp_all [plainItem, Json.inlineText, Json.scalarText?]

theorem join_widened (delimiter : String) (lists : List Json) (value : Json)
    (done : join false delimiter lists = .ok value) : join true delimiter lists = .ok value := by
  simp only [join, bind, bind_eq_ok_iff, Bool.false_eq_true, if_false, if_true] at done ⊢
  obtain ⟨items, joined, texts, plain, done⟩ := done
  exact ⟨items, joined, texts, congrArg Except.ok (mapM_plainItem items texts plain), done⟩

theorem placeholderText_widened (value : Json) (text : String)
    (done : placeholderText false value = .ok text) : placeholderText true value = .ok text := by
  unfold placeholderText at done ⊢
  cases plain : value.scalarText? with
  | none => simp [plain] at done
  | some known => rwa [plain] at done

theorem placeholders_widened (params : Object) (keys : List String)
    (pairs : List (List Char × List Char)) (done : placeholders false params keys = .ok pairs) :
    placeholders true params keys = .ok pairs := by
  induction keys generalizing pairs with
  | nil => exact done
  | cons key rest ih =>
    rw [placeholders] at done ⊢
    split at done
    · cases done
    · rename_i named
      simp only [bind, bind_eq_ok_iff, if_neg named] at done ⊢
      obtain ⟨text, first, others, more, done⟩ := done
      exact ⟨text, placeholderText_widened _ text first, others, ih others more, done⟩

theorem replace_widened (template : String) (params : Object) (value : Json)
    (done : replace false template params = .ok value) :
    replace true template params = .ok value := by
  simp only [replace, bind, bind_eq_ok_iff] at done ⊢
  obtain ⟨pairs, found, done⟩ := done
  exact ⟨pairs, placeholders_widened params _ pairs found, done⟩

theorem repeatItems_widened (value : Json) (items : List Json)
    (done : repeatItems false value = .ok items) : repeatItems true value = .ok items := by
  cases value <;> simp_all [repeatItems]

theorem repeatLists_widened (forEach : Object) (lists : List (List Json))
    (done : repeatLists false forEach = .ok lists) : repeatLists true forEach = .ok lists := by
  unfold repeatLists at done ⊢
  induction forEach generalizing lists with
  | nil => exact done
  | cons entry rest ih =>
    simp only [List.mapM_cons, bind, bind_eq_ok_iff] at done ⊢
    obtain ⟨items, first, others, more, done⟩ := done
    exact ⟨items, repeatItems_widened _ items first, others, ih others more, done⟩

theorem repeatTemplate_widened (forEach : Object) (template value : Json)
    (done : repeatTemplate false forEach template = .ok value) :
    repeatTemplate true forEach template = .ok value := by
  simp only [repeatTemplate, bind, bind_eq_ok_iff] at done ⊢
  obtain ⟨lists, found, done⟩ := done
  exact ⟨lists, repeatLists_widened forEach lists found, done⟩

end Functions

namespace Scope

theorem accept_widened (scope : Scope) (function : Intrinsic) (name : String) (position : Nat)
    (value : Json) (accepted : scope.accept function name position value = .ok ()) :
    scope.accept function.widened name position value = .ok () := by
  cases function with
  | repeatList =>
    match position, value with
    | 0, .object entries =>
      simp only [accept, Intrinsic.widened, beq_self_eq_true] at accepted ⊢
      rw [show (Intrinsic.repeatList == .repeatWithMap) = false from rfl] at accepted
      cases lists : Functions.repeatLists false entries with
      | error e => simp [lists] at accepted
      | ok found => rw [Functions.repeatLists_widened entries found lists]
    | 0, .null | 0, .bool _ | 0, .number _ | 0, .string _ | 0, .list _ => simp [accept] at accepted
    | _ + 1, _ => rfl
  | getAttr | join | replace =>
    match position, value with
    | 0, .null | 0, .bool _ | 0, .number _ | 0, .string _ | 0, .list _ | 0, .object _
    | 1, .null | 1, .bool _ | 1, .number _ | 1, .string _ | 1, .list _ | 1, .object _
    | _ + 2, .null | _ + 2, .bool _ | _ + 2, .number _ | _ + 2, .string _ | _ + 2, .list _
    | _ + 2, .object _ => exact accepted
  | _ => exact accepted

theorem immediate_widened (name : String) (older newer : Except Fault Json) (result : Json × Bool)
    (wider : ∀ value, older = .ok value → newer = .ok value)
    (done : immediate name older = .ok result) : immediate name newer = .ok result := by
  cases older with
  | error fault => simp [immediate] at done
  | ok value => rwa [wider value rfl]

theorem finish_widened (scope : Scope) (function : Intrinsic) (name : String) (values : List Json)
    (result : Json × Bool) (done : scope.finish function name values = .ok result) :
    scope.finish function.widened name values = .ok result := by
  cases function with
  | getAttr =>
    cases values with
    | nil => simp [finish] at done
    | cons first rest => exact done
  | join =>
    match values with
    | .string delimiter :: lists =>
      exact immediate_widened name _ _ result (Functions.join_widened delimiter lists) done
    | [] | .null :: _ | .bool _ :: _ | .number _ :: _ | .list _ :: _ | .object _ :: _ =>
      simp [finish] at done
  | replace =>
    unfold finish at done
    split at done <;> try contradiction
    · exact immediate_widened name _ _ result (Functions.replace_widened _ _) done
  | repeatList =>
    unfold finish at done
    split at done <;> try contradiction
    · exact immediate_widened name _ _ result (Functions.repeatTemplate_widened _ _) done
  | _ => exact done

end Scope

namespace Step

variable {τ σ α β : Type}

/-- If the older step succeeds, the newer one comes to the same and leaves the same tree. -/
def CarriesTo (f : τ → σ) (older : Step τ α) (newer : Step σ α) : Prop :=
  ∀ a, older.value = .ok a → newer = ⟨f older.tree, older.ready, .ok a⟩

namespace CarriesTo

variable {f : τ → σ} {older : Step τ α} {newer : Step σ α}

theorem onValue (carries : CarriesTo f older newer) (g : α → β) :
    CarriesTo f (older.onValue g) (newer.onValue g) := by
  intro b done
  cases answer : older.value with
  | error e => simp [Step.onValue, answer, Except.map] at done
  | ok a =>
    rw [carries a answer]
    simp only [Step.onValue, answer, Except.map, Except.ok.injEq] at done ⊢
    rw [done]

theorem onTree {ρ π : Type} (carries : CarriesTo f older newer) (g : ρ → π) (outer : τ → ρ)
    (newOuter : σ → π) (commutes : ∀ tree, g (outer tree) = newOuter (f tree)) :
    CarriesTo g (older.onTree outer) (newer.onTree newOuter) := by
  intro a done
  rw [carries a done]
  simp only [Step.onTree, commutes]

theorem andThen (carries : CarriesTo f older newer) (g h : α → Except TemplateError (β × Bool))
    (wider : ∀ a b, g a = .ok b → h a = .ok b) :
    CarriesTo f (older.andThen g) (newer.andThen h) := by
  intro b done
  cases answer : older.value with
  | error e => simp [Step.andThen, answer] at done
  | ok a =>
    rw [carries a answer]
    cases more : g a with
    | error e => simp [Step.andThen, answer, more] at done
    | ok result =>
      simp only [Step.andThen, answer, more, Except.ok.injEq] at done
      simp only [Step.andThen, answer, more, wider a result more, done]

end CarriesTo

end Step

namespace Node

mutual

def widened : Node → Node
  | .literal value => .literal value
  | .list items => .list (widenedItems items)
  | .map entries => .map (widenedEntries entries)
  | .call function name args memo => .call function.widened name (widened args) memo

def widenedItems : List Node → List Node
  | [] => []
  | x :: rest => widened x :: widenedItems rest

def widenedEntries : List (String × Node) → List (String × Node)
  | [] => []
  | (key, x) :: rest => (key, widened x) :: widenedEntries rest

end

theorem widenedItems_eq_map (items : List Node) : widenedItems items = items.map widened := by
  induction items with
  | nil => simp [widenedItems]
  | cons x rest ih => simp [widenedItems, ih]

theorem widenedEntries_eq_mapValues (entries : List (String × Node)) :
    widenedEntries entries = Entries.mapValues widened entries := by
  induction entries with
  | nil => simp [widenedEntries]
  | cons entry rest ih =>
    obtain ⟨key, x⟩ := entry
    simp [widenedEntries, ih]

@[simp] theorem widened_literal (value : Json) : widened (.literal value) = .literal value := by
  simp [widened]

@[simp] theorem widened_list (items : List Node) :
    widened (.list items) = .list (items.map widened) := by
  simp [widened, widenedItems_eq_map]

@[simp] theorem widened_map (entries : List (String × Node)) :
    widened (.map entries) = .map (Entries.mapValues widened entries) := by
  simp [widened, widenedEntries_eq_mapValues]

@[simp] theorem widened_call (function : Intrinsic) (name : String) (args : Node)
    (memo : Option Json) :
    widened (.call function name args memo) = .call function.widened name args.widened memo := by
  simp [widened]

/-! ## Resolving -/

section Resolving

variable (scope : Scope)

theorem resolveFirst_widened (check wider : Check)
    (accepts : ∀ i value, check i value = .ok () → wider i value = .ok ()) :
    ∀ (items : List Node) (position count : Nat),
      (∀ x ∈ items, Step.CarriesTo widened (resolve scope x) (resolve scope x.widened)) →
      Step.CarriesTo (List.map widened) (resolveFirst scope check position count items)
        (resolveFirst scope wider position count (items.map widened)) := by
  intro items
  induction items with
  | nil =>
    intro position count each values done
    simp only [resolveFirst, List.map_nil] at done ⊢
    rw [done]
  | cons x rest ih =>
    intro position count each values done
    cases count with
    | zero =>
      simp only [resolveFirst, List.map_cons] at done ⊢
      rw [done]
    | succ count =>
      rw [resolveFirst] at done
      rw [List.map_cons, resolveFirst, resolveFirst]
      cases resolved : (resolve scope x).value with
      | error e => simp [resolved, Except.bind] at done
      | ok value =>
        rw [each x (List.mem_cons_self ..) value resolved]
        cases checked : check position value with
        | error e => simp [resolved, checked, Except.bind, Except.map] at done
        | ok _ =>
          simp only [resolved, checked, accepts position value checked, Except.bind,
            Except.map] at done ⊢
          cases later : (resolveFirst scope check (position + 1) count rest).value with
          | error e => simp [later] at done
          | ok others =>
            rw [ih (position + 1) count (fun y member => each y (List.mem_cons_of_mem _ member))
              others later]
            simpa [later] using done

theorem resolveEntries_widened (entries : List (String × Node))
    (each : ∀ x ∈ entries.map Prod.snd,
      Step.CarriesTo widened (resolve scope x) (resolve scope x.widened)) :
    Step.CarriesTo (Entries.mapValues widened) (resolveEntries scope entries)
      (resolveEntries scope (Entries.mapValues widened entries)) := by
  induction entries with
  | nil =>
    intro values done
    simp only [resolveEntries, Entries.mapValues_nil] at done ⊢
    rw [done]
  | cons entry rest ih =>
    obtain ⟨key, x⟩ := entry
    intro values done
    rw [resolveEntries] at done
    rw [Entries.mapValues_cons, resolveEntries, resolveEntries]
    cases resolved : (resolve scope x).value with
    | error e => simp [resolved] at done
    | ok value =>
      rw [each x (List.mem_cons_self ..) value resolved]
      simp only [resolved] at done ⊢
      cases later : (resolveEntries scope rest).value with
      | error e => simp [later, Except.map] at done
      | ok others =>
        rw [ih (fun y member => each y (List.mem_cons_of_mem _ member)) others later]
        simp only [later, Except.map, Except.ok.injEq] at done ⊢
        rw [done, Entries.mapValues_cons]

theorem bothFields_widened (check wider : Check)
    (accepts : ∀ i value, check i value = .ok () → wider i value = .ok ()) (first second : String)
    (entries : List (String × Node)) (x y : Node)
    (carriesFirst : Step.CarriesTo widened (resolve scope x) (resolve scope x.widened))
    (carriesSecond : Step.CarriesTo widened (resolve scope y) (resolve scope y.widened)) :
    Step.CarriesTo widened
      (bothFields check first second entries (resolve scope x) (resolve scope y))
      (bothFields wider first second (Entries.mapValues widened entries)
        (resolve scope x.widened) (resolve scope y.widened)) := by
  intro values done
  unfold bothFields at done ⊢
  cases left : (resolve scope x).value with
  | error e => simp [left, Except.bind] at done
  | ok a =>
    rw [carriesFirst a left]
    cases checked : check 0 a with
    | error e => simp [left, checked, Except.bind, Except.map] at done
    | ok _ =>
      cases right : (resolve scope y).value with
      | error e => simp [left, checked, right, Except.bind, Except.map] at done
      | ok b =>
        rw [carriesSecond b right]
        cases checkedToo : check 1 b with
        | error e => simp [left, checked, right, checkedToo, Except.bind, Except.map] at done
        | ok _ =>
          simp only [left, right, checked, checkedToo, Except.bind, Except.map,
            Except.ok.injEq] at done ⊢
          simp only [accepts 0 a checked, accepts 1 b checkedToo, widened_map, done,
            Entries.mapValues_put]

theorem operands_widened (function : Intrinsic) :
    function.widened.operands = function.operands := by
  cases function <;> rfl

theorem itemCount_widened (node : Node) : itemCount node.widened = itemCount node := by
  cases node <;> simp [itemCount]

theorem resolveItems_widened (check wider : Check)
    (accepts : ∀ i value, check i value = .ok () → wider i value = .ok ())
    (fault fault' : TemplateError) (count : Nat) (args : Node)
    (each : ∀ x ∈ args.parts,
      Step.CarriesTo widened (resolve scope x) (resolve scope x.widened)) :
    Step.CarriesTo widened (resolveItems scope check fault count args)
      (resolveItems scope wider fault' count args.widened) := by
  cases args with
  | list items =>
    rw [widened_list, resolveItems, resolveItems]
    exact (resolveFirst_widened scope check wider accepts items 0 count each).onTree _ _ _
      widened_list
  | _ =>
    intro values done
    simp [resolveItems] at done

theorem resolveFields_widened (check wider : Check)
    (accepts : ∀ i value, check i value = .ok () → wider i value = .ok ())
    (fault fault' : TemplateError) (first second : String) (args : Node)
    (each : ∀ x ∈ args.parts,
      Step.CarriesTo widened (resolve scope x) (resolve scope x.widened)) :
    Step.CarriesTo widened (resolveFields scope check fault first second args)
      (resolveFields scope wider fault' first second args.widened) := by
  cases args with
  | map entries =>
    rw [widened_map]
    simp only [resolveFields, resolveEntry_eq, Entries.get?_mapValues]
    cases foundFirst : Entries.get? entries first with
    | none =>
      intro values done
      simp at done
    | some x =>
      cases foundSecond : Entries.get? entries second with
      | none =>
        intro values done
        simp at done
      | some y =>
        exact bothFields_widened scope check wider accepts first second entries x y
          (each x (List.mem_map_of_mem (Entries.mem_of_get? entries first x foundFirst)))
          (each y (List.mem_map_of_mem (Entries.mem_of_get? entries second y foundSecond)))
  | _ =>
    intro values done
    simp [resolveFields] at done

theorem operandsStep_widened (function : Intrinsic) (name : String) (args : Node)
    (each : ∀ x ∈ args :: args.parts,
      Step.CarriesTo widened (resolve scope x) (resolve scope x.widened)) :
    Step.CarriesTo widened (operandsStep scope function name args)
      (operandsStep scope function.widened name args.widened) := by
  have accepts := scope.accept_widened function name
  have below := fun x member => each x (List.mem_cons_of_mem args member)
  unfold operandsStep
  rw [operands_widened, itemCount_widened]
  cases function.operands with
  | none =>
    intro values done
    rw [← done]
  | whole =>
    apply (each args (List.mem_cons_self ..)).andThen
    intro value result accepted
    cases checked : scope.accept function name 0 value with
    | error e => simp [checked, Except.map] at accepted
    | ok _ => rwa [accepts 0 value checked, ← checked]
  | items => exact resolveItems_widened scope _ _ accepts _ _ _ args below
  | fields first second => exact resolveFields_widened scope _ _ accepts _ _ first second args below

theorem remember_widened (function : Intrinsic) (name : String) (older newer : Step Node Json)
    (carries : Step.CarriesTo widened older newer) :
    Step.CarriesTo widened (remember function name older)
      (remember function.widened name newer) := by
  intro value done
  cases answer : older.value with
  | error e => simp [remember, answer] at done
  | ok held =>
    rw [carries held answer]
    unfold remember at done ⊢
    simp only [answer] at done ⊢
    cases ready : older.ready <;> simp_all

theorem resolve_widened (node : Node) :
    Step.CarriesTo widened (resolve scope node) (resolve scope node.widened) := by
  induction node using parts_induction with
  | literal value =>
    intro result done
    simp only [widened_literal, resolve] at done ⊢
    rw [done]
  | list items ih =>
    rw [widened_list, resolve, resolve, List.length_map]
    exact ((resolveFirst_widened scope _ _ (fun _ _ accepted => accepted) items 0 _ ih).onTree _ _ _
      widened_list).onValue _
  | map entries ih =>
    rw [widened_map, resolve, resolve]
    exact ((resolveEntries_widened scope entries ih).onTree _ _ _ widened_map).onValue _
  | call function name args memo ih =>
    cases memo with
    | some value =>
      intro result done
      simp only [widened_call, resolve] at done ⊢
      rw [done]
    | none =>
      rw [widened_call, resolve_call, resolve_call]
      exact remember_widened function name _ _
        ((operandsStep_widened scope function name args ih).andThen _ _
          (scope.finish_widened function name))

end Resolving

/-! ## Visits -/

section Visits

variable {α : Type}

def Visit.CarriesTo {τ σ : Type} (f : τ → σ) (older : Visit τ α) (newer : Visit σ α) : Prop :=
  ∀ found, older.2 = .ok found → newer = (f older.1, .ok found)

variable (visit wider : Intrinsic → String → Node → Visit Node α)
  (carries : ∀ function name args, Visit.CarriesTo widened (visit function name args)
    (wider function.widened name args.widened))

theorem walkItems_widened (items : List Node)
    (each : ∀ x ∈ items, Visit.CarriesTo widened (walk visit x) (walk wider x.widened)) :
    Visit.CarriesTo (List.map widened) (walkItems visit items)
      (walkItems wider (items.map widened)) := by
  induction items with
  | nil =>
    intro found done
    simp only [walkItems, List.map_nil] at done ⊢
    rw [done]
  | cons x rest ih =>
    intro found done
    have first := each x (List.mem_cons_self ..)
    have more := ih fun y member => each y (List.mem_cons_of_mem _ member)
    rw [walkItems] at done ⊢
    rw [List.map_cons, walkItems]
    generalize walk visit x = walked at first done ⊢
    obtain ⟨tree, result⟩ := walked
    cases result with
    | error e => simp at done
    | ok here =>
      rw [first here rfl]
      simp only at done ⊢
      cases later : (walkItems visit rest).2 with
      | error e => simp [later, Except.map] at done
      | ok others =>
        rw [more others later]
        simpa [later, Except.map] using done

theorem walkEntries_widened (entries : List (String × Node))
    (each : ∀ x ∈ entries.map Prod.snd,
      Visit.CarriesTo widened (walk visit x) (walk wider x.widened)) :
    Visit.CarriesTo (Entries.mapValues widened) (walkEntries visit entries)
      (walkEntries wider (Entries.mapValues widened entries)) := by
  induction entries with
  | nil =>
    intro found done
    simp only [walkEntries, Entries.mapValues_nil] at done ⊢
    rw [done]
  | cons entry rest ih =>
    obtain ⟨key, x⟩ := entry
    intro found done
    have first := each x (List.mem_cons_self ..)
    have more := ih fun y member => each y (List.mem_cons_of_mem _ member)
    rw [walkEntries] at done ⊢
    rw [Entries.mapValues_cons, walkEntries]
    generalize walk visit x = walked at first done ⊢
    obtain ⟨tree, result⟩ := walked
    cases result with
    | error e => simp at done
    | ok here =>
      rw [first here rfl]
      simp only at done ⊢
      cases later : (walkEntries visit rest).2 with
      | error e => simp [later, Except.map] at done
      | ok others =>
        rw [more others later]
        simpa [later, Except.map] using done

include carries in
theorem walk_widened (node : Node) :
    Visit.CarriesTo widened (walk visit node) (walk wider node.widened) := by
  induction node using parts_induction with
  | literal value =>
    intro found done
    simp only [widened_literal, walk] at done ⊢
    rw [done]
  | list items ih =>
    intro found done
    rw [walk] at done ⊢
    rw [widened_list, walk, walkItems_widened visit wider items ih found done]
    simp
  | map entries ih =>
    intro found done
    rw [walk] at done ⊢
    rw [widened_map, walk, walkEntries_widened visit wider entries ih found done]
    simp
  | call function name args memo ih =>
    intro found done
    have below := ih args (List.mem_cons_self ..)
    rw [walk] at done ⊢
    rw [widened_call, walk]
    generalize walk visit args = walked at below done ⊢
    obtain ⟨after, result⟩ := walked
    cases result with
    | error e => simp at done
    | ok inside =>
      rw [below inside rfl]
      simp only at done ⊢
      cases own : (visit function name after).2 with
      | error e => simp [own, Except.map] at done
      | ok here =>
        rw [carries function name after here own]
        simpa [own, Except.map] using done

end Visits

section Visitors

variable (scope : Scope)

theorem reference_widened (function : Intrinsic) (name : String) (count : Nat) (args : Node) :
    Step.CarriesTo widened (reference scope function name count args)
      (reference scope function.widened name count args.widened) := by
  have accepts := scope.accept_widened function name
  unfold reference
  rw [operands_widened]
  split
  · exact resolveItems_widened scope _ _ accepts _ _ count args fun x _ => resolve_widened scope x
  · apply (resolve_widened scope args).andThen
    intro value result accepted
    cases checked : scope.accept function name 0 value with
    | error e => simp [checked, Except.map] at accepted
    | ok _ => rwa [accepts 0 value checked, ← checked]

theorem isStatic_widened (node : Node) : isStatic node.widened = isStatic node := by
  induction node using parts_induction with
  | literal value => simp
  | list items ih =>
    rw [widened_list, isStatic, isStatic, areStatic_eq_all, areStatic_eq_all,
      all_isStatic_map widened items ih]
  | map entries ih =>
    rw [widened_map, isStatic, isStatic, entriesStatic_eq_all, entriesStatic_eq_all,
      Entries.map_snd_mapValues, all_isStatic_map widened _ ih]
  | call function name args memo ih => simp [isStatic]

theorem visit_of_step {α β : Type} (older newer : Step Node β)
    (g h : β → Except TemplateError (List α)) (carries : Step.CarriesTo widened older newer)
    (wider : ∀ b found, g b = .ok found → h b = .ok found) :
    Visit.CarriesTo widened (older.tree, older.value.bind g) (newer.tree, newer.value.bind h) := by
  intro found done
  cases answer : older.value with
  | error e => simp [answer, Except.bind] at done
  | ok b =>
    rw [carries b answer]
    simp only [answer, Except.bind] at done ⊢
    rw [wider b found done]

theorem visit_of_nothing {α : Type} (args : Node) (older : Except TemplateError (List α))
    (newer : Except TemplateError (List α))
    (wider : ∀ found, older = .ok found → newer = .ok found) :
    Visit.CarriesTo widened (args, older) (args.widened, newer) := by
  intro found done
  rw [wider found done]

theorem validateCall_widened (function : Intrinsic) (name : String) (args : Node) :
    Visit.CarriesTo widened (validateCall scope function name args)
      (validateCall scope function.widened name args.widened) := by
  have resolved := resolve_widened scope args
  cases function with
  | getResource =>
    exact visit_of_step _ _ _ _ (reference_widened scope .getResource name 1 args)
      fun _ _ done => done
  | getAttr | getAttrAll =>
    exact visit_of_step _ _ _ _ (reference_widened scope _ name 2 args) fun _ _ done => done
  | getFile | digest =>
    simp only [validateCall, Intrinsic.widened, isStatic_widened]
    split
    · exact visit_of_step _ _ _ _ resolved fun _ _ done => done
    · exact visit_of_nothing args _ _ fun _ done => done
  | repeatList | repeatWithMap =>
    cases args with
    | map entries =>
      simp only [validateCall, Intrinsic.widened, widened_map, Entries.get?_mapValues]
      cases Entries.get? entries "for_each" with
      | none => simp [Visit.CarriesTo]
      | some forEach => cases forEach <;> simp [Visit.CarriesTo]
    | _ => simp [Visit.CarriesTo, validateCall]
  | _ => exact visit_of_nothing args _ _ fun _ done => done

theorem resourceOfCall_widened (function : Intrinsic) (name : String) (args : Node) :
    Visit.CarriesTo widened (resourceOfCall scope function name args)
      (resourceOfCall scope function.widened name args.widened) := by
  have referred := reference_widened scope function name 1 args
  cases function with
  | getResource | getAttr | getAttrAll =>
    exact visit_of_step _ _ _ _ referred fun _ _ done => done
  | _ => exact visit_of_nothing args _ _ fun _ done => done

theorem attributesOfCall_widened (function : Intrinsic) (name : String) (args : Node) :
    Visit.CarriesTo widened (attributesOfCall scope function name args)
      (attributesOfCall scope function.widened name args.widened) := by
  have referred := reference_widened scope function name (itemCount args) args
  cases function with
  | getAttr | getAttrAll =>
    simp only [attributesOfCall, Intrinsic.widened, itemCount_widened]
    exact visit_of_step _ _ _ _ referred fun _ _ done => done
  | _ => exact visit_of_nothing args _ _ fun _ done => done

end Visitors

end Node

end Orchestration
