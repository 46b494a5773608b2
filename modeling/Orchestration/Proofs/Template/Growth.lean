import Orchestration.Proofs.Template.Memory

/-!
# Growing stacks

A stack grows when nothing that a final value may come from is lost: parameters, files, the facade
and readable resources stay.  A tree that settles on a value settles on the same value ever after,
so what a tree remembers stays final.
-/

set_option autoImplicit false

namespace Orchestration

/-- The resource can stand in for another one whose attributes are readable. -/
structure Resource.Continues (before after : Resource) : Prop where
  readable : after.readable = true
  referenceId : after.referenceId = before.referenceId
  attributes : after.attributes = before.attributes

/-- What the first stack has for good is in the second one too. -/
structure Stack.GrowsTo (before after : Stack) : Prop where
  parameters : ∀ name value, before.parameter? name = some value →
    after.parameter? name = some value
  files : ∀ key text, before.file? key = some text → after.file? key = some text
  facade : ∀ facade, before.facade = some facade → after.facade = some facade
  resources : ∀ key resource, before.resource? key = some resource → resource.readable = true →
    ∃ later, after.resource? key = some later ∧ resource.Continues later

def Intrinsic.refers : Intrinsic → Bool
  | .getResource | .getAttr | .getAttrAll => true
  | _ => false

def Intrinsic.readsStack : Intrinsic → Bool
  | .getParam | .getFile | .resourceFacade => true
  | function => function.refers

namespace Scope

theorem finish_congr (digests : List String) (stack other : Stack) (function : Intrinsic)
    (name : String) (values : List Json) (blind : function.readsStack = false) :
    finish ⟨digests, stack⟩ function name values =
      finish ⟨digests, other⟩ function name values := by
  cases function with
  | getParam | getResource | getAttr | getAttrAll | getFile | resourceFacade =>
    simp [Intrinsic.readsStack, Intrinsic.refers] at blind
  | _ =>
    unfold finish
    split <;> simp_all

theorem accept_congr (scope other : Scope) (function : Intrinsic) (name : String) (position : Nat)
    (value : Json) (alone : function = .getResource → position = 0)
    (same : function.refers = true → position = 0 →
      (scope.resource? name value).map (fun _ => ()) =
        (other.resource? name value).map fun _ => ()) :
    scope.accept function name position value = other.accept function name position value := by
  cases function with
  | getResource => exact same rfl (alone rfl)
  | getAttr | getAttrAll =>
    match position, value with
    | 0, value => exact same rfl rfl
    | 1, .string _ | 1, .null | 1, .bool _ | 1, .number _ | 1, .list _ | 1, .object _ => rfl
    | _ + 2, _ => rfl
  | _ =>
    unfold accept
    split <;> simp_all

def parameterPath (name : String) (args : Json) : Except TemplateError (String × List Json) :=
  match args with
  | .string parameter =>
    if parameter.isEmpty then .error (.invalid name .noArguments) else .ok (parameter, [])
  | .list (.string parameter :: path) => .ok (parameter, path)
  | .list (_ :: _) => .error (.invalid name .parameterNameNotText)
  | .null | .list [] => .error (.invalid name .noArguments)
  | _ => .error (.invalid name .notTextOrList)

theorem parameter_eq (scope : Scope) (name : String) (args : Json) :
    scope.parameter name args =
      (parameterPath name args).bind fun (parameter, path) =>
        match scope.stack.parameter? parameter with
        | none => .error (.missingParameter parameter)
        | some value => .ok ((value.at? path).getD (.string "")) := by
  unfold parameter parameterPath
  cases args with
  | string key =>
    simp only
    split <;> rfl
  | list items =>
    cases items with
    | nil => rfl
    | cons first path => cases first <;> rfl
  | _ => rfl

theorem map_of_ok {α β : Type} (first second : Except TemplateError α)
    (carries : ∀ a, first = .ok a → second = .ok a) (f : α → β) (b : β)
    (done : first.map f = .ok b) : second.map f = .ok b := by
  cases first with
  | error e => simp [Except.map] at done
  | ok a => rw [carries a rfl, done]

theorem readable_of_attributeValue (resource : Resource) (rest : List Json) (value : Json)
    (done : attributeValue resource rest = (value, true)) : resource.readable = true := by
  unfold attributeValue at done
  split at done
  · assumption
  · simp at done

theorem attributeValue_continues (resource later : Resource) (rest : List Json)
    (readable : resource.readable = true) (continues : resource.Continues later) :
    attributeValue later rest = attributeValue resource rest := by
  have reads : ∀ name path, later.attribute? name path = resource.attribute? name path := by
    intro name path
    rw [Resource.attribute?, Resource.attribute?, continues.attributes]
  simp only [attributeValue, readable, continues.readable, continues.attributes, reads]

theorem resource?_eq_ok_iff (scope : Scope) (name : String) (value : Json) (resource : Resource) :
    scope.resource? name value = .ok resource ↔
      ∃ key, value = .string key ∧ scope.stack.resource? key = some resource := by
  cases value with
  | string key =>
    simp only [resource?]
    cases held : scope.stack.resource? key <;> simp [held]
  | _ => simp [resource?]

theorem resource?_of_finish (scope : Scope) (function : Intrinsic) (name : String) (first : Json)
    (rest : List Json) (result : Json × Bool) (refers : function.refers = true)
    (done : scope.finish function name (first :: rest) = .ok result) :
    ∃ resource, scope.resource? name first = .ok resource := by
  cases found : scope.resource? name first with
  | ok resource => exact ⟨resource, rfl⟩
  | error e =>
    cases function with
    | getResource => cases rest <;> simp [finish, found, Except.map] at done
    | getAttr | getAttrAll => simp [finish, found, Except.map] at done
    | _ => simp [Intrinsic.refers] at refers

variable (digests : List String) (before after : Stack) (grows : before.GrowsTo after)
include grows

theorem resource?_grows (name : String) (value : Json) (resource : Resource)
    (found : resource? ⟨digests, before⟩ name value = .ok resource)
    (readable : resource.readable = true) :
    ∃ later, resource? ⟨digests, after⟩ name value = .ok later ∧ resource.Continues later := by
  cases value with
  | string key =>
    simp only [resource?] at found ⊢
    cases known : before.resource? key with
    | none => simp [known] at found
    | some held =>
      simp only [known, Except.ok.injEq] at found
      subst held
      obtain ⟨later, kept, continues⟩ := grows.resources key resource known readable
      exact ⟨later, by rw [kept], continues⟩
  | _ => simp [resource?] at found

theorem parameter_grows (name : String) (args value : Json)
    (found : parameter ⟨digests, before⟩ name args = .ok value) :
    parameter ⟨digests, after⟩ name args = .ok value := by
  rw [parameter_eq] at found ⊢
  cases read : parameterPath name args with
  | error e => simp [read, Except.bind] at found
  | ok named =>
    obtain ⟨key, path⟩ := named
    simp only [read, Except.bind] at found ⊢
    cases known : before.parameter? key with
    | none => simp [known] at found
    | some held =>
      rw [grows.parameters key held known]
      simpa [known] using found

theorem file_grows (name : String) (args value : Json)
    (found : file ⟨digests, before⟩ name args = .ok value) :
    file ⟨digests, after⟩ name args = .ok value := by
  cases args with
  | string key =>
    simp only [file] at found ⊢
    cases known : before.file? key with
    | none => simp [known] at found
    | some text =>
      rw [grows.files key text known]
      simpa [known] using found
  | _ => simp [file] at found

theorem facadePart_grows (name : String) (args value : Json)
    (found : facadePart ⟨digests, before⟩ name args = .ok value) :
    facadePart ⟨digests, after⟩ name args = .ok value := by
  unfold facadePart at found ⊢
  cases known : before.facade with
  | none => simp [known] at found
  | some facade =>
    simp only [known] at found
    rw [grows.facade facade known]
    exact found

theorem finish_grows (function : Intrinsic) (name : String) (values : List Json) (value : Json)
    (done : finish ⟨digests, before⟩ function name values = .ok (value, true)) :
    finish ⟨digests, after⟩ function name values = .ok (value, true) := by
  -- Six functions read the stack; the others come to the same on any two.
  by_cases blind : function.readsStack = false
  · rw [← finish_congr digests before after function name values blind]
    exact done
  cases function with
  | getParam =>
    match values with
    | [args] =>
      exact map_of_ok _ _ (parameter_grows digests before after grows name args) _ _ done
    | [] | _ :: _ :: _ => simp [finish] at done
  | getFile =>
    match values with
    | [args] =>
      exact map_of_ok _ _ (file_grows digests before after grows name args) _ _ done
    | [] | _ :: _ :: _ => simp [finish] at done
  | resourceFacade =>
    match values with
    | [args] =>
      exact map_of_ok _ _ (facadePart_grows digests before after grows name args) _ _ done
    | [] | _ :: _ :: _ => simp [finish] at done
  | getResource =>
    match values with
    | [args] =>
      simp only [finish] at done ⊢
      cases found : resource? ⟨digests, before⟩ name args with
      | error e => simp [found, Except.map] at done
      | ok held =>
        simp only [found, Except.map, Except.ok.injEq, Prod.mk.injEq] at done
        obtain ⟨later, kept, continues⟩ :=
          resource?_grows digests before after grows name args held found done.2
        simp only [kept, Except.map, continues.referenceId, continues.readable, done.1]
    | [] | _ :: _ :: _ => simp [finish] at done
  | getAttr | getAttrAll =>
    match values with
    | first :: rest =>
      simp only [finish] at done ⊢
      cases found : resource? ⟨digests, before⟩ name first with
      | error e => simp [found, Except.map] at done
      | ok held =>
        simp only [found, Except.map, Except.ok.injEq] at done
        have readable := readable_of_attributeValue held rest value done
        obtain ⟨later, kept, continues⟩ :=
          resource?_grows digests before after grows name first held found readable
        simp only [kept, Except.map,
          attributeValue_continues held later rest readable continues, done]
    | [] => simp [finish] at done
  | _ => exact absurd rfl blind

theorem accept_grows (function : Intrinsic) (name : String) (values : List Json) (value : Json)
    (done : finish ⟨digests, before⟩ function name values = .ok (value, true))
    (alone : function = .getResource → values.length = 1) (i : Nat) (operand : Json)
    (found : values[i]? = some operand)
    (accepted : accept ⟨digests, before⟩ function name i operand = .ok ()) :
    accept ⟨digests, after⟩ function name i operand = .ok () := by
  -- Both stacks let the call get done, so both have the resource that its first operand names.
  have done' := finish_grows digests before after grows function name values value done
  rw [← accepted]
  symm
  apply accept_congr
  · intro reference
    have bound := (List.getElem?_eq_some_iff.mp found).1
    rw [alone reference] at bound
    omega
  · intro refers start
    subst start
    cases values with
    | nil => simp at found
    | cons first rest =>
      simp only [List.getElem?_cons_zero, Option.some.injEq] at found
      subst found
      obtain ⟨held, foundBefore⟩ := resource?_of_finish _ function name first rest _ refers done
      obtain ⟨later, foundAfter⟩ := resource?_of_finish _ function name first rest _ refers done'
      rw [foundBefore, foundAfter]
      rfl

end Scope

namespace Node

theorem resolveFirst_grows (digests : List String) (before after : Stack) (check later : Check)
    (xs : List Node) (position : Nat) (values : List Json)
    (each : ∀ x ∈ xs, ∀ value, Settles ⟨digests, before⟩ x value → Settles ⟨digests, after⟩ x value)
    (accepted : ∀ i value, values[i]? = some value → check (position + i) value = .ok () →
      later (position + i) value = .ok ())
    (ready : (resolveFirst ⟨digests, before⟩ check position xs.length xs).outcome =
      (true, .ok values)) :
    (resolveFirst ⟨digests, after⟩ later position xs.length xs).outcome = (true, .ok values) := by
  rw [resolveFirst_ready_iff] at ready ⊢
  obtain ⟨settled, checks⟩ := ready
  refine ⟨?_, fun i value found => accepted i value found (checks i value found)⟩
  clear accepted checks
  induction settled with
  | nil => exact .nil
  | cons first rest ih =>
    refine .cons (each _ (List.mem_cons_self ..) _ first) (ih fun x member => ?_)
    exact each x (List.mem_cons_of_mem _ member)

theorem onValue_grows (digests : List String) (before after : Stack) (xs : List Node)
    (position : Nat) (f : List Json → Json) (value : Json)
    (each : ∀ x ∈ xs, ∀ value, Settles ⟨digests, before⟩ x value → Settles ⟨digests, after⟩ x value)
    (ready : ((resolveFirst ⟨digests, before⟩ unchecked position xs.length xs).onValue f).outcome =
      (true, .ok value)) :
    ((resolveFirst ⟨digests, after⟩ unchecked position xs.length xs).onValue f).outcome =
      (true, .ok value) := by
  rw [Step.outcome_onValue, Prod.mk.injEq] at ready ⊢
  obtain ⟨allReady, answer⟩ := ready
  cases values : (resolveFirst ⟨digests, before⟩ unchecked position xs.length xs).outcome.2 with
  | error e => simp [values, Except.map] at answer
  | ok held =>
    rw [resolveFirst_grows digests before after unchecked unchecked xs position held each
      (fun _ _ _ accepted => accepted) (Prod.ext allReady values)]
    rw [values] at answer
    exact ⟨rfl, answer⟩

theorem operandsOutcome_grows (digests : List String) (before after : Stack)
    (grows : before.GrowsTo after) (function : Intrinsic) (name : String) (args : Node)
    (values : List Json) (value : Json)
    (each : ∀ x ∈ args :: args.parts, ∀ value,
      Settles ⟨digests, before⟩ x value → Settles ⟨digests, after⟩ x value)
    (ready : operandsOutcome ⟨digests, before⟩ function name args = (true, .ok values))
    (done : Scope.finish ⟨digests, before⟩ function name values = .ok (value, true)) :
    operandsOutcome ⟨digests, after⟩ function name args = (true, .ok values) := by
  unfold operandsOutcome at ready ⊢
  cases found : operands? function args with
  | none => simp [found] at ready
  | some nodes =>
    simp only [found] at ready ⊢
    have alone : function = .getResource → values.length = 1 := by
      intro reference
      subst reference
      simp only [operands?, Intrinsic.operands, Option.some.injEq] at found
      subst found
      exact ((resolveFirst_ready_iff _ _ _ _ _).mp ready).1.length_eq.symm
    refine resolveFirst_grows digests before after _ _ nodes 0 values
      (fun x member => each x (mem_of_operands? function args nodes found x member)) ?_ ready
    intro i operand present accepted
    rw [Nat.zero_add] at accepted ⊢
    exact Scope.accept_grows digests before after grows function name values value done alone i
      operand present accepted

/-- A value that a tree settled on stays its value. -/
theorem settles_grows (digests : List String) (before after : Stack)
    (grows : before.GrowsTo after) (node : Node) (value : Json)
    (settled : Settles ⟨digests, before⟩ node value) : Settles ⟨digests, after⟩ node value := by
  induction node using parts_induction generalizing value with
  | literal held => rwa [Settles, resolve] at settled ⊢
  | list items ih =>
    rw [Settles, outcome_list] at settled ⊢
    exact onValue_grows digests before after items 0 _ _ ih settled
  | map entries ih =>
    rw [Settles, outcome_map] at settled ⊢
    rw [← List.length_map (f := Prod.snd)] at settled ⊢
    exact onValue_grows digests before after _ 0 _ _ ih settled
  | call function name args memo ih =>
    cases memo with
    | some held => rwa [Settles, resolve] at settled ⊢
    | none =>
      rw [Settles, outcome_call] at settled ⊢
      cases operands : operandsOutcome ⟨digests, before⟩ function name args with
      | mk ready answer =>
        cases answer with
        | error e => simp [operands] at settled
        | ok values =>
          simp only [operands] at settled
          cases done : Scope.finish ⟨digests, before⟩ function name values with
          | error e => simp [done] at settled
          | ok result =>
            obtain ⟨result, more⟩ := result
            simp only [done, Prod.mk.injEq, Bool.and_eq_true, Except.ok.injEq] at settled
            obtain ⟨⟨rfl, rfl⟩, rfl⟩ := settled
            rw [operandsOutcome_grows digests before after grows function name args values result
              ih operands done]
            simp only [Scope.finish_grows digests before after grows function name values result
              done, Bool.and_self]

theorem faithful_grows (digests : List String) (before after : Stack)
    (grows : before.GrowsTo after) (node : Node) (faithful : node.Faithful ⟨digests, before⟩) :
    node.Faithful ⟨digests, after⟩ := by
  induction faithful with
  | literal value => exact .literal value
  | list items below ih => exact .list items ih
  | map entries below ih => exact .map entries ih
  | call function name args memo below final ih =>
    refine .call function name args memo ih ?_
    intro value remembered
    exact settles_grows digests before after grows _ value (final value remembered)

end Node

end Orchestration
