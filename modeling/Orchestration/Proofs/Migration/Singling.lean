import Orchestration.Proofs.Migration.Calls

/-!
# A list cut down to one item

Two values that differ in that a list in one of them has been cut down to one of its items.  The
references in the list are resolved item by item up to the first that cannot be, so an item resolves
in the list as it does alone if no other item of the list stops that.
-/

set_option autoImplicit false

namespace Orchestration

open Json (Segment)

namespace Migration.Context

/-- Neither on the way to the location in a value nor there stands a reference to a parameter. -/
def Reaches (context : Context) (value : Json) (location : List Segment) : Prop :=
  ∀ up down x, location = up ++ down → value.part? up = some x →
    context.function? x ≠ some .getParam

variable {context : Context} {value next : Json} {segment : Segment} {rest : List Segment}

theorem Reaches.start (entered : context.Reaches value rest) :
    context.function? value ≠ some .getParam :=
  entered [] rest value rfl rfl

theorem Reaches.below (entered : context.Reaches value (segment :: rest))
    (there : value.part? [segment] = some next) : context.Reaches next rest := by
  intro up down x split held
  refine entered (segment :: up) down x (by rw [split, List.cons_append]) ?_
  rcases Json.part?_cons value next segment [] there with
    ⟨entries, name, found, rfl, rfl, here, same⟩ | ⟨items, i, found, rfl, rfl, here, same⟩ <;>
  · cases same
    simp [Json.part?, here, held]

theorem Clear.reaches {data : Object} {name : String}
    (clear : context.Clear data (.key name :: rest)) (there : Entries.get? data name = some next) :
    context.Reaches next rest := by
  intro up down x split held
  refine clear (.key name :: up) down x (by rw [split, List.cons_append]) (by simp) ?_
  rw [Json.part?, there, Option.bind_some, held]

end Migration.Context

open Migration

namespace Json

def withPart : List Segment → Json → Json → Json
  | [], _, new => new
  | .key name :: rest, .object entries, new =>
    match Entries.get? entries name with
    | some next => .object (Entries.put entries name (withPart rest next new))
    | none => .object entries
  | .item i :: rest, .list items, new =>
    match items[i]? with
    | some next => .list (items.set i (withPart rest next new))
    | none => .list items
  | _ :: _, value, _ => value

/-- In the second value the list at a location has been cut down to its item at a position.  No
reference stands above the list. -/
inductive Singled (context : Context) (fits : List Json → Prop) (i : Nat) :
    List Segment → Json → Json → Prop where
  | here {items : List Json} {x : Json} (there : items[i]? = some x) (fit : fits items) :
    Singled context fits i [] (.list items) (.list [x])
  | key {entries : Object} {name : String} {rest : List Segment} {x y : Json}
    (distinct : Entries.Distinct entries)
    (entered : context.function? (.object entries) ≠ some .getParam)
    (there : Entries.get? entries name = some x) (below : Singled context fits i rest x y) :
    Singled context fits i (.key name :: rest) (.object entries)
      (.object (Entries.put entries name y))
  | item {items : List Json} {j : Nat} {rest : List Segment} {x y : Json}
    (there : items[j]? = some x) (below : Singled context fits i rest x y) :
    Singled context fits i (.item j :: rest) (.list items) (.list (items.set j y))

namespace Singled

variable {context : Context} {fits : List Json → Prop} {i : Nat} {location : List Segment}
  {value other : Json}

theorem item_eq (singled : Singled context fits i location value other) :
    ∃ x, value.part? (location ++ [.item i]) = some x ∧
      other.part? (location ++ [.item 0]) = some x := by
  induction singled with
  | @here items x there fit => exact ⟨x, by simp [part?, there], rfl⟩
  | key distinct entered there below ih =>
    obtain ⟨x, first, second⟩ := ih
    exact ⟨x, by simp [part?, there, first], by simp [part?, Entries.get?_put, second]⟩
  | item there below ih =>
    obtain ⟨x, first, second⟩ := ih
    have bound := (List.getElem?_eq_some_iff.mp there).1
    exact ⟨x, by simp [part?, there, first], by simp [part?, List.getElem?_set_self bound, second]⟩

theorem loosen {looser : List Json → Prop} (singled : Singled context fits i location value other)
    (weaker : ∀ items, fits items → looser items) :
    Singled context looser i location value other := by
  induction singled with
  | here there fit => exact .here there (weaker _ fit)
  | key distinct entered there below ih => exact .key distinct entered there ih
  | item there below ih => exact .item there ih

theorem not_null (singled : Singled context fits i location value other) :
    value ≠ .null ∧ other ≠ .null := by
  cases singled <;> simp

theorem lists (singled : Singled context fits i location value other)
    (inside : Segment.keys location = []) :
    (∃ items, value = .list items ∧ items ≠ []) ∧ ∃ items, other = .list items ∧ items ≠ [] := by
  cases singled with
  | here there =>
    refine ⟨⟨_, rfl, ?_⟩, _, rfl, by simp⟩
    rintro rfl
    simp at there
  | key => cases inside
  | item there =>
    refine ⟨⟨_, rfl, ?_⟩, _, rfl, ?_⟩
    · rintro rfl
      simp at there
    · intro none
      rw [List.set_eq_nil_iff] at none
      subst none
      simp at there

theorem list_or_key (singled : Singled context fits i location value other) :
    (∃ items others, value = .list items ∧ other = .list others) ∨
      ∃ name rest, location = .key name :: rest := by
  cases singled with
  | here | item => exact .inl ⟨_, _, rfl, rfl⟩
  | key => exact .inr ⟨_, _, rfl⟩

theorem of_part (value : Json) (location : List Segment) (items : List Json) (x : Json)
    (good : value.WellFormed) (there : value.part? location = some (.list items))
    (entered : context.Reaches value location) (member : items[i]? = some x) (fit : fits items) :
    Singled context fits i location value (value.withPart location (.list [x])) := by
  induction location generalizing value with
  | nil =>
    cases there
    exact .here member fit
  | cons segment rest ih =>
    rcases part?_cons value _ segment rest there with
      ⟨entries, name, next, rfl, rfl, here, below⟩ | ⟨list, j, next, rfl, rfl, here, below⟩
    · simp only [withPart, here]
      exact .key good.distinct entered.start here
        (ih next (good.entry name next here) below (entered.below (by simp [part?, here])))
    · simp only [withPart, here]
      exact .item here (ih next (good.item next (List.mem_of_getElem? here)) below
        (entered.below (by simp [part?, here])))

end Singled

end Json

namespace Migration

open Json (Singled)

variable {context : Context} {fits : List Json → Prop} {i : Nat}

/-! ## Resolving references -/

/-- No item but the one at a position stops a rule. -/
def Context.Undisturbed (context : Context) (i : Nat) (items : List Json) : Prop :=
  ∀ j y, items[j]? = some y → j ≠ i → (resolveParameter context y).1 = .ok true

theorem resolveItems_goes_on (items : List Json)
    (each : ∀ x ∈ items, (resolveParameter context x).1 = .ok true) :
    (resolveItems context items).1 = .ok true := by
  induction items with
  | nil => rw [resolveItems]
  | cons x rest ih =>
    have here := each x (List.mem_cons_self ..)
    have later := ih fun y member => each y (List.mem_cons_of_mem _ member)
    rw [resolveItems]
    cases done : resolveParameter context x with
    | mk answer left =>
      rw [done] at here
      cases here
      exact later

theorem resolveItems_undisturbed (items : List Json) (x : Json) (there : items[i]? = some x)
    (others : context.Undisturbed i items) :
    (resolveItems context items).1 = (resolveParameter context x).1 ∧
      (resolveItems context items).2[i]? = some (resolveParameter context x).2 := by
  induction items generalizing i with
  | nil => simp at there
  | cons first rest ih =>
    rw [resolveItems]
    cases i with
    | zero =>
      cases there
      have later : (resolveItems context rest).1 = .ok true := by
        refine resolveItems_goes_on rest fun y member => ?_
        obtain ⟨j, held⟩ := List.mem_iff_getElem?.mp member
        exact others (j + 1) y held (by simp)
      cases done : resolveParameter context x with
      | mk answer left => rcases answer with _ | _ | _ <;> simp [later]
    | succ i =>
      have goesOn := others 0 first rfl (by simp)
      cases done : resolveParameter context first with
      | mk answer left =>
        rw [done] at goesOn
        cases goesOn
        exact ih there fun j y held apart => others (j + 1) y held (by simpa using apart)

theorem resolveItems_singleton (x : Json) :
    resolveItems context [x] =
      ((resolveParameter context x).1, [(resolveParameter context x).2]) := by
  rw [resolveItems]
  cases done : resolveParameter context x with
  | mk answer left => rcases answer with _ | _ | _ <;> simp [resolveItems]

theorem resolveItems_set (items : List Json) (j : Nat) (x y : Json) (there : items[j]? = some x)
    (alike : (resolveParameter context y).1 = (resolveParameter context x).1) :
    (resolveItems context (items.set j y)).1 = (resolveItems context items).1 ∧
      ((resolveItems context items).2[j]? = some (resolveParameter context x).2 ∧
          (resolveItems context (items.set j y)).2 =
            (resolveItems context items).2.set j (resolveParameter context y).2 ∨
        (resolveItems context items).2[j]? = some x ∧
          (resolveItems context (items.set j y)).2 = (resolveItems context items).2.set j y) := by
  induction items generalizing j with
  | nil => simp at there
  | cons first rest ih =>
    cases j with
    | zero =>
      cases there
      rw [List.set_cons_zero, resolveItems, resolveItems]
      cases done : resolveParameter context x with
      | mk answer left =>
        cases done' : resolveParameter context y with
        | mk answer' left' =>
          rw [done, done'] at alike
          cases alike
          rcases answer with _ | _ | _ <;> simp
    | succ j =>
      rw [List.set_cons_succ, resolveItems, resolveItems]
      cases done : resolveParameter context first with
      | mk answer left =>
        rcases answer with _ | _ | _
        · exact ⟨rfl, .inr ⟨there, rfl⟩⟩
        · exact ⟨rfl, .inr ⟨there, rfl⟩⟩
        · obtain ⟨same, ⟨kept, set⟩ | ⟨kept, set⟩⟩ := ih j there
          · exact ⟨same, .inl ⟨kept, congrArg _ set⟩⟩
          · exact ⟨same, .inr ⟨kept, congrArg _ set⟩⟩

theorem resolveParameter_singled {location : List Segment} {value other : Json}
    (singled : Singled context (context.Undisturbed i) i location value other) :
    (resolveParameter context other).1 = (resolveParameter context value).1 ∧
      Singled context (fun _ => True) i location (resolveParameter context value).2
        (resolveParameter context other).2 ∧
      (Segment.keys location ≠ [] → Singled context (context.Undisturbed i) i location
        (resolveParameter context value).2 (resolveParameter context other).2) := by
  induction singled with
  | @here items x there fit =>
    obtain ⟨answer, kept⟩ := resolveItems_undisturbed items x there fit
    rw [resolveParameter, resolveParameter, resolveItems_singleton]
    exact ⟨answer.symm, .here kept trivial, fun keyed => absurd rfl keyed⟩
  | @key entries name rest x y distinct entered there below ih =>
    have same : context.function? (.object (Entries.put entries name y)) =
        context.function? (.object entries) :=
      context.function?_of_keys _ _ (Entries.keys_put_of_present entries name x y there)
    have kept : Singled context (context.Undisturbed i) i (.key name :: rest) (.object entries)
        (.object (Entries.put entries name y)) := .key distinct entered there below
    have loose := kept.loosen fun _ _ => trivial
    rw [resolveParameter_of_not_list _ (by simp), resolveParameter_of_not_list _ (by simp), same]
    split
    · exact ⟨rfl, loose, fun _ => kept⟩
    · rename_i known
      exact absurd known entered
    · exact ⟨rfl, loose, fun _ => kept⟩
  | @item items j rest x y there below ih =>
    obtain ⟨alike, loose, kept⟩ := ih
    rw [resolveParameter, resolveParameter]
    obtain ⟨answer, ⟨here, set⟩ | ⟨here, set⟩⟩ := resolveItems_set items j x y there alike
    · simp only [set]
      exact ⟨answer, .item here loose, fun keyed => .item here (kept keyed)⟩
    · simp only [set]
      exact ⟨answer, .item here (below.loosen fun _ _ => trivial), fun _ => .item here below⟩

theorem resolveSlot_singled {data : Object} {name : String} {rest : List Segment} {x y : Json}
    (there : Entries.get? data name = some x)
    (singled : Singled context (context.Undisturbed i) i rest x y) :
    ∃ answer u v, resolveSlot context data name = (answer, Entries.put data name u) ∧
      resolveSlot context (Entries.put data name y) name = (answer, Entries.put data name v) ∧
      Singled context (fun _ => True) i rest u v ∧
      (Segment.keys rest ≠ [] → Singled context (context.Undisturbed i) i rest u v) := by
  obtain ⟨alike, loose, kept⟩ := resolveParameter_singled singled
  have there' : Entries.get? (Entries.put data name y) name = some y := by
    rw [Entries.get?_put, if_pos rfl]
  refine ⟨_, _, _, resolveSlot_present data name x there, ?_, loose, kept⟩
  rw [resolveSlot_present _ name y there', alike, Entries.put_put]

end Migration

end Orchestration
