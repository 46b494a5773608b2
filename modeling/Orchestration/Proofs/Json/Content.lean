import Orchestration.Proofs.Json

/-!
# Values up to the order of keys

The content of a value forgets the order in which the entries of its maps arrived: a map is what it
has at each key.
-/

set_option autoImplicit false

namespace Orchestration

inductive Content where
  | null
  | bool (b : Bool)
  | number (n : Number)
  | string (s : String)
  | list (items : List Content)
  | map (entries : String → Option Content)

namespace Json

mutual

def content : Json → Content
  | .null => .null
  | .bool b => .bool b
  | .number n => .number n
  | .string s => .string s
  | .list items => .list (contentOfItems items)
  | .object entries => .map (contentOfEntries entries)

def contentOfItems : List Json → List Content
  | [] => []
  | x :: rest => content x :: contentOfItems rest

def contentOfEntries : List (String × Json) → String → Option Content
  | [], _ => none
  | (k, v) :: rest, key => if k = key then some (content v) else contentOfEntries rest key

end

end Json

def contentAt (data : Object) (key : String) : Option Content :=
  (Entries.get? data key).map Json.content

namespace Json

theorem content_list (items : List Json) : content (.list items) = .list (items.map content) := by
  rw [content]
  congr
  induction items with
  | nil => rfl
  | cons x rest ih => rw [contentOfItems, ih, List.map_cons]

theorem content_object (entries : Object) : content (.object entries) = .map (contentAt entries) := by
  rw [content]
  congr
  funext key
  rw [contentAt]
  induction entries with
  | nil => rfl
  | cons entry rest ih =>
    obtain ⟨k, v⟩ := entry
    rw [contentOfEntries, Entries.get?_cons, ih]
    split <;> rfl

theorem content_object_eq_iff (first second : Object) :
    content (.object first) = content (.object second) ↔ contentAt first = contentAt second := by
  rw [content_object, content_object, Content.map.injEq]

theorem content_list_eq_iff (first second : List Json) :
    content (.list first) = content (.list second) ↔ first.map content = second.map content := by
  rw [content_list, content_list, Content.list.injEq]

theorem content_cases {x y : Json} (same : content x = content y) :
    (∃ first second, x = .object first ∧ y = .object second ∧ contentAt first = contentAt second) ∨
      (∃ first second, x = .list first ∧ y = .list second ∧
        first.map content = second.map content) ∨
      x = y ∧ (∀ child, x ≠ .object child) ∧ ∀ items, x ≠ .list items := by
  cases x with
  | object first =>
    cases y with
    | object second => exact .inl ⟨first, second, rfl, rfl, (content_object_eq_iff ..).mp same⟩
    | _ => simp [content] at same
  | list first =>
    cases y with
    | list second => exact .inr (.inl ⟨first, second, rfl, rfl, (content_list_eq_iff ..).mp same⟩)
    | _ => simp [content] at same
  | _ => cases y <;> simp_all [content]

end Json

section ContentAt

variable (data : Object) (key other : String)

theorem contentAt_put (value : Json) : contentAt (Entries.put data key value) other =
    if key = other then some value.content else contentAt data other := by
  rw [contentAt, Entries.get?_put]
  split <;> rfl

theorem contentAt_erase (distinct : Entries.Distinct data) :
    contentAt (Entries.erase data key) other = if key = other then none else contentAt data other := by
  rw [contentAt, Entries.get?_erase data distinct]
  split <;> rfl

end ContentAt

theorem contentAt_cases {first second : Object} {key : String}
    (same : contentAt first key = contentAt second key) :
    (Entries.get? first key = none ∧ Entries.get? second key = none) ∨
      ∃ x y, Entries.get? first key = some x ∧ Entries.get? second key = some y ∧
        x.content = y.content := by
  rw [contentAt, contentAt] at same
  cases before : Entries.get? first key with
  | none =>
    rw [before, Option.map_none, eq_comm, Option.map_eq_none_iff] at same
    exact .inl ⟨rfl, same⟩
  | some x =>
    rw [before, Option.map_some, eq_comm, Option.map_eq_some_iff] at same
    obtain ⟨y, after, content⟩ := same
    exact .inr ⟨x, y, rfl, after, content.symm⟩

end Orchestration
