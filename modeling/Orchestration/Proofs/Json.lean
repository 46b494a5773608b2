import Orchestration.Json.Path
import Orchestration.Proofs.Entries

/-!
# More on structured values

Induction over values, the keys that maps with one entry have, and well-formed values.
-/

set_option autoImplicit false

namespace Orchestration.Json

theorem parts_induction {motive : Json → Prop} (null : motive .null)
    (bool : ∀ b, motive (.bool b)) (number : ∀ n, motive (.number n))
    (string : ∀ s, motive (.string s))
    (list : ∀ items, (∀ x ∈ items, motive x) → motive (.list items))
    (object : ∀ entries, (∀ x ∈ entries.map Prod.snd, motive x) → motive (.object entries))
    (value : Json) : motive value := by
  refine @Json.rec motive (fun items => ∀ x ∈ items, motive x)
    (fun entries => ∀ x ∈ entries.map Prod.snd, motive x) (fun entry => motive entry.2)
    null bool number string list object (by simp) ?_ (by simp) ?_ (fun _ _ holds => holds) value
  · intro first rest holds more x member
    rcases List.mem_cons.mp member with rfl | later
    · exact holds
    · exact more x later
  · intro first rest holds more x member
    rcases List.mem_cons.mp member with rfl | later
    · exact holds
    · exact more x later

mutual

def loneKeys : Json → List String
  | .list items => loneKeysOfItems items
  | .object [(key, value)] => key :: loneKeys value
  | .object entries => loneKeysOfEntries entries
  | _ => []

def loneKeysOfItems : List Json → List String
  | [] => []
  | x :: rest => loneKeys x ++ loneKeysOfItems rest

def loneKeysOfEntries : List (String × Json) → List String
  | [] => []
  | (_, x) :: rest => loneKeys x ++ loneKeysOfEntries rest

end

theorem loneKeys_item (items : List Json) (x : Json) (member : x ∈ items) :
    loneKeys x ⊆ loneKeys (.list items) := by
  rw [loneKeys]
  induction items with
  | nil => cases member
  | cons y rest ih =>
    rw [loneKeysOfItems]
    rcases List.mem_cons.mp member with rfl | later
    · exact List.subset_append_left ..
    · exact List.subset_append_of_subset_right _ (ih later)

theorem loneKeys_entry (entries : List (String × Json)) (x : Json)
    (member : x ∈ entries.map Prod.snd) : loneKeys x ⊆ loneKeys (.object entries) := by
  have inside : loneKeys x ⊆ loneKeysOfEntries entries := by
    induction entries with
    | nil => cases member
    | cons entry rest ih =>
      rw [loneKeysOfEntries]
      rcases List.mem_cons.mp member with rfl | later
      · exact List.subset_append_left ..
      · exact List.subset_append_of_subset_right _ (ih later)
  match entries with
  | [] => cases member
  | [(key, value)] =>
    rw [loneKeysOfEntries, loneKeysOfEntries, List.append_nil] at inside
    rw [loneKeys]
    exact List.subset_cons_of_subset _ inside
  | _ :: _ :: _ => simpa only [loneKeys] using inside

/-! ## Well-formed values -/

theorem wellFormed_list_iff (items : List Json) :
    WellFormed (.list items) ↔ ∀ x ∈ items, x.WellFormed := by
  rw [WellFormed]
  induction items with
  | nil => simp [WellFormedItems]
  | cons x rest ih => rw [WellFormedItems, ih, List.forall_mem_cons]

theorem wellFormed_object_iff (entries : Object) :
    WellFormed (.object entries) ↔
      Entries.Distinct entries ∧ ∀ key x, (key, x) ∈ entries → x.WellFormed := by
  rw [WellFormed]
  apply and_congr_right
  intro distinct
  clear distinct
  induction entries with
  | nil => simp [WellFormedEntries]
  | cons entry rest ih =>
    obtain ⟨k, v⟩ := entry
    rw [WellFormedEntries, ih]
    simp only [List.mem_cons, Prod.mk.injEq]
    constructor
    · rintro ⟨here, below⟩ key x (⟨rfl, rfl⟩ | member)
      · exact here
      · exact below key x member
    · intro each
      exact ⟨each k v (.inl ⟨rfl, rfl⟩), fun key x member => each key x (.inr member)⟩

namespace WellFormed

variable {entries : Object} {items : List Json}

theorem distinct (wellFormed : WellFormed (.object entries)) : Entries.Distinct entries :=
  ((wellFormed_object_iff entries).mp wellFormed).1

theorem item (wellFormed : WellFormed (.list items)) (x : Json) (member : x ∈ items) :
    x.WellFormed :=
  (wellFormed_list_iff items).mp wellFormed x member

theorem entry (wellFormed : WellFormed (.object entries)) (key : String) (value : Json)
    (found : Entries.get? entries key = some value) : value.WellFormed :=
  ((wellFormed_object_iff entries).mp wellFormed).2 key value
    (Entries.mem_of_get? entries key value found)

theorem put (wellFormed : WellFormed (.object entries)) (key : String) (value : Json)
    (good : value.WellFormed) : WellFormed (.object (Entries.put entries key value)) := by
  refine (wellFormed_object_iff _).mpr ⟨Entries.distinct_put wellFormed.distinct key value, ?_⟩
  intro k x member
  rcases Entries.mem_put entries key value (k, x) member with same | old
  · cases same
    exact good
  · exact ((wellFormed_object_iff entries).mp wellFormed).2 k x old

theorem erase (wellFormed : WellFormed (.object entries)) (key : String) :
    WellFormed (.object (Entries.erase entries key)) := by
  refine (wellFormed_object_iff _).mpr
    ⟨Entries.distinct_erase entries wellFormed.distinct key, fun k x member => ?_⟩
  exact ((wellFormed_object_iff entries).mp wellFormed).2 k x
    (Entries.mem_of_mem_erase entries key (k, x) member)

theorem step (value key next : Json) (wellFormed : value.WellFormed)
    (found : value.step? key = some next) : next.WellFormed := by
  cases value with
  | object entries =>
    obtain ⟨name, -, there⟩ := Option.bind_eq_some_iff.mp found
    exact wellFormed.entry name next there
  | list items =>
    obtain ⟨i, -, there⟩ := Option.bind_eq_some_iff.mp found
    exact wellFormed.item next (List.mem_of_getElem? there)
  | _ => cases found

theorem descendant (value found : Json) (path : List Json) (wellFormed : value.WellFormed)
    (there : value.at? path = some found) : found.WellFormed := by
  induction path generalizing value with
  | nil =>
    cases there
    exact wellFormed
  | cons key path ih =>
    obtain ⟨next, first, rest⟩ := Option.bind_eq_some_iff.mp there
    exact ih next (step value key next wellFormed first) rest

end WellFormed

end Orchestration.Json
