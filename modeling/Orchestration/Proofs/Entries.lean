import Mathlib.Data.List.Forall2
import Orchestration.Entries

/-!
# More on ordered entries

How lookup, writing and removal go together and with maps over the values, and when two maps with
the same keys are the same.  Lists and maps whose values are related one by one.
-/

set_option autoImplicit false

namespace Orchestration.Entries

variable {α β : Type}

@[simp] theorem mapValues_nil (f : α → β) : mapValues f ([] : Entries α) = [] := rfl

@[simp] theorem mapValues_cons (f : α → β) (key : String) (value : α) (rest : Entries α) :
    mapValues f ((key, value) :: rest) = (key, f value) :: mapValues f rest := rfl

@[simp] theorem keys_mapValues (f : α → β) (entries : Entries α) :
    keys (mapValues f entries) = keys entries := by
  simp [keys, mapValues]

theorem mapValues_zip (f : α → β) (names : List String) (values : List α) :
    mapValues f (names.zip values) = names.zip (values.map f) := by
  rw [List.zip_map_right]
  rfl

theorem zip_keys_values (entries : Entries α) :
    (keys entries).zip (entries.map Prod.snd) = entries := by
  simp [keys, List.zip_map']

theorem mapValues_eq_zip (f : α → β) (entries : Entries α) :
    mapValues f entries = (keys entries).zip ((entries.map Prod.snd).map f) := by
  rw [← mapValues_zip, zip_keys_values]

theorem map_snd_mapValues (f : α → β) (entries : Entries α) :
    (mapValues f entries).map Prod.snd = (entries.map Prod.snd).map f := by
  simp [mapValues]

theorem mapValues_put (f : α → β) (entries : Entries α) (key : String) (value : α) :
    mapValues f (put entries key value) = put (mapValues f entries) key (f value) := by
  induction entries with
  | nil => rfl
  | cons entry rest ih =>
    obtain ⟨k, v⟩ := entry
    rw [put, mapValues_cons, put]
    split
    · rfl
    · rw [mapValues_cons, ih]

theorem get?_mapValues (f : α → β) (entries : Entries α) (key : String) :
    get? (mapValues f entries) key = (get? entries key).map f := by
  induction entries with
  | nil => rfl
  | cons entry rest ih =>
    obtain ⟨k, value⟩ := entry
    rw [mapValues_cons, get?_cons, get?_cons, ih]
    split <;> rfl

theorem get?_append (front back : Entries α) (key : String) :
    get? (front ++ back) key = (get? front key).or (get? back key) := by
  induction front with
  | nil => rfl
  | cons entry rest ih =>
    obtain ⟨k, v⟩ := entry
    rw [List.cons_append, get?_cons, get?_cons, ih]
    split <;> rfl

theorem get?_insert (entries : Entries α) (key other : String) (value : α) :
    get? (insert entries key value) other =
      if key = other then some value else get? entries other := by
  induction entries with
  | nil => rfl
  | cons entry rest ih =>
    obtain ⟨k, v⟩ := entry
    rw [insert]
    split
    · rename_i same
      subst same
      rw [get?_cons, get?_cons]
      split <;> rfl
    · rename_i apart
      split
      · rw [get?_cons]
      · rw [get?_cons, get?_cons, ih]
        by_cases here : k = other
        · rw [if_pos here, if_pos here, if_neg fun same => apart (here.trans same.symm)]
        · rw [if_neg here, if_neg here]

theorem insert_last (entries : Entries α) (key : String) (value : α)
    (last : ∀ other ∈ keys entries, other < key) :
    insert entries key value = entries ++ [(key, value)] := by
  induction entries with
  | nil => rfl
  | cons entry rest ih =>
    obtain ⟨k, v⟩ := entry
    have below : k < key := last k (List.mem_cons_self ..)
    have rest' := ih fun other member => last other (List.mem_cons_of_mem _ member)
    rw [insert, if_neg (Std.ne_of_lt below), if_neg (String.lt_asymm below), rest',
      List.cons_append]

theorem keys_insert_of_mem {entries : Entries α} (sorted : Sorted entries) (key : String)
    (value : α) (there : key ∈ keys entries) : keys (insert entries key value) = keys entries := by
  induction entries with
  | nil => cases there
  | cons entry rest ih =>
    obtain ⟨k, v⟩ := entry
    obtain ⟨first, later⟩ := List.pairwise_cons.mp sorted
    rw [insert]
    split
    · rfl
    · rename_i apart
      have behind : key ∈ keys rest := (List.mem_cons.mp there).resolve_left (Ne.symm apart)
      rw [if_neg (String.lt_asymm (first key behind))]
      exact congrArg (k :: ·) (ih later behind)

theorem get?_filter (entries : Entries α) (kept : String → Bool) (key : String) :
    get? (entries.filter fun entry => kept entry.1) key =
      if kept key then get? entries key else none := by
  induction entries with
  | nil => simp
  | cons entry rest ih =>
    obtain ⟨k, v⟩ := entry
    rw [List.filter_cons, get?_cons]
    by_cases same : k = key
    · subst same
      by_cases stays : kept k = true
      · simp [stays, get?_cons]
      · simp [stays, ih]
    · by_cases stays : kept k = true
      · simp [stays, get?_cons, same, ih]
      · simp [stays, same, ih]

theorem mem_of_get? (entries : Entries α) (key : String) (value : α)
    (found : get? entries key = some value) : (key, value) ∈ entries := by
  induction entries with
  | nil => simp at found
  | cons entry rest ih =>
    obtain ⟨k, v⟩ := entry
    rw [get?_cons] at found
    split at found
    · rename_i same
      cases found
      simp [same]
    · exact List.mem_cons_of_mem _ (ih found)

theorem mem_keys_iff (entries : Entries α) (key : String) :
    key ∈ keys entries ↔ ∃ value, get? entries key = some value := by
  rw [← Option.ne_none_iff_exists', Ne, get?_eq_none_iff, not_not]

theorem has_iff (entries : Entries α) (key : String) :
    has entries key = true ↔ key ∈ keys entries := by
  rw [has, Option.isSome_iff_exists, mem_keys_iff]

theorem put_of_get? (entries : Entries α) (key : String) (value : α)
    (found : get? entries key = some value) : put entries key value = entries := by
  induction entries with
  | nil => simp at found
  | cons entry rest ih =>
    obtain ⟨k, v⟩ := entry
    rw [get?_cons] at found
    rw [put]
    split at found
    · rename_i same
      cases found
      rw [if_pos same]
    · rename_i apart
      rw [if_neg apart, ih found]

theorem put_of_absent (entries : Entries α) (key : String) (value : α)
    (absent : key ∉ keys entries) : put entries key value = entries ++ [(key, value)] := by
  induction entries with
  | nil => rfl
  | cons entry rest ih =>
    obtain ⟨k, v⟩ := entry
    obtain ⟨apart, absent⟩ : key ≠ k ∧ key ∉ keys rest := by simpa [keys] using absent
    rw [put, if_neg (Ne.symm apart), ih absent, List.cons_append]

theorem putAll_of_distinct (entries more : Entries α) (distinct : Distinct (entries ++ more)) :
    putAll entries more = entries ++ more := by
  induction more generalizing entries with
  | nil => exact (List.append_nil entries).symm
  | cons entry rest ih =>
    obtain ⟨k, v⟩ := entry
    have absent : k ∉ keys entries := by
      have apart := distinct
      rw [Distinct, keys, List.map_append, List.nodup_append] at apart
      exact fun member => apart.2.2 k member k (List.mem_cons_self ..) rfl
    rw [List.append_cons] at distinct ⊢
    rw [putAll, List.foldl_cons, put_of_absent entries k v absent]
    exact ih (entries ++ [(k, v)]) distinct

theorem keys_put_of_present (entries : Entries α) (key : String) (held value : α)
    (there : get? entries key = some held) : keys (put entries key value) = keys entries := by
  have listed : key ∈ keys entries := by
    refine Classical.byContradiction fun missing => ?_
    rw [← get?_eq_none_iff, there] at missing
    cases missing
  rw [keys_put, if_pos listed]

theorem put_put (entries : Entries α) (key : String) (first second : α) :
    put (put entries key first) key second = put entries key second := by
  induction entries with
  | nil => simp [put]
  | cons entry rest ih =>
    obtain ⟨k, v⟩ := entry
    rw [put, put]
    split
    · rename_i same
      rw [put, if_pos same]
    · rename_i apart
      rw [put, if_neg apart, ih]

theorem mem_put (entries : Entries α) (key : String) (value : α) (entry : String × α)
    (member : entry ∈ put entries key value) : entry = (key, value) ∨ entry ∈ entries := by
  induction entries with
  | nil => exact .inl (List.mem_singleton.mp member)
  | cons first rest ih =>
    obtain ⟨k, v⟩ := first
    rw [put] at member
    split at member
    · rename_i same
      subst same
      rcases List.mem_cons.mp member with rfl | later
      · exact .inl rfl
      · exact .inr (List.mem_cons_of_mem _ later)
    · rcases List.mem_cons.mp member with rfl | later
      · exact .inr (List.mem_cons_self ..)
      · exact (ih later).imp id (List.mem_cons_of_mem _)

theorem get?_remove_of_ne (entries : Entries α) (key other : String) (apart : other ≠ key) :
    get? (remove entries key) other = get? entries other := by
  induction entries with
  | nil => rfl
  | cons entry rest ih =>
    obtain ⟨k, value⟩ := entry
    rw [remove]
    by_cases same : k = key
    · rw [if_pos same, get?_cons, if_neg (same ▸ Ne.symm apart)]
    · rw [if_neg same, get?_cons, get?_cons, ih]

theorem get?_eq_some_iff (entries : Entries α) (distinct : Distinct entries) (key : String)
    (value : α) : get? entries key = some value ↔ (key, value) ∈ entries := by
  refine ⟨mem_of_get? entries key value, ?_⟩
  induction entries with
  | nil => simp
  | cons entry rest ih =>
    intro member
    obtain ⟨k, v⟩ := entry
    obtain ⟨fresh, distinct⟩ : k ∉ keys rest ∧ Distinct rest := List.nodup_cons.mp distinct
    rw [get?_cons]
    rcases List.mem_cons.mp member with same | later
    · cases same
      rw [if_pos rfl]
    · have apart : k ≠ key := fun same => fresh (same ▸ List.mem_map_of_mem later)
      rw [if_neg apart, ih distinct later]

theorem get?_of_perm (first second : Entries α) (perm : first.Perm second)
    (distinct : Distinct first) (key : String) : get? first key = get? second key := by
  have distinct' : Distinct second := (perm.map Prod.fst).nodup_iff.mp distinct
  ext value
  rw [get?_eq_some_iff first distinct, get?_eq_some_iff second distinct', perm.mem_iff]

theorem keys_remove (entries : Entries α) (key : String) :
    keys (remove entries key) = (keys entries).erase key := by
  induction entries with
  | nil => rfl
  | cons entry rest ih =>
    obtain ⟨k, v⟩ := entry
    rw [remove]
    by_cases same : k = key
    · simp [same, keys]
    · rw [if_neg same]
      simp only [keys, List.map_cons] at ih ⊢
      rw [List.erase_cons_tail (by simpa using same), ih]

theorem distinct_remove (entries : Entries α) (distinct : Distinct entries) (key : String) :
    Distinct (remove entries key) := by
  change (keys (remove entries key)).Nodup
  rw [keys_remove]
  exact distinct.erase key

theorem distinct_of_sorted {entries : Entries α} (sorted : Sorted entries) : Distinct entries :=
  sorted.imp Std.ne_of_lt

theorem sorted_remove {entries : Entries α} (sorted : Sorted entries) (key : String) :
    Sorted (remove entries key) := by
  rw [Sorted, keys_remove]
  exact sorted.sublist List.erase_sublist

theorem get?_remove_self (entries : Entries α) (distinct : Distinct entries) (key : String) :
    get? (remove entries key) key = none := by
  rw [get?_eq_none_iff, keys_remove]
  exact distinct.not_mem_erase

theorem get?_remove (entries : Entries α) (distinct : Distinct entries) (key other : String) :
    get? (remove entries key) other = if key = other then none else get? entries other := by
  by_cases same : key = other
  · subst same
    rw [if_pos rfl, get?_remove_self entries distinct]
  · rw [if_neg same, get?_remove_of_ne entries key other (Ne.symm same)]

theorem erase_perm_remove (entries : Entries α) (key : String) :
    (erase entries key).Perm (remove entries key) := by
  induction entries with
  | nil => exact .nil
  | cons entry rest ih =>
    obtain ⟨k, v⟩ := entry
    rw [erase, remove]
    by_cases same : k = key
    · rw [if_pos same, if_pos same]
      cases last : rest.getLast? with
      | none => rw [List.getLast?_eq_none_iff.mp last]
      | some entry =>
        obtain ⟨front, rfl⟩ := List.getLast?_eq_some_iff.mp last
        simpa using (List.perm_append_singleton entry front).symm
    · rw [if_neg same, if_neg same]
      exact ih.cons _

theorem distinct_erase (entries : Entries α) (distinct : Distinct entries) (key : String) :
    Distinct (erase entries key) := by
  have perm := (erase_perm_remove entries key).map Prod.fst
  exact perm.nodup_iff.mpr (distinct_remove entries distinct key)

theorem get?_erase (entries : Entries α) (distinct : Distinct entries) (key other : String) :
    get? (erase entries key) other = if key = other then none else get? entries other := by
  rw [get?_of_perm _ _ (erase_perm_remove entries key) (distinct_erase entries distinct key)]
  by_cases same : key = other
  · subst same
    rw [if_pos rfl, get?_remove_self entries distinct]
  · rw [if_neg same, get?_remove_of_ne entries key other (Ne.symm same)]

theorem mem_of_mem_erase (entries : Entries α) (key : String) (entry : String × α)
    (member : entry ∈ erase entries key) : entry ∈ entries := by
  have removed := (erase_perm_remove entries key).mem_iff.mp member
  clear member
  induction entries with
  | nil => exact removed
  | cons first rest ih =>
    obtain ⟨k, v⟩ := first
    rw [remove] at removed
    split at removed
    · exact List.mem_cons_of_mem _ removed
    · rcases List.mem_cons.mp removed with rfl | later
      · exact List.mem_cons_self ..
      · exact List.mem_cons_of_mem _ (ih later)

theorem erase_of_absent (entries : Entries α) (key : String) (absent : get? entries key = none) :
    erase entries key = entries := by
  induction entries with
  | nil => rfl
  | cons entry rest ih =>
    obtain ⟨k, v⟩ := entry
    by_cases same : k = key
    · rw [get?_cons, if_pos same] at absent
      cases absent
    · rw [get?_cons, if_neg same] at absent
      rw [erase, if_neg same, ih absent]

theorem erase_put_of_absent (entries : Entries α) (key : String) (value : α)
    (absent : get? entries key = none) : erase (put entries key value) key = entries := by
  induction entries with
  | nil => simp [put, erase]
  | cons entry rest ih =>
    obtain ⟨k, v⟩ := entry
    by_cases same : k = key
    · rw [get?_cons, if_pos same] at absent
      cases absent
    · rw [get?_cons, if_neg same] at absent
      rw [put, if_neg same, erase, if_neg same, ih absent]

/-- Two maps with the same keys, none of them twice, and the same values are the same. -/
theorem ext_of_keys (first second : Entries α) (sameKeys : keys first = keys second)
    (distinct : Distinct first)
    (sameValues : ∀ key ∈ keys first, get? first key = get? second key) : first = second := by
  induction first generalizing second with
  | nil =>
    cases second with
    | nil => rfl
    | cons entry rest => simp [keys] at sameKeys
  | cons entry rest ih =>
    cases second with
    | nil => simp [keys] at sameKeys
    | cons other others =>
      obtain ⟨key, value⟩ := entry
      obtain ⟨key', value'⟩ := other
      simp only [keys, List.map_cons, List.cons.injEq] at sameKeys
      obtain ⟨rfl, restKeys⟩ := sameKeys
      have distinct' : key ∉ keys rest ∧ (keys rest).Nodup := List.nodup_cons.mp distinct
      have here := sameValues key (List.mem_cons_self ..)
      simp only [get?_cons, if_pos, Option.some.injEq] at here
      subst here
      rw [ih others restKeys distinct'.2]
      intro k member
      have there := sameValues k (List.mem_cons_of_mem _ member)
      have other : key ≠ k := fun same => distinct'.1 (same ▸ member)
      rwa [get?_cons, get?_cons, if_neg other, if_neg other] at there

theorem eq_singleton (entries : Entries α) (distinct : Distinct entries) (key : String) (value : α)
    (there : get? entries key = some value)
    (only : ∀ other, get? entries other ≠ none → other = key) : entries = [(key, value)] := by
  have all : ∀ other ∈ keys entries, other = key := fun other member =>
    only other fun missing => (get?_eq_none_iff entries other).mp missing member
  match entries with
  | [] => cases there
  | [(k, v)] =>
    have same : k = key := all k (List.mem_singleton_self k)
    subst same
    rw [get?_cons, if_pos rfl] at there
    cases there
    rfl
  | (first, _) :: (second, _) :: rest =>
    have same : first = second := by
      rw [all first (by simp [keys]), all second (by simp [keys])]
    simp [Distinct, keys, same] at distinct

end Orchestration.Entries

namespace Orchestration

/-! ## Related lists and maps -/

theorem forall₂_getElem? {α β : Type} {R : α → β → Prop} {xs : List α} {ys : List β}
    (pairs : List.Forall₂ R xs ys) (i : Nat) : (xs[i]? = none ∧ ys[i]? = none) ∨
      ∃ x y, xs[i]? = some x ∧ ys[i]? = some y ∧ R x y := by
  induction pairs generalizing i with
  | nil => exact .inl ⟨rfl, rfl⟩
  | cons related rest ih =>
    cases i with
    | zero => exact .inr ⟨_, _, rfl, rfl, related⟩
    | succ i => exact ih i

theorem forall₂_append_left_iff {α β : Type} {R : α → β → Prop} (xs ys : List α) (zs : List β) :
    List.Forall₂ R (xs ++ ys) zs ↔
      ∃ first second, List.Forall₂ R xs first ∧ List.Forall₂ R ys second ∧
        zs = first ++ second := by
  induction xs generalizing zs with
  | nil => simp
  | cons x xs ih =>
    simp only [List.cons_append, List.forall₂_cons_left_iff, ih]
    constructor
    · rintro ⟨z, _, here, ⟨first, second, each, later, rfl⟩, rfl⟩
      exact ⟨z :: first, second, ⟨z, first, here, each, rfl⟩, later, rfl⟩
    · rintro ⟨_, second, ⟨z, first, here, each, rfl⟩, later, rfl⟩
      exact ⟨z, first ++ second, here, ⟨first, second, each, later, rfl⟩, rfl⟩

theorem related_of_mem {α β : Type} {related other : α → β → Prop} {items : List α}
    {others : List β} (each : List.Forall₂ related items others)
    (implies : ∀ x ∈ items, ∀ y, related x y → other x y) : List.Forall₂ other items others :=
  ((List.forall₂_and_left _ _).mpr ⟨implies, each⟩).imp fun _ y both => both.1 y both.2

theorem Entries.get?_related {α β : Type} {related : α → β → Prop} (entries : Entries α)
    (others : Entries β) (keys : Entries.keys others = Entries.keys entries)
    (each : List.Forall₂ related (entries.map Prod.snd) (others.map Prod.snd)) (key : String) :
    (Entries.get? entries key = none ∧ Entries.get? others key = none) ∨
      ∃ x y, Entries.get? entries key = some x ∧ Entries.get? others key = some y ∧
        related x y := by
  induction entries generalizing others with
  | nil =>
    cases others with
    | nil => exact .inl ⟨rfl, rfl⟩
    | cons entry rest => cases each
  | cons entry rest ih =>
    cases others with
    | nil => cases each
    | cons other more =>
      obtain ⟨k, value⟩ := entry
      obtain ⟨k', value'⟩ := other
      obtain ⟨rfl, later⟩ := List.cons.inj keys
      cases each with
      | cons first each =>
        rw [Entries.get?_cons, Entries.get?_cons]
        split
        · exact .inr ⟨value, value', rfl, rfl, first⟩
        · exact ih more later each

end Orchestration
