/-! # Ordered entries

A map kept as a list of entries.  `put` remembers the order in which keys arrived: a known key keeps
its place and takes the new value.  `insert` keeps the entries sorted by key instead.  `erase` moves
the last entry into the place that becomes free.
-/

set_option autoImplicit false

namespace Orchestration

abbrev Entries (α : Type) : Type := List (String × α)

namespace Entries

variable {α β : Type}

def get? : Entries α → String → Option α
  | [], _ => none
  | (k, v) :: rest, key => if k = key then some v else get? rest key

def keys (entries : Entries α) : List String :=
  entries.map Prod.fst

def has (entries : Entries α) (key : String) : Bool :=
  (get? entries key).isSome

/-- Writes a value: in place for a known key, else at the end. -/
def put : Entries α → String → α → Entries α
  | [], key, value => [(key, value)]
  | (k, v) :: rest, key, value =>
    if k = key then (k, value) :: rest else (k, v) :: put rest key value

def putAll (entries more : Entries α) : Entries α :=
  more.foldl (fun acc entry => put acc entry.1 entry.2) entries

/-- Writes a value where the key sorts. -/
def insert : Entries α → String → α → Entries α
  | [], key, value => [(key, value)]
  | (k, v) :: rest, key, value =>
    if k = key then (k, value) :: rest
    else if key < k then (key, value) :: (k, v) :: rest
    else (k, v) :: insert rest key value

/-- Removes a key; the last entry moves into its place. -/
def erase : Entries α → String → Entries α
  | [], _ => []
  | (k, v) :: rest, key =>
    if k = key then
      match rest.getLast? with
      | none => []
      | some last => last :: rest.dropLast
    else
      (k, v) :: erase rest key

/-- Removes a key; the entries behind it close up. -/
def remove : Entries α → String → Entries α
  | [], _ => []
  | (k, v) :: rest, key => if k = key then rest else (k, v) :: remove rest key

def mapValues (f : α → β) (entries : Entries α) : Entries β :=
  entries.map fun (k, v) => (k, f v)

def Distinct (entries : Entries α) : Prop :=
  (keys entries).Nodup

def Sorted (entries : Entries α) : Prop :=
  (keys entries).Pairwise (· < ·)

@[simp] theorem get?_nil (key : String) : get? ([] : Entries α) key = none := rfl

theorem get?_cons (k : String) (v : α) (rest : Entries α) (key : String) :
    get? ((k, v) :: rest) key = if k = key then some v else get? rest key := rfl

theorem get?_put (entries : Entries α) (key other : String) (value : α) :
    get? (put entries key value) other =
      if key = other then some value else get? entries other := by
  induction entries with
  | nil => simp [put, get?]
  | cons entry rest ih =>
    obtain ⟨k, v⟩ := entry
    by_cases h : k = key
    · subst h
      by_cases h' : k = other <;> simp [put, get?, h']
    · by_cases h' : k = other
      · subst h'
        simp [put, get?, h, Ne.symm h]
      · simp [put, get?, h, h', ih]

theorem get?_eq_none_iff (entries : Entries α) (key : String) :
    get? entries key = none ↔ key ∉ keys entries := by
  induction entries with
  | nil => simp [keys]
  | cons entry rest ih =>
    obtain ⟨k, v⟩ := entry
    by_cases h : k = key
    · simp [get?, keys, h]
    · have h' : ¬ key = k := fun e => h e.symm
      simp only [keys] at ih
      simp [get?, keys, h, h', ih]

theorem keys_put (entries : Entries α) (key : String) (value : α) :
    keys (put entries key value) =
      if key ∈ keys entries then keys entries else keys entries ++ [key] := by
  induction entries with
  | nil => simp [put, keys]
  | cons entry rest ih =>
    obtain ⟨k, v⟩ := entry
    by_cases h : k = key
    · simp [put, keys, h]
    · have h' : ¬ key = k := fun e => h e.symm
      simp only [keys] at ih
      by_cases hm : key ∈ rest.map Prod.fst
      · simp [put, keys, h, hm] at ih ⊢
        exact ih
      · simp [put, keys, h, h', hm] at ih ⊢
        exact ih

theorem distinct_put {entries : Entries α} (h : Distinct entries) (key : String) (value : α) :
    Distinct (put entries key value) := by
  unfold Distinct at h ⊢
  rw [keys_put]
  split
  · exact h
  · rename_i hm
    rw [List.nodup_append]
    refine ⟨h, by simp, ?_⟩
    intro a ha b hb
    simp only [List.mem_singleton] at hb
    subst hb
    exact fun e => hm (e ▸ ha)

theorem sorted_nil : Sorted ([] : Entries α) :=
  List.Pairwise.nil

theorem mem_keys_insert {entries : Entries α} {key other : String} {value : α}
    (h : other ∈ keys (insert entries key value)) : other = key ∨ other ∈ keys entries := by
  induction entries with
  | nil => exact .inl (List.mem_singleton.mp h)
  | cons entry rest ih =>
    obtain ⟨k, v⟩ := entry
    rw [insert] at h
    split at h
    · exact .inr h
    · split at h
      · exact List.mem_cons.mp h
      · rcases List.mem_cons.mp h with rfl | later
        · exact .inr (List.mem_cons_self ..)
        · exact (ih later).imp id (List.mem_cons_of_mem _)

theorem sorted_insert {entries : Entries α} (h : Sorted entries) (key : String) (value : α) :
    Sorted (insert entries key value) := by
  induction entries with
  | nil => exact List.pairwise_singleton ..
  | cons entry rest ih =>
    obtain ⟨k, v⟩ := entry
    obtain ⟨first, later⟩ := List.pairwise_cons.mp h
    rw [insert]
    split
    · exact h
    · rename_i apart
      split
      · rename_i below
        refine List.pairwise_cons.mpr ⟨fun other member => ?_, h⟩
        rcases List.mem_cons.mp member with rfl | member
        · exact below
        · exact String.lt_trans below (first other member)
      · rename_i notBelow
        refine List.pairwise_cons.mpr ⟨fun other member => ?_, ih later⟩
        rcases mem_keys_insert member with rfl | member
        · exact Std.lt_of_le_of_ne notBelow apart
        · exact first other member

end Entries

end Orchestration
