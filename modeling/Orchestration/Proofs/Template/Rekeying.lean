import Mathlib.Data.List.Nodup
import Orchestration.Proofs.Template.Calls

/-!
# Renaming the keys of a map

The entries of a map are renamed one by one and written behind each other.  A new name is compared
with the keys of the input and with what was written before; a key that stays is compared with
nothing.  Still no entry is written over another one: a key that stays is a key of the input, and no
new name is.  So the call comes to something exactly if the new names differ from each other and
from the keys of the input, and every entry is kept then.
-/

set_option autoImplicit false

namespace Orchestration.Functions

variable {newKeys newValues input : Object}

def NamesTexts (newKeys : Object) : Prop :=
  ∀ key value, Entries.get? newKeys key = some value → value = .null ∨ ∃ name, value = .string name

def newName? (newKeys : Object) (key : String) : Option String :=
  (Entries.get? newKeys key).bind Json.text?

theorem newName?_eq_some_iff (newKeys : Object) (key name : String) :
    newName? newKeys key = some name ↔ Entries.get? newKeys key = some (.string name) := by
  rw [newName?, Option.bind_eq_some_iff]
  constructor
  · rintro ⟨value, found, text⟩
    cases value with
    | string s =>
      cases text
      exact found
    | _ => cases text
  · exact fun found => ⟨_, found, rfl⟩

def renamedEntry (newKeys newValues : Object) (entry : String × Json) : String × Json :=
  ((newName? newKeys entry.1).getD entry.1, replacedValue newValues entry.2)

def NamesFresh (newKeys input : Object) (keys : List String) : Prop :=
  ∀ key ∈ keys, ∀ name, newName? newKeys key = some name → name ∉ Entries.keys input

/-! ## One entry -/

theorem renamedKey_kept (texts : NamesTexts newKeys) (input done : Object) (key : String)
    (kept : newName? newKeys key = none) : renamedKey newKeys input done key = .ok key := by
  rw [newName?] at kept
  unfold renamedKey
  cases found : Entries.get? newKeys key with
  | none => rfl
  | some value =>
    rcases texts key value found with rfl | ⟨name, rfl⟩
    · rfl
    · rw [found] at kept
      cases kept

theorem renamedKey_new (input done : Object) {key name : String}
    (new : newName? newKeys key = some name) :
    renamedKey newKeys input done key =
      if name ∈ Entries.keys input then .error (.inputKeyCollision name)
      else if name ∈ Entries.keys done then .error (.outputKeyCollision name)
      else .ok name := by
  rw [newName?_eq_some_iff] at new
  simp only [renamedKey, new, Entries.has_iff]

theorem renamedKey_ok_iff (texts : NamesTexts newKeys) (input done : Object) (key new : String)
    (unwritten : key ∉ Entries.keys done) :
    renamedKey newKeys input done key = .ok new ↔
      (∀ name, newName? newKeys key = some name → name ∉ Entries.keys input) ∧
        (newName? newKeys key).getD key = new ∧ new ∉ Entries.keys done := by
  cases named : newName? newKeys key with
  | none =>
    rw [renamedKey_kept texts input done key named, Except.ok.injEq, Option.getD_none]
    constructor
    · rintro rfl
      exact ⟨fun _ absent => (nomatch absent), rfl, unwritten⟩
    · exact fun kept => kept.2.1
  | some name =>
    rw [renamedKey_new input done named, Option.getD_some]
    by_cases taken : name ∈ Entries.keys input
    · simp [taken]
    · by_cases written : name ∈ Entries.keys done
      · simp only [if_neg taken, if_pos written, reduceCtorEq, false_iff]
        rintro ⟨-, rfl, unwritten⟩
        exact unwritten written
      · simp only [if_neg taken, if_neg written, Except.ok.injEq]
        constructor
        · rintro rfl
          exact ⟨fun _ same => Option.some.inj same ▸ taken, rfl, written⟩
        · exact fun renamed => renamed.2.1

theorem renamedKey_error (texts : NamesTexts newKeys) (input done : Object) (key : String)
    (fault : Fault) (fails : renamedKey newKeys input done key = .error fault) :
    ∃ name, newName? newKeys key = some name ∧
      (fault = .inputKeyCollision name ∨ fault = .outputKeyCollision name) := by
  cases new : newName? newKeys key with
  | none =>
    rw [renamedKey_kept texts input done key new] at fails
    cases fails
  | some name =>
    rw [renamedKey_new input done new] at fails
    refine ⟨name, rfl, ?_⟩
    split at fails
    · cases fails
      exact .inl rfl
    · split at fails
      · cases fails
        exact .inr rfl
      · cases fails

/-! ## All entries -/

theorem renameEntries_cons_ok_iff (texts : NamesTexts newKeys) (done rest output : Object)
    (entry : String × Json) (unwritten : entry.1 ∉ Entries.keys done) :
    renameEntries newKeys newValues input done (entry :: rest) = .ok output ↔
      (∀ name, newName? newKeys entry.1 = some name → name ∉ Entries.keys input) ∧
        (renamedEntry newKeys newValues entry).1 ∉ Entries.keys done ∧
        renameEntries newKeys newValues input
          (done ++ [renamedEntry newKeys newValues entry]) rest = .ok output := by
  have written := Entries.put_of_absent done (renamedEntry newKeys newValues entry).1
    (replacedValue newValues entry.2)
  simp only [renameEntries, bind, bind_eq_ok_iff]
  constructor
  · rintro ⟨new, renamed, run⟩
    obtain ⟨fresh, rfl, absent⟩ := (renamedKey_ok_iff texts input done _ new unwritten).mp renamed
    exact ⟨fresh, absent, written absent ▸ run⟩
  · rintro ⟨fresh, absent, run⟩
    have renamed := (renamedKey_ok_iff texts input done _ _ unwritten).mpr ⟨fresh, rfl, absent⟩
    exact ⟨_, renamed, (written absent).symm ▸ run⟩

theorem keys_append_singleton (done : Object) (entry : String × Json) :
    Entries.keys (done ++ [entry]) = Entries.keys done ++ [entry.1] :=
  List.map_append

theorem distinct_append_singleton {done : Object} {entry : String × Json}
    (distinct : Entries.Distinct done) (absent : entry.1 ∉ Entries.keys done) :
    Entries.Distinct (done ++ [entry]) := by
  rw [← Entries.put_of_absent done entry.1 entry.2 absent]
  exact Entries.distinct_put distinct entry.1 entry.2

theorem renameEntries_ok_iff (newValues : Object) (texts : NamesTexts newKeys)
    (done rest output : Object)
    (among : Entries.keys rest ⊆ Entries.keys input) (distinct : Entries.Distinct rest)
    (distinctDone : Entries.Distinct done)
    (unwritten : ∀ key ∈ Entries.keys rest, key ∉ Entries.keys done) :
    renameEntries newKeys newValues input done rest = .ok output ↔
      NamesFresh newKeys input (Entries.keys rest) ∧
        Entries.Distinct (done ++ rest.map (renamedEntry newKeys newValues)) ∧
        output = done ++ rest.map (renamedEntry newKeys newValues) := by
  induction rest generalizing done with
  | nil =>
    simp [renameEntries, NamesFresh, Entries.keys, distinctDone, eq_comm]
  | cons entry rest ih =>
    obtain ⟨-, among⟩ : entry.1 ∈ Entries.keys input ∧ Entries.keys rest ⊆ Entries.keys input :=
      List.cons_subset.mp among
    obtain ⟨single, distinct⟩ : entry.1 ∉ Entries.keys rest ∧ Entries.Distinct rest :=
      List.nodup_cons.mp distinct
    obtain ⟨here, later⟩ := List.forall_mem_cons.mp unwritten
    have fresh_cons : NamesFresh newKeys input (Entries.keys (entry :: rest)) ↔
        (∀ name, newName? newKeys entry.1 = some name → name ∉ Entries.keys input) ∧
          NamesFresh newKeys input (Entries.keys rest) := List.forall_mem_cons
    rw [renameEntries_cons_ok_iff texts done rest output entry here, fresh_cons, List.map_cons,
      List.append_cons done _ (rest.map _), and_assoc]
    refine and_congr_right fun fresh => ?_
    -- What is written here is the key of this entry or a fresh name, so it is no key to come.
    have apart : ∀ key ∈ Entries.keys rest, key ≠ (renamedEntry newKeys newValues entry).1 := by
      rintro key member rfl
      rw [renamedEntry] at member
      cases named : newName? newKeys entry.1 with
      | none => exact single (by simpa [named] using member)
      | some name => exact fresh name named (among (by simpa [named] using member))
    have goesOn (absent : (renamedEntry newKeys newValues entry).1 ∉ Entries.keys done) :=
      ih (done ++ [renamedEntry newKeys newValues entry]) among distinct
        (distinct_append_singleton distinctDone absent)
        (fun key member written => by
          rw [keys_append_singleton, List.mem_append, List.mem_singleton] at written
          exact written.elim (later key member) (apart key member))
    constructor
    · rintro ⟨absent, run⟩
      exact (goesOn absent).mp run
    · rintro ⟨freshLater, distinctAll, same⟩
      have absent : (renamedEntry newKeys newValues entry).1 ∉ Entries.keys done := by
        intro written
        rw [Entries.Distinct, Entries.keys, List.map_append, List.map_append,
          List.append_assoc, List.nodup_append] at distinctAll
        exact distinctAll.2.2 _ written _ (by simp) rfl
      exact ⟨absent, (goesOn absent).mpr ⟨freshLater, distinctAll, same⟩⟩

theorem renameEntries_error (texts : NamesTexts newKeys) (done rest : Object) (fault : Fault)
    (fails : renameEntries newKeys newValues input done rest = .error fault) :
    ∃ key ∈ Entries.keys rest, ∃ name, newName? newKeys key = some name ∧
      (fault = .inputKeyCollision name ∨ fault = .outputKeyCollision name) := by
  induction rest generalizing done with
  | nil => cases fails
  | cons entry rest ih =>
    obtain ⟨key, value⟩ := entry
    rw [renameEntries] at fails
    cases renamed : renamedKey newKeys input done key with
    | error e =>
      rw [renamed] at fails
      cases fails
      exact ⟨key, List.mem_cons_self .., renamedKey_error texts input done key _ renamed⟩
    | ok new =>
      rw [renamed] at fails
      obtain ⟨other, member, named⟩ := ih _ fails
      exact ⟨other, List.mem_cons_of_mem _ member, named⟩

/-! ## The whole map -/

/-- No key gets the name of a key of the map, and no two keys get the same name. -/
structure Unambiguous (newKeys input : Object) : Prop where
  fresh : ∀ key ∈ Entries.keys input, ∀ name,
    Entries.get? newKeys key = some (.string name) → name ∉ Entries.keys input
  apart : ∀ key ∈ Entries.keys input, ∀ other ∈ Entries.keys input, ∀ name,
    Entries.get? newKeys key = some (.string name) →
    Entries.get? newKeys other = some (.string name) → key = other

theorem unambiguous_iff (newValues : Object) (distinct : Entries.Distinct input) :
    Unambiguous newKeys input ↔ NamesFresh newKeys input (Entries.keys input) ∧
      Entries.Distinct (input.map (renamedEntry newKeys newValues)) := by
  have keys : Entries.keys (input.map (renamedEntry newKeys newValues)) =
      (Entries.keys input).map fun key => (newName? newKeys key).getD key := by
    simp [Entries.keys, renamedEntry, Function.comp_def]
  rw [Entries.Distinct, keys, List.nodup_map_iff_inj_on distinct]
  constructor
  · intro unambiguous
    have fresh : NamesFresh newKeys input (Entries.keys input) := fun key member name new =>
      unambiguous.fresh key member name ((newName?_eq_some_iff ..).mp new)
    refine ⟨fresh, fun key member other among same => ?_⟩
    cases new : newName? newKeys key with
    | none =>
      cases new' : newName? newKeys other with
      | none => simpa [new, new'] using same
      | some name =>
        obtain rfl : key = name := by simpa [new, new'] using same
        exact absurd member (fresh other among key new')
    | some name =>
      cases new' : newName? newKeys other with
      | none =>
        obtain rfl : name = other := by simpa [new, new'] using same
        exact absurd among (fresh key member name new)
      | some name' =>
        obtain rfl : name = name' := by simpa [new, new'] using same
        exact unambiguous.apart key member other among name ((newName?_eq_some_iff ..).mp new)
          ((newName?_eq_some_iff ..).mp new')
  · rintro ⟨fresh, apart⟩
    refine ⟨fun key member name new => ?_, fun key member other among name new new' => ?_⟩
    · exact fresh key member name ((newName?_eq_some_iff ..).mpr new)
    · rw [← newName?_eq_some_iff] at new new'
      exact apart key member other among (by rw [new, new']; rfl)

theorem renameEntries_input_ok_iff (newValues : Object) (texts : NamesTexts newKeys)
    (distinct : Entries.Distinct input) (output : Object) :
    renameEntries newKeys newValues input [] input = .ok output ↔
      Unambiguous newKeys input ∧ output = input.map (renamedEntry newKeys newValues) := by
  rw [renameEntries_ok_iff newValues texts [] input output (fun _ member => member) distinct
    List.nodup_nil (fun _ _ => List.not_mem_nil), unambiguous_iff newValues distinct,
    List.nil_append, and_assoc]

/-- What becomes of an entry: it has its new name if it has one, and a text that is listed gives way
to the value listed for it. -/
structure Replaced (newKeys newValues : Object) (entry output : String × Json) : Prop where
  renamed : ∀ name, Entries.get? newKeys entry.1 = some (.string name) → output.1 = name
  kept : Entries.get? newKeys entry.1 = none ∨ Entries.get? newKeys entry.1 = some .null →
    output.1 = entry.1
  replaced : ∀ text value, entry.2 = .string text → Entries.get? newValues text = some value →
    output.2 = value
  unchanged : (∀ text, entry.2 = .string text → Entries.get? newValues text = none) →
    output.2 = entry.2

theorem replaced_renamedEntry (entry : String × Json) :
    Replaced newKeys newValues entry (renamedEntry newKeys newValues entry) where
  renamed name new := by
    rw [← newName?_eq_some_iff] at new
    rw [renamedEntry, new, Option.getD_some]
  kept none := by
    rw [renamedEntry, newName?]
    rcases none with none | null
    · rw [none]
      rfl
    · rw [null]
      rfl
  replaced text value is listed := by
    rw [renamedEntry, is, replacedValue, listed, Option.getD_some]
  unchanged unlisted := by
    obtain ⟨key, value⟩ := entry
    cases value with
    | string s => rw [renamedEntry, replacedValue, unlisted s rfl, Option.getD_none]
    | _ => rfl

/-! ## The call -/

/-- An argument that stands for a map: a map, or null for an empty one. -/
inductive IsMap : Json → Object → Prop where
  | object (entries : Object) : IsMap (.object entries) entries
  | null : IsMap .null []

theorem IsMap.mapOrNull_eq {value : Json} {entries : Object} (isMap : IsMap value entries) :
    mapOrNull value = .ok entries := by
  cases isMap <;> rfl

theorem mapReplace_eq {inputArg replacementsArg : Json} {replacements : Object}
    (isInput : IsMap inputArg input) (isReplacements : IsMap replacementsArg replacements)
    (fields : ∀ key ∈ Entries.keys replacements, key = "keys" ∨ key = "values")
    (areKeys : IsMap ((Entries.get? replacements "keys").getD .null) newKeys)
    (areValues : IsMap ((Entries.get? replacements "values").getD .null) newValues) :
    mapReplace (.list [inputArg, replacementsArg]) =
      (renameEntries newKeys newValues input [] input).map .object := by
  have known : ¬ ((Entries.keys replacements).any fun key => key != "keys" && key != "values") =
      true := by
    rw [List.any_eq_true]
    rintro ⟨key, member, other⟩
    rcases fields key member with rfl | rfl <;> exact absurd other (by decide)
  simp only [mapReplace, isInput.mapOrNull_eq, isReplacements.mapOrNull_eq,
    areKeys.mapOrNull_eq, areValues.mapOrNull_eq, known, bind, Except.bind, Bool.false_eq_true,
    if_false]

/-- A call that renames the keys of a map comes to something exactly if the names are unambiguous,
and fails over one of the new names otherwise.  What it comes to has every entry of the map, in the
same order, and no key twice. -/
theorem map_replace_keeps_entries (scope : Scope) (name : String) (args : Node)
    (input replacements newKeys newValues : Object) (inputArg replacementsArg : Json)
    (given : Node.Gives scope args (.list [inputArg, replacementsArg]))
    (isInput : IsMap inputArg input) (isReplacements : IsMap replacementsArg replacements)
    (fields : ∀ key ∈ Entries.keys replacements, key = "keys" ∨ key = "values")
    (areKeys : IsMap ((Entries.get? replacements "keys").getD .null) newKeys)
    (areValues : IsMap ((Entries.get? replacements "values").getD .null) newValues)
    (distinct : Entries.Distinct input) (texts : NamesTexts newKeys) :
    let answer := (Node.resolve scope (.call .mapReplace name args none)).value
    ((∃ value, answer = .ok value) ↔ Unambiguous newKeys input) ∧
      (∀ value, answer = .ok value → ∃ output, value = .object output ∧
        List.Forall₂ (Replaced newKeys newValues) input output ∧ Entries.Distinct output) ∧
      ∀ e, answer = .error e → ∃ key ∈ Entries.keys input, ∃ newName,
        Entries.get? newKeys key = some (.string newName) ∧
        (e = .invalid name (.inputKeyCollision newName) ∨
          e = .invalid name (.outputKeyCollision newName)) := by
  intro answer
  have called : answer = (Scope.immediate name
      ((renameEntries newKeys newValues input [] input).map .object)).map Prod.fst := by
    rw [← mapReplace_eq isInput isReplacements fields areKeys areValues]
    exact Node.value_call scope .mapReplace name args [args] _ rfl (.cons given .nil)
      fun _ _ _ => rfl
  have run := renameEntries_input_ok_iff newValues texts distinct
  cases renamed : renameEntries newKeys newValues input [] input with
  | ok output =>
    rw [renamed] at called
    obtain ⟨unambiguous, rfl⟩ := (run output).mp renamed
    refine ⟨⟨fun _ => unambiguous, fun _ => ⟨_, called⟩⟩, fun value same => ?_, fun e failed => ?_⟩
    · cases called.symm.trans same
      refine ⟨_, rfl, ?_, ((unambiguous_iff newValues distinct).mp unambiguous).2⟩
      rw [List.forall₂_map_right_iff, List.forall₂_same]
      exact fun entry _ => replaced_renamedEntry entry
    · cases called.symm.trans failed
  | error fault =>
    rw [renamed] at called
    refine ⟨⟨?_, fun unambiguous => ?_⟩, fun value same => ?_, fun e failed => ?_⟩
    · rintro ⟨value, same⟩
      cases called.symm.trans same
    · cases renamed.symm.trans ((run _).mpr ⟨unambiguous, rfl⟩)
    · cases called.symm.trans same
    · cases called.symm.trans failed
      obtain ⟨key, member, newName, new, collides⟩ :=
        renameEntries_error texts [] input fault renamed
      refine ⟨key, member, newName, (newName?_eq_some_iff ..).mp new, ?_⟩
      exact collides.imp (congrArg _) (congrArg _)

def sizes : Object :=
  [("small", .string "one"), ("large", .string "four"), ("default", .string "one")]

def sizeKeys : Object :=
  [("small", .string "m1.small"), ("large", .null)]

def sizeValues : Object :=
  [("one", .ofInt 1)]

def renameSizes : Node :=
  .literal (.list [.object sizes,
    .object [("keys", .object sizeKeys), ("values", .object sizeValues)]])

theorem map_replace_keeps_entries_sizes :
    (Node.resolve ⟨[], ⟨[], [], [], none⟩⟩
        (.call .mapReplace "map_replace" renameSizes none)).value =
      .ok (.object [("m1.small", .ofInt 1), ("large", .string "four"), ("default", .ofInt 1)]) ∧
    List.Forall₂ (Replaced sizeKeys sizeValues) sizes
      [("m1.small", .ofInt 1), ("large", .string "four"), ("default", .ofInt 1)] := by
  have value : (Node.resolve ⟨[], ⟨[], [], [], none⟩⟩
      (.call .mapReplace "map_replace" renameSizes none)).value =
      .ok (.object [("m1.small", .ofInt 1), ("large", .string "four"),
        ("default", .ofInt 1)]) := rfl
  have texts : NamesTexts sizeKeys := by
    intro key value found
    have listed := Entries.mem_of_get? _ key value found
    simp only [sizeKeys, List.mem_cons, Prod.mk.injEq, List.not_mem_nil, or_false] at listed
    rcases listed with ⟨-, rfl⟩ | ⟨-, rfl⟩
    · exact .inr ⟨_, rfl⟩
    · exact .inl rfl
  have given : Node.Gives ⟨[], ⟨[], [], [], none⟩⟩ renameSizes (.list [.object sizes,
      .object [("keys", .object sizeKeys), ("values", .object sizeValues)]]) := rfl
  obtain ⟨output, same, kept, -⟩ := (map_replace_keeps_entries ⟨[], ⟨[], [], [], none⟩⟩
    "map_replace" renameSizes sizes [("keys", .object sizeKeys), ("values", .object sizeValues)]
    sizeKeys sizeValues _ _ given (.object sizes) (.object _) (by decide) (.object sizeKeys)
    (.object sizeValues) (by unfold Entries.Distinct; decide) texts).2.1 _ value
  cases same
  exact ⟨value, kept⟩

end Orchestration.Functions
