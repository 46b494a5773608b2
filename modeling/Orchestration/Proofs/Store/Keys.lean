import Orchestration.Proofs.Store.Survival

/-!
# Record keys and their files

The files of an accepted key are entries of the directories for them, under names that are legal
there, and no file of another key and none of the store's own files is the same.  Only the file of
data points can have a name that is too long: the limit is that of the key, and the name is longer.
Such a rule is stored, but no data points can be appended to it or listed.
-/

set_option autoImplicit false

namespace Orchestration

open Watch

/-! ## Names -/

/-- A name that stands for one entry of a directory that is not hidden, on a file system where names
have up to 255 bytes. -/
structure IsComponent (name : String) : Prop where
  filled : 1 ≤ name.utf8ByteSize
  short : name.utf8ByteSize ≤ 255
  single : '/' ∉ name.toList
  noNul : '\x00' ∉ name.toList
  shown : name.toList.head? ≠ some '.'
  notAbove : name ≠ "." ∧ name ≠ ".."

theorem IsComponent.of_shown {name : String} (filled : name ≠ "") (short : name.utf8ByteSize ≤ 255)
    (shown : name.toList.head? ≠ some '.') (plain : ∀ c ∈ name.toList, c ≠ '/' ∧ c ≠ '\x00') :
    IsComponent name := by
  refine ⟨?_, short, fun member => (plain _ member).1 rfl, fun member => (plain _ member).2 rfl,
    shown, ?_, ?_⟩
  · rw [Nat.one_le_iff_ne_zero]
    exact fun none => filled (String.utf8ByteSize_eq_zero_iff.mp none)
  · rintro rfl
    exact shown rfl
  · rintro rfl
    exact shown rfl

theorem size_data (key : String) : (key ++ ".jsonl").utf8ByteSize = key.utf8ByteSize + 6 :=
  String.utf8ByteSize_append ..

section Key

variable {key : String} (accepted : keyFault? key = none)

include accepted

theorem component_of_key : IsComponent key := by
  obtain ⟨filled, short, shown, plain⟩ := (keyFault?_eq_none_iff key).mp accepted
  exact .of_shown filled short shown fun c member => ⟨(plain c member).1, (plain c member).2.2⟩

theorem shown_data : (key ++ ".jsonl").toList.head? ≠ some '.' := by
  obtain ⟨filled, -, shown, -⟩ := (keyFault?_eq_none_iff key).mp accepted
  obtain ⟨c, rest, chars⟩ := List.exists_cons_of_ne_nil fun none =>
    filled (String.toList_eq_nil_iff.mp none)
  simpa [chars] using shown

theorem component_data_iff : IsComponent (key ++ ".jsonl") ↔ key.utf8ByteSize ≤ 249 := by
  obtain ⟨-, -, -, plain⟩ := (keyFault?_eq_none_iff key).mp accepted
  constructor
  · intro component
    have fits := component.short
    rw [size_data] at fits
    omega
  · intro fits
    refine .of_shown ?_ ?_ (shown_data accepted) fun other member => ?_
    · intro empty
      have none := size_data key
      rw [empty] at none
      cases none
    · rw [size_data]
      omega
    · rw [String.toList_append, List.mem_append] at member
      rcases member with inside | ending
      · exact ⟨(plain other inside).1, (plain other inside).2.2⟩
      · constructor <;> rintro rfl <;> simp at ending

end Key

/-! ## Paths -/

namespace Layout

/-- The files that a key may have: its lock record, its rule and the data points of the rule. -/
def filesOf (key : String) : List (List String) :=
  [lockRecord key, watchRule key, watchPoints key]

def temporary (directory : List String) (random : String) : List String :=
  directory ++ [".tmp" ++ random]

theorem filesOf_apart {key other : String} (different : key ≠ other) :
    ∀ file ∈ filesOf key, ∀ file' ∈ filesOf other, Apart file file' := by
  have locked (rest more : List String) : Apart ("locks" :: rest) ("watch" :: more) :=
    apart_beginnings (by decide) rest more
  have data (rest more : List String) := FileStore.apart_data rest more
  have ending : key ++ ".jsonl" ≠ other ++ ".jsonl" := fun same =>
    different ((String.append_left_inj ".jsonl").mp same)
  simp only [filesOf, List.forall_mem_cons, List.not_mem_nil, false_implies, implies_true, and_true]
  exact ⟨⟨apart_siblings locks key other different.symm, locked .., locked ..⟩,
    ⟨(locked ..).symm, apart_siblings watchRules key other different.symm, data ..⟩,
    (locked ..).symm, (data ..).symm, apart_siblings watchData _ _ ending.symm⟩

theorem filesOf_shown {key : String} (accepted : keyFault? key = none) :
    ∀ file ∈ filesOf key, ∃ directory name, file = directory ++ [name] ∧
      name.toList.head? ≠ some '.' := by
  have shown := (component_of_key accepted).shown
  simp only [filesOf, List.forall_mem_cons, List.not_mem_nil, false_implies, implies_true, and_true]
  exact ⟨⟨locks, key, rfl, shown⟩, ⟨watchRules, key, rfl, shown⟩, watchData, _, rfl,
    shown_data accepted⟩

end Layout

/-- The files of a key are entries of their directories under names that are legal there, if the
ending of one does not make it too long.  They are no files of another key and none of the store. -/
structure Confined (key : String) : Prop where
  lock : ∃ name, Layout.lockRecord key = Layout.locks ++ [name] ∧ IsComponent name
  rule : ∃ name, Layout.watchRule key = Layout.watchRules ++ [name] ∧ IsComponent name
  data : ∃ name, Layout.watchPoints key = Layout.watchData ++ [name] ∧
    (IsComponent name ↔ key.utf8ByteSize ≤ 249)
  others : ∀ other, key ≠ other → ∀ file ∈ Layout.filesOf key, ∀ file' ∈ Layout.filesOf other,
    Apart file file'
  reserved : ∀ file ∈ Layout.filesOf key, file ≠ Layout.lockFile ∧ file ≠ Layout.versionFile ∧
    ∀ directory random, file ≠ Layout.temporary directory random

theorem confined_of_key {key : String} (accepted : keyFault? key = none) : Confined key where
  lock := ⟨key, rfl, component_of_key accepted⟩
  rule := ⟨key, rfl, component_of_key accepted⟩
  data := ⟨_, rfl, component_data_iff accepted⟩
  others _ different := Layout.filesOf_apart different
  reserved := by
    intro file member
    refine ⟨?_, ?_, fun directory random same => ?_⟩
    · rintro rfl
      simp [Layout.filesOf, Layout.lockFile, Layout.lockRecord, Layout.locks, Layout.watchRule,
        Layout.watchRules, Layout.watchPoints, Layout.watchData] at member
    · rintro rfl
      simp [Layout.filesOf, Layout.versionFile, Layout.lockRecord, Layout.locks, Layout.watchRule,
        Layout.watchRules, Layout.watchPoints, Layout.watchData] at member
    · obtain ⟨_, name, rfl, shown⟩ := Layout.filesOf_shown accepted file member
      obtain ⟨-, last⟩ := List.append_inj' same rfl
      rw [List.singleton_inj.mp last, String.toList_append] at shown
      exact shown rfl

/-! ## Rules with long names -/

namespace Files

variable {files : Files} {above : List String} {name : String}
  {change : Option FileTree → Except FileError (Option FileTree)}

theorem look_refused {entries : Entries FileTree}
    (there : files.look above = .ok (.directory entries))
    (invalid : FileTree.isFileName name = false) :
    files.look (above ++ [name]) = .error .refused := by
  match files with
  | none => cases there
  | some tree =>
    change tree.look above = _ at there
    change tree.look (above ++ [name]) = _
    rw [tree.look_append _ above [name] there, FileTree.look, invalid]
    rfl

theorem update_refused (files : Files) (above : List String)
    (invalid : FileTree.isFileName name = false) :
    ∃ e, files.update (above ++ [name]) change = (.error e, files) := by
  cases answer : (files.update (above ++ [name]) change).1 with
  | error e => exact ⟨e, Prod.ext answer (update_error answer)⟩
  | ok _ =>
    obtain ⟨-, -, -, valid, -⟩ := look_parent_update answer
    rw [invalid] at valid
    cases valid

end Files

theorem isFileName_long {name : String} (long : 255 < name.utf8ByteSize) :
    FileTree.isFileName name = false := by
  rw [FileTree.isFileName, decide_eq_false (by omega), Bool.false_and]

namespace FileStore

theorem perform_rejected {α : Type} (store : FileStore) {key : String} {fault : KeyFault}
    (rejected : keyFault? key = some fault) (next : FileOp α) :
    perform (do answer (validateKey key); next) store =
      (.error (.invalidKey (fault.message key)), store) := by
  rw [validateKey, rejected]
  rfl

namespace Holds

section Long

variable {store : FileStore} {rules : Rules} (holds : Holds store.files rules) {name : String}
  (accepted : keyFault? name = none) (long : 255 < (name ++ ".jsonl").utf8ByteSize)

include holds accepted long

theorem appendData_long (point : Point) (rule : Record × List Point)
    (found : rules name = some rule) :
    ∃ after, perform (FileStore.appendData name point) store = (.error .io, after) ∧
      Holds after.files rules := by
  have locked := holds.guard
  have present := locked.present_record name (isFileName_of_key accepted)
  rw [found, Option.isSome_some] at present
  obtain ⟨entries, there, -, -⟩ := locked.data
  have made := Files.makeDirectories_there there
  obtain ⟨e, refused⟩ := (perform Layout.guard store).2.files.update_refused Layout.watchData
    (isFileName_long long)
  rw [FileStore.appendData, perform_validated _ accepted, holds.unlocked.perform_guarded,
    perform_get, present, if_pos rfl, perform_changed _ (by rw [made]), made, perform_change]
  refine ⟨_, Prod.ext ?_ rfl, ?_⟩
  · exact congrArg (Except.mapError _) (congrArg Prod.fst refused)
  · exact (congrArg Prod.snd refused).symm ▸ locked

theorem listData_long (rule : Record × List Point) (found : rules name = some rule) :
    listData name store.files = .error .io := by
  have present := holds.present_record name (isFileName_of_key accepted)
  rw [found, Option.isSome_some] at present
  obtain ⟨entries, there, -, -⟩ := holds.data
  have refused := Files.look_refused there (isFileName_long long)
  rw [listData, validateKey_ok accepted]
  simp only [bind, Except.bind, present, if_true, readFile?, Files.read, Layout.watchPoints,
    refused]

theorem deleteRule_long (empty : rules.points name = []) :
    ∃ after, perform (FileStore.deleteRule name) store = (.ok (rules name).isSome, after) ∧
      Holds after.files (rules.change name none) := by
  have locked := holds.guard
  obtain ⟨entries, there, -, -⟩ := locked.data
  have absent : (perform Layout.guard store).2.files.present (Layout.watchPoints name) = false := by
    rw [Files.present, Layout.watchPoints, Files.look_refused there (isFileName_long long)]
  rw [FileStore.deleteRule, perform_validated _ accepted, holds.unlocked.perform_guarded,
    perform_get, absent]
  exact locked.removeRecord name (isFileName_of_key accepted) empty

end Long

end Holds

/-- The store holds rules, of which only those have data points whose file for them can be there. -/
structure Keeps (files : Files) (rules : Rules) : Prop where
  holds : Holds files rules
  short : ∀ name, rules.points name ≠ [] → (name ++ ".jsonl").utf8ByteSize ≤ 255

namespace Keeps

section Steps

variable {store : FileStore} {rules : Rules} (keeps : Keeps store.files rules)

include keeps

theorem change {after : Files} (name : String) (rule : Option (Record × List Point))
    (holds : Holds after (rules.change name rule))
    (fits : (rule.map Prod.snd).getD [] ≠ [] → (name ++ ".jsonl").utf8ByteSize ≤ 255) :
    Keeps after (rules.change name rule) := by
  refine ⟨holds, fun other points => ?_⟩
  rw [Rules.points, Rules.change] at points
  split at points
  · rename_i same
    exact same ▸ fits points
  · exact keeps.short other points

theorem putRule (record : Record) :
    ∃ rules', Keeps (perform (FileStore.putRule record) store).2.files rules' := by
  cases checked : keyFault? record.name with
  | some fault =>
    rw [FileStore.putRule, perform_rejected store checked]
    exact ⟨rules, keeps⟩
  | none =>
    obtain ⟨after, answered, holds⟩ := keeps.holds.putRule record checked
    rw [answered]
    exact ⟨_, keeps.change record.name _ holds (keeps.short record.name)⟩

theorem deleteRule (name : String) :
    ∃ rules', Keeps (perform (FileStore.deleteRule name) store).2.files rules' := by
  cases checked : keyFault? name with
  | some fault =>
    rw [FileStore.deleteRule, perform_rejected store checked]
    exact ⟨rules, keeps⟩
  | none =>
    by_cases fits : (name ++ ".jsonl").utf8ByteSize ≤ 255
    · obtain ⟨after, answered, holds⟩ := keeps.holds.deleteRule name ⟨checked, fits⟩
      rw [answered]
      exact ⟨_, keeps.change name none holds fun _ => fits⟩
    · have empty : rules.points name = [] := by
        by_contra points
        exact fits (keeps.short name points)
      obtain ⟨after, answered, holds⟩ :=
        keeps.holds.deleteRule_long checked (Nat.lt_of_not_le fits) empty
      rw [answered]
      exact ⟨_, keeps.change name none holds fun some => absurd rfl some⟩

theorem appendData (name : String) (point : Point) :
    ∃ rules', Keeps (perform (FileStore.appendData name point) store).2.files rules' := by
  cases checked : keyFault? name with
  | some fault =>
    rw [FileStore.appendData, perform_rejected store checked]
    exact ⟨rules, keeps⟩
  | none =>
    cases found : rules name with
    | none =>
      obtain ⟨after, answered, holds⟩ := keeps.holds.appendData_missing name point checked found
      rw [answered]
      exact ⟨rules, holds, keeps.short⟩
    | some rule =>
      by_cases fits : (name ++ ".jsonl").utf8ByteSize ≤ 255
      · obtain ⟨after, answered, holds⟩ :=
          keeps.holds.appendData_stored name point ⟨checked, fits⟩ rule found
        rw [answered]
        exact ⟨_, keeps.change name _ holds fun _ => fits⟩
      · obtain ⟨after, answered, holds⟩ :=
          keeps.holds.appendData_long checked (Nat.lt_of_not_le fits) point rule found
        rw [answered]
        exact ⟨rules, holds, keeps.short⟩

theorem perform (request : WatchRequest) :
    ∃ rules', Keeps (request.perform store).2.files rules' := by
  cases request with
  | putRule record => exact keeps.putRule record
  | deleteRule name => exact keeps.deleteRule name
  | appendData name point => exact keeps.appendData name point
  | _ => exact ⟨rules, keeps⟩

end Steps

theorem serve {store : FileStore} {rules : Rules} (keeps : Keeps store.files rules)
    (history : List WatchRequest) :
    ∃ rules', Keeps (WatchRequest.serve store history).2.files rules' := by
  induction history generalizing store rules with
  | nil => exact ⟨rules, keeps⟩
  | cons request later ih =>
    obtain ⟨rules', next⟩ := keeps.perform request
    exact ih next

theorem prepare (start : Instant) :
    Keeps (FileStore.perform Layout.prepare (fresh start)).2.files fun _ => none := by
  refine ⟨(WatchRequest.sameWatches_prepare start).holds, fun name points => ?_⟩
  exact absurd rfl points

end Keeps

theorem Holds.append_then_list {store : FileStore} {rules : Rules} (holds : Holds store.files rules)
    {name : String} (nameable : WatchRequest.Nameable name) (rule : Record × List Point)
    (found : rules name = some rule) (point : Point) :
    ∃ after listed, perform (appendData name point) store = (.ok (), after) ∧
      listData name after.files = .ok listed ∧
      (point.samples.PrintBack → point.samples.isFinite = true → point ∈ listed) := by
  obtain ⟨after, appended, holds'⟩ := holds.appendData_stored name point nameable rule found
  obtain ⟨valid, present, -⟩ := appendData_ok appended
  have listed := listData_of_lists (holds'.lists_lines name nameable) valid present
  refine ⟨after, _, appended, listed, fun print finite => ?_⟩
  have lists := appendData_lists (holds.lists_lines name nameable) print appended
  rw [finite, if_pos rfl] at lists
  rw [listData_of_lists lists valid present] at listed
  rw [← Except.ok.inj listed]
  exact (List.mergeSort_perm ..).mem_iff.mpr (List.mem_append_right _ (List.mem_singleton_self _))

theorem Holds.put_then_append {store : FileStore} {rules : Rules} (holds : Holds store.files rules)
    (record : Record) (accepted : keyFault? record.name = none) (point : Point) :
    let put := perform (FileStore.putRule record) store
    let appended := perform (appendData record.name point) put.2
    put.1 = .ok () ∧
      (record.name.utf8ByteSize ≤ 249 → appended.1 = .ok () ∧
        ∃ listed, listData record.name appended.2.files = .ok listed ∧
          (point.samples.PrintBack → point.samples.isFinite = true → point ∈ listed)) ∧
      (249 < record.name.utf8ByteSize → appended.1 = .error .io ∧
        listData record.name put.2.files = .error .io) := by
  obtain ⟨stored, answered, holds'⟩ := holds.putRule record accepted
  have found : rules.change record.name (some (record, rules.points record.name)) record.name =
      some (record, rules.points record.name) := if_pos rfl
  have size := size_data record.name
  simp only [answered, true_and]
  constructor
  · intro fits
    obtain ⟨after, listed, appended, points, among⟩ :=
      holds'.append_then_list ⟨accepted, by omega⟩ _ found point
    rw [appended]
    exact ⟨rfl, listed, points, among⟩
  · intro long
    obtain ⟨after, failed, -⟩ := holds'.appendData_long accepted (by omega) point _ found
    rw [failed]
    exact ⟨rfl, holds'.listData_long accepted (by omega) _ found⟩

end FileStore

open FileStore (perform fresh)

/-- An accepted key names files of its own, and its rule can be stored whatever was asked before.
Data points can be appended to it and are listed if the key has up to 249 bytes; with a longer one
this always fails. -/
theorem accepted_key_usable (key : String) (accepted : validateKey key = .ok ()) :
    Confined key ∧
      ∀ (start : Instant) (history : List WatchRequest) (record : Record) (point : Point),
        record.name = key →
        let prepared := (perform Layout.prepare (fresh start)).2
        let put := WatchStore.putRule record (WatchRequest.serve prepared history).2
        let appended := WatchStore.appendData key point put.2
        put.1 = .ok () ∧
          (key.utf8ByteSize ≤ 249 → appended.1 = .ok () ∧
            ∃ listed, WatchStore.listData key appended.2 = .ok listed ∧
              (point.samples.PrintBack → point.samples.isFinite = true → point ∈ listed)) ∧
          (249 < key.utf8ByteSize → appended.1 = .error .io ∧
            WatchStore.listData key put.2 = .error .io) := by
  have accepted := accepted_of_validateKey accepted
  refine ⟨confined_of_key accepted, ?_⟩
  rintro start history record point rfl
  obtain ⟨rules, keeps⟩ := (FileStore.Keeps.prepare start).serve history
  exact keeps.holds.put_then_append record accepted point

@[irreducible]
def longKey (n : Nat) : String :=
  String.ofList (List.replicate n 'k')

theorem size_longKey (n : Nat) : (longKey n).utf8ByteSize = n := by
  induction n with
  | zero =>
    rw [longKey]
    rfl
  | succ n ih =>
    have letter : (String.ofList ['k']).utf8ByteSize = 1 := rfl
    rw [longKey, List.replicate_succ', String.ofList_append, String.utf8ByteSize_append, letter,
      ← longKey, ih]

theorem accepted_longKey {n : Nat} (filled : 0 < n) (short : n ≤ 255) :
    validateKey (longKey n) = .ok () := by
  have size := size_longKey n
  have letters : ∀ c ∈ (longKey n).toList, c = 'k' := by
    rw [longKey, String.toList_ofList]
    exact fun c => List.eq_of_mem_replicate
  refine validateKey_ok ((keyFault?_eq_none_iff _).mpr ⟨?_, by omega, ?_, fun c member => ?_⟩)
  · intro empty
    have none : ("" : String).utf8ByteSize = 0 := rfl
    rw [empty, none] at size
    omega
  · intro hidden
    exact absurd (letters '.' (List.mem_of_head? hidden)) (by decide)
  · rw [letters c member]
    decide

def renamedIdle (name : String) : Record :=
  { WatchRequest.idleRecord with name := name }

def putRenamed (name : String) : Except StoreError Unit × FileStore :=
  WatchStore.putRule (renamedIdle name) (WatchRequest.serve
    (perform Layout.prepare (fresh .epoch)).2 [.putRule WatchRequest.idleRecord]).2

/-- A key of 249 bytes can be used for everything, and one of 250 bytes for its rule only. -/
theorem longest_keys_usable :
    validateKey (longKey 249) = .ok () ∧ validateKey (longKey 250) = .ok () ∧
      Confined (longKey 249) ∧ Confined (longKey 250) ∧
      (putRenamed (longKey 249)).1 = .ok () ∧
      (WatchStore.appendData (longKey 249) WatchRequest.minute (putRenamed (longKey 249)).2).1 =
        .ok () ∧
      (putRenamed (longKey 250)).1 = .ok () ∧
      (WatchStore.appendData (longKey 250) WatchRequest.minute (putRenamed (longKey 250)).2).1 =
        .error .io ∧
      WatchStore.listData (longKey 250) (putRenamed (longKey 250)).2 = .error .io := by
  have accepted : validateKey (longKey 249) = .ok () := accepted_longKey (by decide) (by decide)
  have acceptedLonger : validateKey (longKey 250) = .ok () :=
    accepted_longKey (by decide) (by decide)
  obtain ⟨confined, works⟩ := accepted_key_usable (longKey 249) accepted
  obtain ⟨confinedLonger, worksLonger⟩ := accepted_key_usable (longKey 250) acceptedLonger
  obtain ⟨answered, fits, -⟩ := works .epoch [.putRule WatchRequest.idleRecord]
    (renamedIdle (longKey 249)) WatchRequest.minute rfl
  obtain ⟨answeredLonger, -, fails⟩ := worksLonger .epoch [.putRule WatchRequest.idleRecord]
    (renamedIdle (longKey 250)) WatchRequest.minute rfl
  obtain ⟨appended, -⟩ := fits (size_longKey 249).le
  obtain ⟨failed, unlisted⟩ := fails (by rw [size_longKey]; decide)
  exact ⟨accepted, acceptedLonger, confined, confinedLonger, answered, appended, answeredLonger,
    failed, unlisted⟩

end Orchestration
