import Orchestration.Proofs.Json.Lines
import Orchestration.Proofs.Store.Operations
import Orchestration.Proofs.Watch.Requests
import Orchestration.Store.FileWatches

/-!
# Watch rules in files

A prepared store keeps one readable file for each rule and one more for its data points, if it has
any, whatever is asked of it.  In this state each operation does to the files what the same
operation does to the rules in memory.
-/

set_option autoImplicit false

namespace Orchestration

open Watch

namespace FileStore

/-! ## Reading the files -/

theorem recordOfText_sealed (layout : Json.Layout) (record : Record)
    (back : record.spec.threshold.ReadsBack) (kept : record.spec.KeepsPeriods) :
    recordOfText (Json.write layout 0 record.sealed.toJson) = .ok record.sealed := by
  have read := Record.ofText?_write layout record.sealed back kept
  have checked : verify record.sealed = .ok () := if_pos rfl
  rw [recordOfText, read]
  simp only [checked, Except.map]

def linesOf (points : List Point) : String :=
  String.ofList (points.flatMap fun point => point.text.toList ++ ['\n'])

theorem linesOf_concat (points : List Point) (point : Point) :
    linesOf (points ++ [point]) = linesOf points ++ (point.text ++ "\n") := by
  apply String.toList_inj.mp
  simp [linesOf]

theorem not_allBlank_text (point : Point) : Text.allBlank point.text.toList = false := by
  have opening : '\x7b' ∈ point.text.toList := by
    simp [Point.text, Json.compact, Point.toJson, Json.write]
  have visible : Text.isBlank '\x7b' = false := rfl
  cases blank : Text.allBlank point.text.toList with
  | false => rfl
  | true =>
    have all := List.all_eq_true.mp blank _ opening
    rw [visible] at all
    cases all

theorem pointsOfText_linesOf (points : List Point) (storable : ∀ point ∈ points, point.Storable) :
    pointsOfText (linesOf points) = points := by
  have lines : (linesOf points).toList =
      (points.map fun point => point.text.toList).flatMap fun line => line ++ ['\n'] := by
    rw [linesOf, String.toList_ofList, List.flatMap_map]
  have noBreak : ∀ line ∈ points.map fun point => point.text.toList, '\n' ∉ line := by
    intro line member
    obtain ⟨point, -, rfl⟩ := List.mem_map.mp member
    exact point.toJson.newline_not_mem_compact
  rw [pointsOfText, lines, Text.pieces_lines _ noBreak, List.filterMap_append]
  have blank : Text.allBlank [] = true := rfl
  simp only [List.filterMap_cons, blank, if_true, List.filterMap_nil, List.append_nil]
  clear lines noBreak
  induction points with
  | nil => rfl
  | cons point points ih =>
    have more := ih fun other member => storable other (List.mem_cons_of_mem _ member)
    have first := point.ofText_text (storable point (List.mem_cons_self ..))
    simp only [List.map_cons, List.filterMap_cons, not_allBlank_text point, Bool.false_eq_true,
      if_false, String.ofList_toList, first, more]

/-! ## Files that hold rules -/

/-- What is stored under each name: a record and its data points in the order of appending. -/
abbrev Rules : Type := String → Option (Record × List Point)

namespace Rules

variable (rules : Rules) (name : String)

def points : List Point :=
  ((rules name).map Prod.snd).getD []

def change (rule : Option (Record × List Point)) : Rules :=
  fun other => if name = other then rule else rules other

theorem change_change (first second : Option (Record × List Point)) :
    (rules.change name first).change name second = rules.change name second := by
  funext other
  simp only [change]
  split <;> rfl

theorem change_self (rule : Option (Record × List Point)) (same : rules name = rule) :
    rules.change name rule = rules := by
  funext other
  rw [change]
  split
  · rename_i here
    rw [← here, same]
  · rfl

theorem get?_insert (entries : Entries (Record × List Point)) (name : String)
    (rule : Record × List Point) : Entries.get? (Entries.insert entries name rule) =
      change (Entries.get? entries) name (some rule) :=
  funext fun _ => Entries.get?_insert ..

theorem get?_remove (entries : Entries (Record × List Point)) (distinct : Entries.Distinct entries)
    (name : String) : Entries.get? (Entries.remove entries name) =
      change (Entries.get? entries) name none :=
  funext fun other => Entries.get?_remove entries distinct name other

end Rules

def ruleFile (rule : Record × List Point) : FileTree :=
  .file (some rule.1.sealed.text)

def lines? (points : List Point) : Option String :=
  if points = [] then none else some (linesOf points)

/-- Each rule has its file and, if it has data points, a file with them.  There are no others. -/
structure Holds (files : Files) (rules : Rules) : Prop where
  unlocked : Unlocked files
  records : ∃ entries, files.look Layout.watchRules = .ok (.directory entries) ∧
    Entries.Distinct entries ∧ ∀ name, Entries.get? entries name = (rules name).map ruleFile
  data : ∃ entries, files.look Layout.watchData = .ok (.directory entries) ∧
    Entries.Distinct entries ∧ ∀ name, Entries.get? entries (name ++ ".jsonl") =
      (lines? (rules.points name)).map fun text => .file (some text)

theorem apart_lockFile (below : List String) : Apart ("watch" :: below) Layout.lockFile :=
  apart_beginnings (by decide) below []

theorem apart_data (rest more : List String) :
    Apart ("watch" :: "rules" :: rest) ("watch" :: "data" :: more) :=
  (apart_beginnings (by decide) rest more).cons "watch"

theorem isFileName_data {name : String} (nameable : WatchRequest.Nameable name) :
    FileTree.isFileName (name ++ ".jsonl") = true := by
  obtain ⟨accepted, short⟩ := nameable
  have plain := isFileName_of_key accepted
  simp only [FileTree.isFileName, Bool.and_eq_true, decide_eq_true_eq] at plain ⊢
  refine ⟨short, ?_⟩
  rw [String.toList_append, List.all_append, plain.2]
  rfl

namespace Holds

theorem guard {store : FileStore} {rules : Rules} (holds : Holds store.files rules) :
    Holds (perform Layout.guard store).2.files rules := by
  obtain ⟨unlocked, records, data⟩ := holds
  refine ⟨unlocked.guard.2, ?_, ?_⟩
  · rwa [look_guard store Layout.watchRules (by decide) (by decide)]
  · rwa [look_guard store Layout.watchData (by decide) (by decide)]

section Change

variable {files : Files} {rules : Rules} {entries : Entries FileTree} {name : String}
  {change : Option FileTree → Except FileError (Option FileTree)} (holds : Holds files rules)

include holds

theorem changeRecord (rule : Option (Record × List Point)) (distinct : Entries.Distinct entries)
    (before : ∀ name, Entries.get? entries name = (rules name).map ruleFile)
    (after : (files.update (Layout.watchRule name) change).2.look Layout.watchRules =
      .ok (.directory (Entries.alter entries name (rule.map ruleFile))))
    (kept : (rule.map Prod.snd).getD [] = rules.points name) :
    Holds (files.update (Layout.watchRule name) change).2 (rules.change name rule) := by
  obtain ⟨unlocked, -, lines, there, distinctLines, each⟩ := holds
  have apart : Apart (Layout.watchRule name) Layout.watchData := apart_data [name] []
  refine ⟨unlocked.update (apart_lockFile ["rules", name]) change,
    ⟨_, after, Entries.distinct_alter entries distinct name _, fun other => ?_⟩,
    ⟨lines, ?_, distinctLines, fun other => ?_⟩⟩
  · rw [Rules.change]
    by_cases same : name = other
    · subst same
      rw [if_pos rfl, Entries.get?_alter_self entries distinct]
    · rw [if_neg same, Entries.get?_alter_of_ne _ _ _ _ (Ne.symm same), before other]
  · rw [files.look_update_of_apart apart, there]
  · have points : (rules.change name rule).points other = rules.points other := by
      rw [Rules.points, Rules.change]
      split
      · rename_i same
        rw [kept, same]
      · rfl
    rw [points, each other]

theorem changeData (rule : Record × List Point) (stored : rules name = some rule)
    (points : List Point) (distinct : Entries.Distinct entries)
    (before : ∀ name, Entries.get? entries (name ++ ".jsonl") =
      (lines? (rules.points name)).map fun text => .file (some text))
    (after : (files.update (Layout.watchPoints name) change).2.look Layout.watchData =
      .ok (.directory (Entries.alter entries (name ++ ".jsonl")
        ((lines? points).map fun text => .file (some text))))) :
    Holds (files.update (Layout.watchPoints name) change).2
      (rules.change name (some (rule.1, points))) := by
  obtain ⟨unlocked, ⟨listed, there, distinctRecords, each⟩, -⟩ := holds
  have apart : Apart (Layout.watchPoints name) Layout.watchRules :=
    (apart_data [] [name ++ ".jsonl"]).symm
  refine ⟨unlocked.update (apart_lockFile ["data", name ++ ".jsonl"]) change,
    ⟨listed, ?_, distinctRecords, fun other => ?_⟩,
    ⟨_, after, Entries.distinct_alter entries distinct _ _, fun other => ?_⟩⟩
  · rw [files.look_update_of_apart apart, there]
  · rw [each other, Rules.change]
    split
    · rename_i same
      rw [← same, stored]
      rfl
    · rfl
  · rw [Rules.points, Rules.change]
    by_cases same : name = other
    · subst same
      rw [if_pos rfl, Entries.get?_alter_self entries distinct]
      rfl
    · have different : other ++ ".jsonl" ≠ name ++ ".jsonl" := fun equal =>
        same ((String.append_left_inj ".jsonl").mp equal).symm
      rw [if_neg same, Entries.get?_alter_of_ne _ _ _ _ different, before other, Rules.points]

end Change

theorem present_record {files : Files} {rules : Rules} (holds : Holds files rules) (name : String)
    (valid : FileTree.isFileName name = true) :
    files.present (Layout.watchRule name) = (rules name).isSome := by
  obtain ⟨entries, there, -, each⟩ := holds.records
  rw [Layout.watchRule, Files.present_directory there name valid, each, Option.isSome_map]

section Operations

variable {store : FileStore} {rules : Rules} (holds : Holds store.files rules)

include holds

theorem putRule (record : Record) (accepted : keyFault? record.name = none) :
    ∃ after, perform (FileStore.putRule record) store = (.ok (), after) ∧ Holds after.files
      (rules.change record.name (some (record, rules.points record.name))) := by
  obtain ⟨there, directory, -, -⟩ := holds.records
  have locked := holds.guard
  obtain ⟨entries, there', distinct, each⟩ := locked.records
  have free : ∀ below, Entries.get? entries record.name ≠ some (.directory below) := by
    intro below found
    rw [each] at found
    obtain ⟨rule, -, file⟩ := Option.map_eq_some_iff.mp found
    cases file
  obtain ⟨written, after⟩ := Files.write_there there' (isFileName_of_key accepted) free
    (some record.sealed.text)
  have made : (store.files.makeDirectories Layout.watchRules) = (.ok (), store.files) :=
    Files.makeDirectories_there directory
  rw [FileStore.putRule, perform_validated _ accepted, perform_changed _ (by rw [made]), made,
    holds.unlocked.perform_guarded, perform_change]
  exact ⟨_, Prod.ext (congrArg (Except.mapError _) written) rfl,
    locked.changeRecord (some (record, rules.points record.name)) distinct each after rfl⟩

theorem appendData_missing (name : String) (point : Point) (accepted : keyFault? name = none)
    (missing : rules name = none) :
    ∃ after, perform (FileStore.appendData name point) store =
      (.error (.watchNotFound name), after) ∧ Holds after.files rules := by
  have locked := holds.guard
  have absent := locked.present_record name (isFileName_of_key accepted)
  rw [missing] at absent
  rw [FileStore.appendData, perform_validated _ accepted, holds.unlocked.perform_guarded, perform_get,
    absent]
  exact ⟨_, rfl, locked⟩

theorem appendData_stored (name : String) (point : Point) (nameable : WatchRequest.Nameable name)
    (rule : Record × List Point) (found : rules name = some rule) :
    ∃ after, perform (FileStore.appendData name point) store = (.ok (), after) ∧
      Holds after.files (rules.change name (some (rule.1, rule.2 ++ [point]))) := by
  have locked := holds.guard
  have present := locked.present_record name (isFileName_of_key nameable.1)
  rw [found, Option.isSome_some] at present
  obtain ⟨entries, there, distinct, each⟩ := locked.data
  have here := each name
  rw [Rules.points, found] at here
  obtain ⟨written, after⟩ := Files.append_there there (isFileName_data nameable) (lines? rule.2)
    (point.text ++ "\n") here
  have lines : (lines? rule.2).getD "" ++ (point.text ++ "\n") = linesOf (rule.2 ++ [point]) := by
    rw [linesOf_concat, lines?]
    split
    · rename_i none
      rw [none]
      rfl
    · rfl
  have first : lines? (rule.2 ++ [point]) = some (linesOf (rule.2 ++ [point])) := if_neg (by simp)
  rw [lines] at after
  have made := Files.makeDirectories_there there
  rw [FileStore.appendData, perform_validated _ nameable.1, holds.unlocked.perform_guarded,
    perform_get, present, if_pos rfl, perform_changed _ (by rw [made]), made, perform_change]
  refine ⟨_, Prod.ext (congrArg (Except.mapError _) written) rfl, ?_⟩
  exact locked.changeData rule found (rule.2 ++ [point]) distinct each (by rw [first]; exact after)

theorem removeRecord (name : String) (valid : FileTree.isFileName name = true)
    (empty : rules.points name = []) :
    ∃ after, perform (do
        let store ← get
        if store.files.present (Layout.watchRule name) then
          FileStore.change fun files => files.removeFile (Layout.watchRule name)
          pure true
        else pure false : FileOp Bool) store = (.ok (rules name).isSome, after) ∧
      Holds after.files (rules.change name none) := by
  have present := holds.present_record name valid
  rw [perform_get, present]
  cases found : rules name with
  | none =>
    refine ⟨store, rfl, ?_⟩
    rwa [rules.change_self name none found]
  | some rule =>
    obtain ⟨entries, there, distinct, each⟩ := holds.records
    have file := each name
    rw [found] at file
    obtain ⟨removed, after⟩ := Files.removeFile_there there valid file
    rw [Option.isSome_some, if_pos rfl, perform_changed _ removed]
    exact ⟨_, rfl, holds.changeRecord none distinct each after empty.symm⟩

theorem deleteRule (name : String) (nameable : WatchRequest.Nameable name) :
    ∃ after, perform (FileStore.deleteRule name) store = (.ok (rules name).isSome, after) ∧
      Holds after.files (rules.change name none) := by
  have locked := holds.guard
  have valid := isFileName_of_key nameable.1
  obtain ⟨entries, there, distinct, each⟩ := locked.data
  have present := Files.present_directory there _ (isFileName_data nameable)
  rw [each name, Option.isSome_map] at present
  rw [FileStore.deleteRule, perform_validated _ nameable.1, holds.unlocked.perform_guarded,
    perform_get]
  change ∃ after, perform (if (perform Layout.guard store).2.files.present
    (Layout.watchData ++ [name ++ ".jsonl"]) = true then _ else _) _ = _ ∧ _
  rw [present]
  by_cases empty : rules.points name = []
  · rw [lines?, if_pos empty]
    exact locked.removeRecord name valid empty
  · obtain ⟨rule, found⟩ : ∃ rule, rules name = some rule := by
      cases found : rules name with
      | none =>
        rw [Rules.points, found] at empty
        exact absurd rfl empty
      | some rule => exact ⟨rule, rfl⟩
    have file := each name
    rw [lines?, if_neg empty] at file ⊢
    obtain ⟨removed, after⟩ := Files.removeFile_there there (isFileName_data nameable) file
    rw [Option.isSome_some, if_pos rfl, perform_changed _ removed]
    have cleared := locked.changeData rule found [] distinct each after
    obtain ⟨last, answered, deleted⟩ := @removeRecord
      { (perform Layout.guard store).2 with files := _ } _ cleared name valid (by
        rw [Rules.points, Rules.change, if_pos rfl]
        rfl)
    rw [Rules.change_change] at deleted
    refine ⟨last, ?_, deleted⟩
    rw [found]
    rw [Rules.change, if_pos rfl] at answered
    exact answered

end Operations

section Reading

variable {files : Files} {rules : Rules} (holds : Holds files rules)

include holds

theorem readRule_missing (name : String) (valid : FileTree.isFileName name = true)
    (missing : rules name = none) : readRule files name = .error (.watchNotFound name) := by
  obtain ⟨entries, there, -, each⟩ := holds.records
  have entry := Files.look_directory there name valid
  rw [each, missing] at entry
  rw [readRule, readFile?, Files.read, Layout.watchRule, entry]
  rfl

theorem readRule_stored (name : String) (valid : FileTree.isFileName name = true)
    (rule : Record × List Point) (found : rules name = some rule) (storable : rule.1.Storable) :
    readRule files name = .ok rule.1.sealed := by
  obtain ⟨entries, there, -, each⟩ := holds.records
  have entry := Files.look_directory there name valid
  rw [each, found] at entry
  have read : recordOfText rule.1.sealed.text = _ :=
    recordOfText_sealed .pretty rule.1 storable.threshold storable.keepsPeriods
  rw [readRule, readFile?, Files.read, Layout.watchRule, entry]
  simp only [Option.map_some, ruleFile, bind, Except.bind, read]

theorem listData_missing (name : String) (accepted : keyFault? name = none)
    (missing : rules name = none) : listData name files = .error (.watchNotFound name) := by
  have absent := holds.present_record name (isFileName_of_key accepted)
  rw [missing, Option.isSome_none] at absent
  rw [listData, validateKey_ok accepted]
  simp only [bind, Except.bind, absent, Bool.false_eq_true, if_false]

theorem listData_stored (name : String) (nameable : WatchRequest.Nameable name)
    (rule : Record × List Point) (found : rules name = some rule)
    (storable : ∀ point ∈ rule.2, point.Storable) :
    listData name files = .ok (Point.inOrder rule.2) := by
  have present := holds.present_record name (isFileName_of_key nameable.1)
  rw [found, Option.isSome_some] at present
  obtain ⟨entries, there, -, each⟩ := holds.data
  have entry := Files.look_directory there _ (isFileName_data nameable)
  rw [each, Rules.points, found, Option.map_some, Option.getD_some] at entry
  rw [listData, validateKey_ok nameable.1]
  simp only [bind, Except.bind, present, if_true, readFile?, Files.read, Layout.watchPoints, entry]
  by_cases empty : rule.2 = []
  · simp only [lines?, if_pos empty, Option.map_none]
    rw [empty, Point.inOrder, List.mergeSort_nil]
  · simp only [lines?, if_neg empty, Option.map_some, pointsOfText_linesOf rule.2 storable]

theorem listed?_stored (name : String) (accepted : keyFault? name = none)
    (rule : Record × List Point) (found : rules name = some rule) (storable : rule.1.Storable) :
    listed? files name = some rule.1.sealed := by
  have read := holds.readRule_stored name (isFileName_of_key accepted) rule found storable
  obtain ⟨filled, -, noDot, -⟩ := (keyFault?_eq_none_iff name).mp accepted
  have shown : (name.isEmpty || decide (name.toList.head? = some '.')) = false := by
    rw [decide_eq_false noDot, Bool.or_false, Bool.eq_false_iff]
    exact fun empty => filled (String.isEmpty_iff.mp empty)
  simp only [Bool.or_eq_false_iff, decide_eq_false_iff_not] at shown
  rw [listed?, shown.1, Bool.false_or, if_neg (by simpa using shown.2), read]

end Reading

theorem fileNames_perm {files : Files} {rules : Entries (Record × List Point)}
    (holds : Holds files (Entries.get? rules)) (sorted : Entries.Sorted rules) :
    ∃ names, files.fileNames Layout.watchRules = .ok names ∧ names.Perm (Entries.keys rules) := by
  obtain ⟨entries, there, distinct, each⟩ := holds.records
  have plain : ∀ entry ∈ entries, ∃ content, entry.2 = .file content := by
    intro entry member
    have found := (Entries.get?_eq_some_iff entries distinct entry.1 entry.2).mpr member
    rw [each] at found
    obtain ⟨rule, -, file⟩ := Option.map_eq_some_iff.mp found
    exact ⟨_, file.symm⟩
  refine ⟨_, Files.fileNames_directory there plain, ?_⟩
  have distinct' : (Entries.keys rules).Nodup := Entries.distinct_of_sorted sorted
  refine (List.perm_ext_iff_of_nodup distinct distinct').mpr fun name => ?_
  have absent := Entries.get?_eq_none_iff entries name
  have absent' := Entries.get?_eq_none_iff rules name
  rw [each, Option.map_eq_none_iff] at absent
  exact not_iff_not.mp (absent.symm.trans absent')

end Holds

end FileStore

end Orchestration
