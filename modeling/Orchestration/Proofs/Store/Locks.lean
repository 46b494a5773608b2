import Orchestration.Proofs.Json.Reading
import Orchestration.Proofs.Lock.Requests
import Orchestration.Proofs.Store.Operations
import Orchestration.Proofs.Time.Rfc3339
import Orchestration.Store.FileLocks

/-!
# Lock records in files

A lock record is read back from its file, so a file-backed store is a lawful lock store, whatever
stands below its root.
-/

set_option autoImplicit false

namespace Orchestration

namespace LockRecord

theorem ofText?_text (record : LockRecord) : ofText? record.text = some record := by
  let entries : Object := [("stack_id", .string record.stack), ("engine_id", .string record.engine),
    ("created_at", .string record.createdAt.text)]
  have back : (Json.object entries).ReadsBack := by
    apply Json.ReadsBack.object
    intro x member
    simp only [entries, List.map_cons, List.map_nil, List.mem_cons, List.not_mem_nil,
      or_false] at member
    rcases member with rfl | rfl | rfl <;> exact .string _
  have fields := Raw.fields?_ofJson ["stack_id", "engine_id", "created_at"] entries (by decide)
    (List.Sublist.refl _)
  rw [ofText?, text, Json.pretty, Raw.ofText?_write _ _ _ back, Option.bind_eq_bind,
    Option.bind_some, ofRaw?, fields]
  simp [entries, Entries.get?_cons, Raw.ofJson, Raw.text?, Watch.instant?, Instant.ofText?_text]

end LockRecord

namespace FileStore

/-! ## Reading a record -/

theorem lockRecord_names {stack : String} (accepted : keyFault? stack = none) :
    ∀ name ∈ Layout.lockRecord stack, FileTree.isFileName name = true := by
  intro name member
  simp only [Layout.lockRecord, Layout.locks, List.cons_append, List.nil_append, List.mem_cons,
    List.not_mem_nil, or_false] at member
  rcases member with rfl | rfl
  · decide
  · exact isFileName_of_key accepted

theorem lockRecord?_congr {before after : Files} {stack : String}
    (same : keyFault? stack = none →
      after.look (Layout.lockRecord stack) = before.look (Layout.lockRecord stack)) :
    lockRecord? after stack = lockRecord? before stack := by
  unfold lockRecord?
  cases fault : keyFault? stack with
  | some fault => rw [validateKey, fault]; rfl
  | none => rw [readFile?, readFile?, Files.read, Files.read, same fault]

theorem lockRecord?_rejected {files : Files} {stack : String} {fault : KeyFault}
    (rejected : keyFault? stack = some fault) :
    lockRecord? files stack = .error (.invalidKey (fault.message stack)) := by
  rw [lockRecord?, validateKey, rejected]
  rfl

theorem lockRecord?_file {files : Files} {stack : String} (accepted : keyFault? stack = none)
    (record : LockRecord)
    (there : files.look (Layout.lockRecord stack) = .ok (.file (some record.text))) :
    lockRecord? files stack = .ok (some record) := by
  rw [lockRecord?, validateKey_ok accepted, readFile?, Files.read, there]
  simp only [bind, Except.bind, LockRecord.ofText?_text]

theorem lockRecord?_missing {files : Files} {stack : String} (accepted : keyFault? stack = none)
    (missing : files.look (Layout.lockRecord stack) = .error .notFound) :
    lockRecord? files stack = .ok none := by
  rw [lockRecord?, validateKey_ok accepted, readFile?, Files.read, missing]
  rfl

theorem accepted_of_ok {files : Files} {stack : String} {found : Option LockRecord}
    (answered : lockRecord? files stack = .ok found) : keyFault? stack = none := by
  cases fault : keyFault? stack with
  | none => rfl
  | some fault =>
    rw [lockRecord?_rejected fault] at answered
    cases answered

/-! ## Changing a record -/

theorem lockFile_apart (stack : String) : Apart Layout.lockFile (Layout.lockRecord stack) :=
  apart_beginnings (by decide) _ _

theorem lockRecord?_guard (store : FileStore) (stack : String) :
    lockRecord? (perform Layout.guard store).2.files stack = lockRecord? store.files stack :=
  lockRecord?_congr fun accepted =>
    look_guard store _ (lockRecord_names accepted) (lockFile_apart stack)

theorem lockRecord?_makeDirectories (files : Files) (stack : String) :
    lockRecord? (files.makeDirectories Layout.locks).2 stack = lockRecord? files stack :=
  lockRecord?_congr fun accepted =>
    files.look_makeDirectories _ _ (lockRecord_names accepted)
      fun through => absurd through.length_le (by simp [Layout.lockRecord])

theorem lockRecord?_update_of_ne (files : Files) {stack other : String} (different : other ≠ stack)
    (change : Option FileTree → Except FileError (Option FileTree)) :
    lockRecord? (files.update (Layout.lockRecord stack) change).2 other = lockRecord? files other :=
  lockRecord?_congr fun _ =>
    files.look_update_of_apart (apart_siblings Layout.locks stack other different)

theorem writeLock_cases (store : FileStore) (stack engine : String)
    (accepted : keyFault? stack = none) :
    ((perform (writeLock stack engine) store).1 = .error .io ∧
        ∀ other, lockRecord? (perform (writeLock stack engine) store).2.files other =
          lockRecord? store.files other) ∨
      ((perform (writeLock stack engine) store).1 = .ok () ∧
        lockRecord? (perform (writeLock stack engine) store).2.files stack =
          .ok (some ⟨stack, engine, store.clock⟩) ∧
        ∀ other, other ≠ stack →
          lockRecord? (perform (writeLock stack engine) store).2.files other =
            lockRecord? store.files other) := by
  have made := lockRecord?_makeDirectories store.files
  rw [writeLock, perform_get, perform_bind, perform_change]
  cases (store.files.makeDirectories Layout.locks).1 with
  | error e => exact .inl ⟨rfl, made⟩
  | ok _ =>
    generalize (store.files.makeDirectories Layout.locks).2 = files at made
    simp only [Except.mapError, perform_change]
    cases written : (files.write (Layout.lockRecord stack)
        (some (LockRecord.mk stack engine store.clock).text)).1 with
    | error e =>
      have kept := Files.update_error written
      refine .inl ⟨rfl, fun other => ?_⟩
      rw [← made]
      exact congrArg (lockRecord? · other) kept
    | ok _ =>
      refine .inr ⟨rfl, ?_, fun other different => ?_⟩
      · exact lockRecord?_file accepted _ (Files.look_write written)
      · rw [← made]
        exact lockRecord?_update_of_ne files different _

/-! ## The calls -/

/-- Which engine holds each stack, as far as the records can be read. -/
def records (store : FileStore) : LockRecords := fun stack =>
  match lockRecord? store.files stack with
  | .ok found => found.map LockRecord.engine
  | .error _ => none

theorem records_of_same {before after : FileStore} {stack : String}
    (same : lockRecord? after.files stack = lockRecord? before.files stack) :
    after.records stack = before.records stack := by
  rw [records, records, same]

theorem records_congr {before after : FileStore}
    (same : ∀ stack, lockRecord? after.files stack = lockRecord? before.files stack) :
    after.records = before.records :=
  funext fun stack => records_of_same (same stack)

theorem perform_locked {α : Type} (store : FileStore) (stack : String)
    (next : Option LockRecord → FileOp α) :
    perform (do
      Layout.guard
      let store ← get
      let found ← answer (lockRecord? store.files stack)
      next found) store =
    match (perform Layout.guard store).1, lockRecord? store.files stack with
    | .error e, _ => (.error e, (perform Layout.guard store).2)
    | .ok _, .error e => (.error e, (perform Layout.guard store).2)
    | .ok _, .ok found => perform (next found) (perform Layout.guard store).2 := by
  rw [perform_bind, ← lockRecord?_guard store stack]
  rcases perform Layout.guard store with ⟨_ | _, locked⟩
  · rfl
  · simp only [perform_get]
    cases lockRecord? locked.files stack <;> rfl

theorem records_of_ok {store : FileStore} {stack : String} {found : Option LockRecord}
    (read : lockRecord? store.files stack = .ok found) :
    store.records stack = found.map LockRecord.engine := by
  rw [records, read]

theorem records_writeLock (store : FileStore) (stack engine : String)
    (accepted : keyFault? stack = none) :
    ((perform (writeLock stack engine) store).1 = .error .io ∧
        (perform (writeLock stack engine) store).2.records = store.records) ∨
      ((perform (writeLock stack engine) store).1 = .ok () ∧
        (perform (writeLock stack engine) store).2.records = store.records.take stack engine) := by
  rcases writeLock_cases store stack engine accepted with ⟨failed, kept⟩ | ⟨written, there, kept⟩
  · exact .inl ⟨failed, records_congr kept⟩
  · refine .inr ⟨written, ?_⟩
    funext other
    by_cases same : other = stack
    · rw [same, LockRecords.take_self, records_of_ok there]
      rfl
    · rw [LockRecords.take_of_ne _ _ _ _ same, records_of_same (kept other same)]

theorem locked_elim {α : Type} {motive : Except StoreError α × FileStore → Prop} (store : FileStore)
    (stack : String) (next : Option LockRecord → FileOp α)
    (failed : ∀ e after, after.records = store.records → motive (.error e, after))
    (goesOn : ∀ locked found, locked.records = store.records →
      lockRecord? locked.files stack = .ok found → motive (perform (next found) locked)) :
    motive (perform (do
      Layout.guard
      let store ← get
      let found ← answer (lockRecord? store.files stack)
      next found) store) := by
  have same : (perform Layout.guard store).2.records = store.records :=
    records_congr (lockRecord?_guard store)
  rw [perform_locked]
  cases (perform Layout.guard store).1 with
  | error e => exact failed e _ same
  | ok _ =>
    cases read : lockRecord? store.files stack with
    | error e => exact failed e _ same
    | ok found =>
      rw [← lockRecord?_guard store stack] at read
      exact goesOn _ found same read

theorem createLock_spec (stack engine : String) (store : FileStore) :
    store.records.Create (perform (createLock stack engine) store).2.records stack engine
      (perform (createLock stack engine) store).1 := by
  apply locked_elim (motive := fun result =>
    store.records.Create result.2.records stack engine result.1)
  · intro e after kept
    exact kept
  · intro locked found same read
    have before := records_of_ok read
    rw [← same]
    cases found with
    | some record => exact ⟨before, rfl⟩
    | none =>
      have written := records_writeLock locked stack engine (accepted_of_ok read)
      simp only [perform_bind]
      generalize perform (writeLock stack engine) locked = result at *
      obtain ⟨answer, after⟩ := result
      rcases written with ⟨rfl, kept⟩ | ⟨rfl, taken⟩
      · exact kept
      · exact ⟨before, taken⟩

theorem stealLock_spec (stack old new : String) (store : FileStore) :
    store.records.Steal (perform (stealLock stack old new) store).2.records stack old new
      (perform (stealLock stack old new) store).1 := by
  apply locked_elim (motive := fun result =>
    store.records.Steal result.2.records stack old new result.1)
  · intro e after kept
    exact kept
  · intro locked found same read
    have before := records_of_ok read
    rw [← same]
    cases found with
    | none => exact ⟨by rw [before]; simp, rfl⟩
    | some record =>
      by_cases held : record.engine = old
      · have written := records_writeLock locked stack new (accepted_of_ok read)
        simp only [held, if_true, perform_bind]
        generalize perform (writeLock stack new) locked = result at *
        obtain ⟨answer, after⟩ := result
        rcases written with ⟨rfl, kept⟩ | ⟨rfl, taken⟩
        · exact kept
        · exact ⟨by rw [before, Option.map_some, held], taken⟩
      · simp only [held, if_false]
        refine ⟨?_, rfl⟩
        rw [before, Option.map_some]
        simpa using held

theorem releaseLock_spec (stack engine : String) (store : FileStore) :
    store.records.Release (perform (releaseLock stack engine) store).2.records stack engine
      (perform (releaseLock stack engine) store).1 := by
  apply locked_elim (motive := fun result =>
    store.records.Release result.2.records stack engine result.1)
  · intro e after kept
    exact kept
  · intro locked found same read
    have before := records_of_ok read
    rw [← same]
    cases found with
    | none => exact ⟨by rw [before]; simp, rfl⟩
    | some record =>
      by_cases held : record.engine = engine
      · simp only [held, if_true, perform_bind, perform_change]
        cases removed : (locked.files.removeFile (Layout.lockRecord stack)).1 with
        | error e =>
          exact records_congr fun other =>
            congrArg (lockRecord? · other) (Files.update_error removed)
        | ok _ =>
          refine ⟨by rw [before, Option.map_some, held], fun other different => ?_⟩
          exact records_of_same (lockRecord?_update_of_ne locked.files different _)
      · simp only [held, if_false]
        refine ⟨?_, rfl⟩
        rw [before, Option.map_some]
        simpa using held

theorem holder_spec (stack : String) (store : FileStore) :
    store.records.Holder (LockStore.holder stack store).2.records stack
      (LockStore.holder stack store).1 := by
  simp only [LockStore.holder]
  cases read : lockRecord? store.files stack with
  | error e => rfl
  | ok found => exact ⟨(records_of_ok read).symm, rfl⟩

instance : LawfulLockStore FileStore where
  records := records
  create_spec := createLock_spec
  steal_spec := stealLock_spec
  release_spec := releaseLock_spec
  holder_spec := holder_spec

end FileStore

end Orchestration
