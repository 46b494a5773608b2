import Orchestration.Proofs.Store.Files
import Orchestration.Store.FileLocks

/-!
# Operations on a file-backed store

How the steps of an operation follow each other, which record keys are names of files, and what
taking the lock file does: it always succeeds on a store that is unlocked, and no other file
changes.
-/

set_option autoImplicit false

namespace Orchestration

theorem keyFault?_eq_none_iff (key : String) : keyFault? key = none ↔
    key ≠ "" ∧ key.utf8ByteSize ≤ 255 ∧ key.toList.head? ≠ some '.' ∧
      ∀ c ∈ key.toList, c ≠ '/' ∧ c ≠ '\\' ∧ c ≠ '\x00' := by
  have empty : key.isEmpty = true ↔ key = "" := String.isEmpty_iff
  unfold keyFault?
  split
  · rename_i length
    simp only [Bool.or_eq_true, decide_eq_true_eq, empty] at length
    refine iff_of_false (by simp) fun ⟨filled, short, _⟩ => ?_
    rcases length with none | long
    · exact filled none
    · omega
  · rename_i length
    simp only [Bool.or_eq_true, decide_eq_true_eq, empty, not_or, Nat.not_lt] at length
    split
    · rename_i hidden
      exact iff_of_false (by simp) fun ⟨_, _, shown, _⟩ => shown hidden
    · rename_i shown
      split
      · rename_i separated
        obtain ⟨c, member, bad⟩ := List.any_eq_true.mp separated
        simp only [Bool.or_eq_true, beq_iff_eq] at bad
        refine iff_of_false (by simp) fun ⟨_, _, _, plain⟩ => ?_
        obtain ⟨slash, backslash, nul⟩ := plain c member
        rcases bad with (rfl | rfl) | rfl <;> contradiction
      · rename_i plain
        simp only [Bool.not_eq_true, List.any_eq_false, Bool.or_eq_true, beq_iff_eq, not_or] at plain
        refine iff_of_true rfl ⟨length.1, length.2, shown, fun c member => ?_⟩
        obtain ⟨⟨slash, backslash⟩, nul⟩ := plain c member
        exact ⟨slash, backslash, nul⟩

theorem isFileName_of_key {key : String} (accepted : keyFault? key = none) :
    FileTree.isFileName key = true := by
  obtain ⟨-, short, -, plain⟩ := (keyFault?_eq_none_iff key).mp accepted
  simp only [FileTree.isFileName, Bool.and_eq_true, decide_eq_true_eq, List.all_eq_true, bne_iff_ne]
  exact ⟨short, fun c member => (plain c member).2.2⟩

theorem validateKey_ok {key : String} (accepted : keyFault? key = none) :
    validateKey key = .ok () := by
  rw [validateKey, accepted]

theorem accepted_of_validateKey {key : String} {u : Unit} (valid : validateKey key = .ok u) :
    keyFault? key = none := by
  rw [validateKey] at valid
  split at valid
  · cases valid
  · assumption

namespace FileStore

/-! ## The steps of an operation -/

section Steps

variable {α β : Type} (store : FileStore)

theorem perform_bind (op : FileOp α) (next : α → FileOp β) :
    perform (op >>= next) store =
      match perform op store with
      | (.ok x, store) => perform (next x) store
      | (.error e, store) => (.error e, store) := by
  unfold perform
  simp only [ExceptT.run_bind, StateT.run_bind]
  generalize op.run.run store = result
  rcases result with ⟨_ | _, _⟩ <;> rfl

theorem perform_get (next : FileStore → FileOp β) :
    perform (get >>= next) store = perform (next store) store :=
  rfl

theorem perform_then {op : FileOp α} {x : α} {after : FileStore}
    (done : perform op store = (.ok x, after)) (next : α → FileOp β) :
    perform (op >>= next) store = perform (next x) after := by
  rw [perform_bind, done]

theorem perform_validated {key : String} (accepted : keyFault? key = none) (next : FileOp β) :
    perform (do answer (validateKey key); next) store = perform next store := by
  rw [validateKey_ok accepted]
  rfl

theorem perform_change (op : Files → Except FileError Unit × Files) :
    perform (change op) store =
      ((op store.files).1.mapError fun _ => .io, { store with files := (op store.files).2 }) := by
  rw [change, perform_get]
  generalize op store.files = outcome
  obtain ⟨result, files⟩ := outcome
  cases result <;> rfl

theorem perform_changed {op : Files → Except FileError Unit × Files}
    (done : (op store.files).1 = .ok ()) (next : FileOp β) :
    perform (do change op; next) store =
      perform next { store with files := (op store.files).2 } := by
  have changed := perform_change store op
  rw [done] at changed
  exact perform_then store changed fun _ => next

/-! An operation that came to something went through each of its steps. -/

theorem perform_bind_ok {op : FileOp α} {next : α → FileOp β} {y : β} {after : FileStore}
    (done : perform (op >>= next) store = (.ok y, after)) :
    ∃ x between, perform op store = (.ok x, between) ∧ perform (next x) between = (.ok y, after) := by
  rw [perform_bind] at done
  split at done
  · rename_i x between first
    exact ⟨x, between, first, done⟩
  · cases done

theorem perform_answer_ok {result : Except StoreError α} {next : α → FileOp β} {y : β}
    {after : FileStore} (done : perform (answer result >>= next) store = (.ok y, after)) :
    ∃ x, result = .ok x ∧ perform (next x) store = (.ok y, after) := by
  obtain ⟨x, between, first, rest⟩ := perform_bind_ok store done
  cases first
  exact ⟨x, rfl, rest⟩

theorem perform_change_ok {op : Files → Except FileError Unit × Files} {after : FileStore}
    (done : perform (change op) store = (.ok (), after)) :
    (op store.files).1 = .ok () ∧ after.files = (op store.files).2 := by
  rw [perform_change, Prod.mk.injEq] at done
  obtain ⟨answered, rfl⟩ := done
  cases result : (op store.files).1 with
  | ok _ => exact ⟨rfl, rfl⟩
  | error e =>
    rw [result] at answered
    cases answered

end Steps

/-! ## The lock file -/

section Guard

variable (store : FileStore)

theorem look_guard (path : List String) (names : ∀ name ∈ path, FileTree.isFileName name = true)
    (apart : Apart Layout.lockFile path) :
    (perform Layout.guard store).2.files.look path = store.files.look path := by
  have deep : ¬ path <+: [] := fun through => apart.2 (through.trans List.nil_prefix)
  have made := store.files.look_makeDirectories [] path names deep
  rw [Layout.guard, perform_bind, perform_change]
  cases (store.files.makeDirectories []).1 with
  | error e => exact made
  | ok _ =>
    change (perform (change _) _).2.files.look path = _
    rw [perform_change, ← made]
    exact Files.look_update_of_apart _ apart

end Guard

structure Unlocked (files : Files) : Prop where
  root : ∃ entries, files.look [] = .ok (.directory entries)
  free : ∀ below, files.look Layout.lockFile ≠ .ok (.directory below)

namespace Unlocked

theorem update {files : Files} (unlocked : Unlocked files) {path : List String}
    (apart : Apart path Layout.lockFile)
    (change : Option FileTree → Except FileError (Option FileTree)) :
    Unlocked (files.update path change).2 where
  root := files.root_update path unlocked.root
  free := by
    rw [files.look_update_of_apart apart]
    exact unlocked.free

theorem guard {store : FileStore} (unlocked : Unlocked store.files) :
    (perform Layout.guard store).1 = .ok () ∧ Unlocked (perform Layout.guard store).2.files := by
  obtain ⟨⟨root, there⟩, free⟩ := unlocked
  have noDirectory : ∀ below, Entries.get? root ".lock" ≠ some (.directory below) := by
    intro below found
    have entry := Files.look_directory there ".lock" (by decide)
    rw [found] at entry
    exact free below entry
  obtain ⟨content, answered, touched⟩ :=
    @Files.touch_there store.files [] ".lock" root there (by decide) noDirectory
  change (store.files.touch Layout.lockFile).1 = _ at answered
  change (store.files.touch Layout.lockFile).2.look [] = _ at touched
  rw [Layout.guard, perform_bind, perform_change, Files.makeDirectories_there there]
  change (perform (change _) store).1 = _ ∧ Unlocked (perform (change _) store).2.files
  rw [perform_change, answered]
  refine ⟨rfl, ⟨_, touched⟩, fun below found => ?_⟩
  have entry := Files.look_directory touched ".lock" (by decide)
  rw [Entries.get?_put, if_pos rfl] at entry
  cases entry.symm.trans found

theorem perform_guarded {α : Type} {store : FileStore} (unlocked : Unlocked store.files)
    (next : FileOp α) :
    perform (do Layout.guard; next) store = perform next (perform Layout.guard store).2 :=
  perform_then store (Prod.ext unlocked.guard.1 rfl) fun _ => next

end Unlocked

end FileStore

end Orchestration
