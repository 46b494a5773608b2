import Orchestration.Json.Raw
import Orchestration.Json.Write
import Orchestration.Store.Error
import Orchestration.Store.Files
import Orchestration.Time.Instant

/-! # The layout of a file-backed store

Where the files of a store stand below its root, the format version of the store, and the lock file
that every change goes through.
-/

set_option autoImplicit false

namespace Orchestration

structure FileStore where
  files : Files
  clock : Instant

/-- An operation on a file-backed store.  What it changed before an error stays changed. -/
abbrev FileOp (α : Type) : Type := ExceptT StoreError (StateM FileStore) α

namespace FileStore

def fresh (clock : Instant) : FileStore := ⟨none, clock⟩

def perform {α : Type} (op : FileOp α) (store : FileStore) : Except StoreError α × FileStore :=
  op.run.run store

def change (op : Files → Except FileError Unit × Files) : FileOp Unit := do
  let store ← get
  let (result, files) := op store.files
  set { store with files := files }
  match result with
  | .ok _ => pure ()
  | .error _ => throw .io

def readFile? (files : Files) (path : List String) : Except StoreError (Option String) :=
  match files.read path with
  | .ok text => .ok (some text)
  | .error .notFound => .ok none
  | .error .refused => .error .io

end FileStore

namespace Layout

def formatVersion : Nat := 1

def locks : List String := ["locks"]

def watchRules : List String := ["watch", "rules"]

def watchData : List String := ["watch", "data"]

def lockFile : List String := [".lock"]

def versionFile : List String := ["version"]

def lockRecord (stack : String) : List String := locks ++ [stack]

def watchRule (name : String) : List String := watchRules ++ [name]

def watchPoints (name : String) : List String := watchData ++ [name ++ ".jsonl"]

def versionText : String :=
  (Json.object [("format_version", .ofInt formatVersion)]).pretty

def version? (text : String) : Option Nat := do
  let raw ← Raw.ofText? text
  match raw.fields? ["format_version"] with
  | some [some version] => version.natural? 4294967296
  | _ => none

def verify (files : Files) : Except StoreError Unit :=
  match files.read versionFile with
  | .error _ => .error .io
  | .ok text =>
    match version? text with
    | none => .error .serialization
    | some found =>
      if found = formatVersion then .ok () else .error (.versionMismatch formatVersion found)

/-- Makes the directories of a store and writes its version, or checks the version that is there. -/
def prepare : FileOp Unit := do
  FileStore.change fun files => files.makeDirectories locks
  FileStore.change fun files => files.makeDirectories watchRules
  FileStore.change fun files => files.makeDirectories watchData
  let store ← get
  if store.files.present versionFile then liftExcept (verify store.files)
  else FileStore.change fun files => files.write versionFile (some versionText)
where
  liftExcept {α : Type} (result : Except StoreError α) : FileOp α :=
    ExceptT.mk (pure result)

/-- Takes the lock file, which creates it and the root. -/
def guard : FileOp Unit := do
  FileStore.change fun files => files.makeDirectories []
  FileStore.change fun files => files.touch lockFile

end Layout

end Orchestration
