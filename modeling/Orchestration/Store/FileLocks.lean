import Orchestration.Store.Interface
import Orchestration.Store.Layout

/-! # Lock records in files

One file for each held stack.  Every change reads and writes under the lock file.
-/

set_option autoImplicit false

namespace Orchestration

structure LockRecord where
  stack : String
  engine : String
  createdAt : Instant
  deriving DecidableEq

namespace LockRecord

def ofRaw? (raw : Raw) : Option LockRecord :=
  match raw.fields? ["stack_id", "engine_id", "created_at"] with
  | some [some stack, some engine, some createdAt] => do
    some ⟨← stack.text?, ← engine.text?, ← Watch.instant? createdAt⟩
  | _ => none

def ofText? (text : String) : Option LockRecord := do
  let raw ← Raw.ofText? text
  ofRaw? raw

def text (record : LockRecord) : String :=
  (Json.object [("stack_id", .string record.stack), ("engine_id", .string record.engine),
    ("created_at", .string record.createdAt.text)]).pretty

end LockRecord

namespace FileStore

def answer {α : Type} (result : Except StoreError α) : FileOp α :=
  ExceptT.mk (pure result)

def lockRecord? (files : Files) (stack : String) : Except StoreError (Option LockRecord) := do
  validateKey stack
  match ← readFile? files (Layout.lockRecord stack) with
  | none => .ok none
  | some text =>
    match LockRecord.ofText? text with
    | some record => .ok (some record)
    | none => .error .serialization

def writeLock (stack engine : String) : FileOp Unit := do
  let store ← get
  change fun files => files.makeDirectories Layout.locks
  change fun files =>
    files.write (Layout.lockRecord stack) (some (LockRecord.mk stack engine store.clock).text)

def createLock (stack engine : String) : FileOp (Option String) := do
  Layout.guard
  let store ← get
  match ← answer (lockRecord? store.files stack) with
  | some record => pure (some record.engine)
  | none =>
    writeLock stack engine
    pure none

def stealLock (stack old new : String) : FileOp Bool := do
  Layout.guard
  let store ← get
  match ← answer (lockRecord? store.files stack) with
  | some record =>
    if record.engine = old then
      writeLock stack new
      pure true
    else pure false
  | none => pure false

def releaseLock (stack engine : String) : FileOp Bool := do
  Layout.guard
  let store ← get
  match ← answer (lockRecord? store.files stack) with
  | some record =>
    if record.engine = engine then
      change fun files => files.removeFile (Layout.lockRecord stack)
      pure true
    else pure false
  | none => pure false

instance : LockStore FileStore where
  create stack engine store := perform (createLock stack engine) store
  steal stack old new store := perform (stealLock stack old new) store
  release stack engine store := perform (releaseLock stack engine) store
  holder stack store :=
    ((lockRecord? store.files stack).map fun found => found.map LockRecord.engine, store)

end FileStore

end Orchestration
