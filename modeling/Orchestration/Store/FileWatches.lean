import Orchestration.Store.FileLocks
import Orchestration.Text.Pieces

/-! # Watch rules in files

A rule is one file with its checksum; its data points are the lines of another.  A rule whose file
cannot be read is left out of listings, and so is a line that cannot be read.
-/

set_option autoImplicit false

namespace Orchestration.FileStore

open Watch

def verify (record : Record) : Except StoreError Unit :=
  match record.checksum with
  | none => .ok ()
  | some expected =>
    if record.digest = expected then .ok ()
    else .error (.integrityFailure record.name expected record.digest)

def recordOfText (text : String) : Except StoreError Record :=
  match (Raw.ofText? text).bind Record.ofRaw? with
  | none => .error .serialization
  | some record => (verify record).map fun _ => record

def readRule (files : Files) (name : String) : Except StoreError Record := do
  match ← readFile? files (Layout.watchRule name) with
  | none => .error (.watchNotFound name)
  | some text => recordOfText text

def getRule (name : String) (files : Files) : Except StoreError Record := do
  validateKey name
  readRule files name

def putRule (record : Record) : FileOp Unit := do
  answer (validateKey record.name)
  change fun files => files.makeDirectories Layout.watchRules
  Layout.guard
  change fun files => files.write (Layout.watchRule record.name) (some record.sealed.text)

def deleteRule (name : String) : FileOp Bool := do
  answer (validateKey name)
  Layout.guard
  let store ← get
  if store.files.present (Layout.watchPoints name) then
    change fun files => files.removeFile (Layout.watchPoints name)
  let store ← get
  if store.files.present (Layout.watchRule name) then
    change fun files => files.removeFile (Layout.watchRule name)
    pure true
  else pure false

/-- The record in a listed file: hidden files and files that cannot be read count as nothing. -/
def listed? (files : Files) (name : String) : Option Record :=
  if name.isEmpty || name.toList.head? = some '.' then none
  else
    match readRule files name with
    | .ok record => some record
    | .error _ => none

def listRules (stack : Option String) (files : Files) : Except StoreError (List Record) :=
  if files.present Layout.watchRules then
    match files.fileNames Layout.watchRules with
    | .error _ => .error .io
    | .ok names =>
      .ok (((names.filterMap (listed? files)).filter (belongsTo stack)).mergeSort
        fun a b => !(decide (b.name < a.name)))
  else .ok []

def appendData (name : String) (point : Point) : FileOp Unit := do
  answer (validateKey name)
  Layout.guard
  let store ← get
  if store.files.present (Layout.watchRule name) then
    change fun files => files.makeDirectories Layout.watchData
    change fun files => files.append (Layout.watchPoints name) (point.text ++ "\n")
  else throw (.watchNotFound name)

/-- The points on the lines of a text; blank lines and lines that cannot be read are skipped. -/
def pointsOfText (text : String) : List Point :=
  (Text.pieces ['\n'] text.toList).filterMap fun line =>
    if Text.allBlank line then none
    else (Raw.ofText? (String.ofList line)).bind Point.ofRaw?

def listData (name : String) (files : Files) : Except StoreError (List Point) := do
  validateKey name
  if files.present (Layout.watchRule name) then
    match ← readFile? files (Layout.watchPoints name) with
    | none => .ok []
    | some text => .ok (Point.inOrder (pointsOfText text))
  else .error (.watchNotFound name)

instance : WatchStore FileStore where
  getRule name store := getRule name store.files
  putRule record store := perform (putRule record) store
  deleteRule name store := perform (deleteRule name) store
  listRules stack store := listRules stack store.files
  appendData name point store := perform (appendData name point) store
  listData name store := listData name store.files

end Orchestration.FileStore
