/-! # Store errors and record keys

The keys of records become file names, so only short single path components are accepted.
-/

set_option autoImplicit false

namespace Orchestration

inductive KeyFault where
  | length
  | path
  deriving DecidableEq

def KeyFault.message (key : String) : KeyFault → String
  | .length => "'" ++ key ++ "' must be 1-255 characters"
  | .path => "'" ++ key ++ "' must not start with '.' or contain path separators"

inductive StoreError where
  | io
  | serialization
  | integrityFailure (key expected actual : String)
  | watchNotFound (name : String)
  | watchExists (name : String)
  | lockFailed (reason : String)
  | versionMismatch (expected found : Nat)
  | invalidKey (reason : String)
  deriving DecidableEq

/-- The text of an error.  Failures of the file system and of stored texts have no text of their
own. -/
def StoreError.message? : StoreError → Option String
  | .io => none
  | .serialization => none
  | .integrityFailure key expected actual =>
    some ("integrity check failed for '" ++ key ++ "': expected " ++ expected ++ ", got " ++ actual)
  | .watchNotFound name => some ("watch rule not found: " ++ name)
  | .watchExists name => some ("watch rule '" ++ name ++ "' already exists")
  | .lockFailed reason => some ("store lock acquisition failed: " ++ reason)
  | .versionMismatch expected found =>
    some ("store format version mismatch: expected " ++ String.ofList (Nat.toDigits 10 expected) ++
      ", found " ++ String.ofList (Nat.toDigits 10 found))
  | .invalidKey reason => some ("invalid record key: " ++ reason)

/-- What is wrong with a record key, if anything: its length in bytes comes first. -/
def keyFault? (key : String) : Option KeyFault :=
  if key.isEmpty || 255 < key.utf8ByteSize then some .length
  else if key.toList.head? = some '.' then some .path
  else if key.toList.any fun c => c == '/' || c == '\\' || c == '\x00' then some .path
  else none

def validateKey (key : String) : Except StoreError Unit :=
  match keyFault? key with
  | some fault => .error (.invalidKey (fault.message key))
  | none => .ok ()

end Orchestration
