import Orchestration.Digest.Algorithm
import Orchestration.Failure
import Orchestration.Lock.Acquire
import Orchestration.Toml.Read

/-! # Engine settings

What an engine reads from its file of settings: its name, how long it waits for other engines, which
digests templates may use, and where the stores keep their files.
-/

set_option autoImplicit false

namespace Orchestration

structure Settings where
  engine : String
  pingTimeoutSeconds : Nat
  digests : List String
  /-- Where the stores keep their files; without it they are kept in memory. -/
  storeRoot : Option String
  deriving DecidableEq

namespace Settings

def default (engine : String) : Settings :=
  ⟨engine, 2, Digest.supported, none⟩

def fieldOr {α : Type} (value? : Toml → Option α) (default : α) : Option Toml → Option α
  | none => some default
  | some field => value? field

def section? {α : Type} (name : String) (value? : Toml → Option α) (default : α) :
    Option Toml → Option α
  | none => some default
  | some part =>
    match part.fields? [name] with
    | some [field] => fieldOr value? default field
    | _ => none

/-- Reads the tree of a text; an engine without a name takes the given one. -/
def ofToml? (engine : String) (tree : Toml) : Option Settings :=
  match tree.fields? ["engine_id", "lock", "template", "store"] with
  | some [engineId, lock, template, store] => do
    some {
      engine := ← fieldOr Toml.text? engine engineId
      pingTimeoutSeconds := ← section? "ping_timeout_secs" Toml.natural? 2 lock
      digests := ← section? "digest_algorithms" (Toml.listOf? Toml.text?) Digest.supported template
      storeRoot := ← section? "root" (fun field => field.text?.map some) none store }
  | _ => none

def validate (settings : Settings) : Except ConfigError Unit :=
  if settings.pingTimeoutSeconds = 0 then .error .zeroPingTimeout
  else if settings.digests.isEmpty then .error .noDigestAlgorithms
  else .ok ()

def ofText (engine text : String) : Except ConfigError Settings := do
  match (Toml.ofText? text).bind (ofToml? engine) with
  | none => .error .malformed
  | some settings =>
    settings.validate
    .ok settings

def ofFile (engine : String) (content : Option String) : Except ConfigError Settings :=
  match content with
  | none => .error .unreadable
  | some text => ofText engine text

def lock (settings : Settings) (stack : String) : StackLock :=
  ⟨stack, settings.engine, 1000 * settings.pingTimeoutSeconds⟩

end Settings

end Orchestration
