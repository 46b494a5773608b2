import Orchestration.Entries

/-! # Listening engines

An engine that holds a stack is pinged before its lock counts as stale.  Times are milliseconds.
-/

set_option autoImplicit false

namespace Orchestration

structure PingReply where
  delay : Nat
  alive : Bool
  deriving DecidableEq

/-- Whether a reply within the timeout says that the engine is listening.  A reply at the very end
of the timeout still counts. -/
def PingReply.heard (timeout : Nat) : Option PingReply → Bool
  | some reply => decide (reply.delay ≤ timeout) && reply.alive
  | none => false

def PingReply.waited (timeout : Nat) : Option PingReply → Nat
  | some reply => min reply.delay timeout
  | none => timeout

/-- Sends pings; nothing comes back from an engine that never replies. -/
class Listener (σ : Type) where
  ping : (engine topic : String) → σ → Option PingReply × σ

structure EngineRegistry where
  live : List String
  told : Entries (Option PingReply)

namespace EngineRegistry

def empty : EngineRegistry := ⟨[], []⟩

def register (engine : String) (registry : EngineRegistry) : EngineRegistry :=
  { registry with live := engine :: registry.live.filter (· != engine) }

def unregister (engine : String) (registry : EngineRegistry) : EngineRegistry :=
  { registry with live := registry.live.filter (· != engine) }

def tell (engine : String) (reply : Option PingReply) (registry : EngineRegistry) :
    EngineRegistry :=
  { registry with told := Entries.put registry.told engine reply }

/-- A registered engine replies at once; one that is not is known to be gone at once. -/
def reply (registry : EngineRegistry) (engine : String) : Option PingReply :=
  match Entries.get? registry.told engine with
  | some reply => reply
  | none => some ⟨0, registry.live.contains engine⟩

end EngineRegistry

instance : Listener EngineRegistry where
  ping engine _ registry := (registry.reply engine, registry)

theorem PingReply.waited_le (timeout : Nat) (reply : Option PingReply) :
    PingReply.waited timeout reply ≤ timeout := by
  cases reply with
  | none => exact Nat.le_refl timeout
  | some reply => exact Nat.min_le_right reply.delay timeout

end Orchestration
