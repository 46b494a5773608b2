import Orchestration.Lock.Acquire

/-! # Holding a stack

Releasing a stack, asking who holds it, and guards, which stand for an acquired stack that is to be
released.
-/

set_option autoImplicit false

namespace Orchestration

namespace LockOutcome

variable {σ α β : Type}

def mapResult (f : Except Failure α → Except Failure β) (outcome : LockOutcome σ α) :
    LockOutcome σ β :=
  ⟨f outcome.result, outcome.world, outcome.calls, outcome.waited⟩

def ofCall (call : LockCall) (answer : Except StoreError α × σ) : LockOutcome σ α :=
  ⟨answer.1.mapError .store, answer.2, [call], 0⟩

end LockOutcome

structure StackGuard where
  stack : String
  engine : String
  deriving DecidableEq

variable {σ : Type} [LockStore σ]

namespace StackGuard

def giveUp (guard : StackGuard) (world : σ) : LockOutcome σ Bool :=
  .ofCall (.release guard.stack guard.engine) (LockStore.release guard.stack guard.engine world)

/-- Ends a guard and reports a failure of the store.  A stack that is not held any more is no
failure. -/
def release (guard : StackGuard) (world : σ) : LockOutcome σ Unit :=
  (guard.giveUp world).mapResult fun result => result.map fun _ => ()

def drop (guard : StackGuard) (world : σ) : LockOutcome σ Unit :=
  (guard.giveUp world).mapResult fun _ => .ok ()

end StackGuard

namespace StackLock

def guard (lock : StackLock) : StackGuard := ⟨lock.stack, lock.engine⟩

def holder (lock : StackLock) (world : σ) : LockOutcome σ (Option String) :=
  .ofCall (.holder lock.stack) (LockStore.holder lock.stack world)

/-- Drops the record of this engine.  A stack that it does not hold is no failure. -/
def release (lock : StackLock) (world : σ) : LockOutcome σ Unit :=
  lock.guard.release world

variable [Listener σ]

def guarded (lock : StackLock) (world : σ) : LockOutcome σ StackGuard :=
  (lock.acquire world).mapResult fun result => result.map fun _ => lock.guard

/-- Acquires the stack if no other engine holds it. -/
def guarded? (lock : StackLock) (world : σ) : LockOutcome σ (Option StackGuard) :=
  (lock.guarded world).mapResult (Failure.ignoring Failure.isActionInProgress)

end StackLock

end Orchestration
