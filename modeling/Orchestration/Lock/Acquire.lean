import Orchestration.Failure
import Orchestration.Lock.Listener
import Orchestration.Store.Interface

/-! # Acquiring a stack

An engine takes a stack by creating its lock record.  If another engine holds the record it is
pinged; if it is not heard within the timeout, the record is stolen, provided that engine still
holds it.  A refused steal means that the record changed hands, and the whole is tried once more.

`StackLock.step` makes one call and says how to go on; calls of other engines may come between two
steps. `StackLock.acquire` makes all of them.
-/

set_option autoImplicit false

namespace Orchestration

/-- A stack, the engine that wants it, and how many milliseconds it waits for a reply to a ping. -/
structure StackLock where
  stack : String
  engine : String
  pingTimeout : Nat
  deriving DecidableEq

inductive LockCall where
  | create (stack engine : String)
  | ping (engine stack : String)
  | steal (stack old new : String)
  | holder (stack : String)
  | release (stack engine : String)
  deriving DecidableEq

/-- What an operation on a lock gives: its answer, the world afterwards, the calls that it made in
order, and the milliseconds that it waited for replies. -/
structure LockOutcome (σ α : Type) where
  result : Except Failure α
  world : σ
  calls : List LockCall
  waited : Nat

namespace StackLock

def defaultPingTimeout : Nat := 2000

/-- The next call of an acquire.  In the second attempt `earlier` is the engine that the refused
steal of the first named. -/
inductive Phase where
  | creating (earlier : Option String)
  | pinging (earlier : Option String) (holder : String)
  | stealing (earlier : Option String) (holder : String)
  | asking (earlier : String)
  deriving DecidableEq

inductive Next where
  | go (phase : Phase)
  | stop (result : Except Failure Unit)

def inProgress (lock : StackLock) (holder : String) : Failure :=
  .actionInProgress lock.stack holder

/-- After the answer to a create: a stack that this engine holds already is in progress too. -/
def created (lock : StackLock) (earlier : Option String) :
    Except StoreError (Option String) → Next
  | .error e => .stop (.error (.store e))
  | .ok none => .stop (.ok ())
  | .ok (some holder) =>
    if holder = lock.engine then .stop (.error (lock.inProgress holder))
    else .go (.pinging earlier holder)

def pinged (lock : StackLock) (earlier : Option String) (holder : String) (alive : Bool) : Next :=
  if alive then .stop (.error (lock.inProgress holder)) else .go (.stealing earlier holder)

def stolen (earlier : Option String) (holder : String) : Except StoreError Bool → Next
  | .error e => .stop (.error (.store e))
  | .ok true => .stop (.ok ())
  | .ok false =>
    match earlier with
    | none => .go (.creating (some holder))
    | some _ => .go (.asking holder)

/-- After the last question who holds the stack: if nobody does any more, the engine that was found
before is named. -/
def asked (lock : StackLock) (earlier : String) : Except StoreError (Option String) → Next
  | .error e => .stop (.error (.store e))
  | .ok found => .stop (.error (lock.inProgress (found.getD earlier)))

structure Move (σ : Type) where
  call : LockCall
  waited : Nat
  next : Next
  world : σ

variable {σ : Type} [LockStore σ] [Listener σ]

def step (lock : StackLock) (phase : Phase) (world : σ) : Move σ :=
  match phase with
  | .creating earlier =>
    let (answer, world) := LockStore.create lock.stack lock.engine world
    ⟨.create lock.stack lock.engine, 0, lock.created earlier answer, world⟩
  | .pinging earlier holder =>
    let (reply, world) := Listener.ping holder lock.stack world
    ⟨.ping holder lock.stack, PingReply.waited lock.pingTimeout reply,
      lock.pinged earlier holder (PingReply.heard lock.pingTimeout reply), world⟩
  | .stealing earlier holder =>
    let (answer, world) := LockStore.steal lock.stack holder lock.engine world
    ⟨.steal lock.stack holder lock.engine, 0, stolen earlier holder answer, world⟩
  | .asking earlier =>
    let (answer, world) := LockStore.holder lock.stack world
    ⟨.holder lock.stack, 0, lock.asked earlier answer, world⟩

def Phase.remaining : Phase → Nat
  | .creating none => 7
  | .pinging none _ => 6
  | .stealing none _ => 5
  | .creating (some _) => 4
  | .pinging (some _) _ => 3
  | .stealing (some _) _ => 2
  | .asking _ => 1

theorem remaining_created {lock : StackLock} {earlier : Option String}
    {answer : Except StoreError (Option String)} {phase : Phase}
    (h : lock.created earlier answer = .go phase) :
    phase.remaining < (Phase.creating earlier).remaining := by
  unfold created at h
  split at h
  · cases h
  · cases h
  · split at h
    · cases h
    · cases h; cases earlier <;> simp [Phase.remaining]

theorem remaining_pinged {lock : StackLock} {earlier : Option String} {holder : String}
    {alive : Bool} {phase : Phase} (h : lock.pinged earlier holder alive = .go phase) :
    phase.remaining < (Phase.pinging earlier holder).remaining := by
  unfold pinged at h
  split at h
  · cases h
  · cases h; cases earlier <;> simp [Phase.remaining]

theorem remaining_stolen {earlier : Option String} {holder : String}
    {answer : Except StoreError Bool} {phase : Phase}
    (h : stolen earlier holder answer = .go phase) :
    phase.remaining < (Phase.stealing earlier holder).remaining := by
  unfold stolen at h
  split at h
  · cases h
  · cases h
  · cases earlier <;> cases h <;> simp [Phase.remaining]

theorem remaining_step {lock : StackLock} {phase next : Phase} {world : σ}
    (h : (lock.step phase world).next = .go next) : next.remaining < phase.remaining := by
  cases phase with
  | creating earlier => exact remaining_created h
  | pinging earlier holder => exact remaining_pinged h
  | stealing earlier holder => exact remaining_stolen h
  | asking earlier =>
    simp only [step, asked] at h
    split at h <;> cases h

def run (lock : StackLock) (phase : Phase) (world : σ) : LockOutcome σ Unit :=
  let move := lock.step phase world
  match _h : move.next with
  | .stop result => ⟨result, move.world, [move.call], move.waited⟩
  | .go next =>
    let rest := run lock next move.world
    { rest with calls := move.call :: rest.calls, waited := move.waited + rest.waited }
termination_by phase.remaining
decreasing_by exact remaining_step _h

def acquire (lock : StackLock) (world : σ) : LockOutcome σ Unit :=
  lock.run (.creating none) world

end StackLock

end Orchestration
