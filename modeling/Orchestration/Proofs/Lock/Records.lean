import Mathlib.Logic.Function.Basic
import Orchestration.Lock.Guard
import Orchestration.Proofs.Entries
import Orchestration.Store.Memory

/-!
# What a call does to the lock records

A lawful store answers from the record of the stack that it is asked about and changes no other; a
call that fails changes nothing.  `StackLock.Moves` says from this all that one call of an acquire
can do to the records, and how the acquire goes on.
-/

set_option autoImplicit false

namespace Orchestration

abbrev LockRecords : Type := String → Option String

namespace LockRecords

def take (records : LockRecords) (stack engine : String) : LockRecords :=
  Function.update records stack (some engine)

@[simp] theorem take_self (records : LockRecords) (stack engine : String) :
    records.take stack engine stack = some engine :=
  Function.update_self ..

theorem take_of_ne (records : LockRecords) (stack engine other : String) (apart : other ≠ stack) :
    records.take stack engine other = records other :=
  Function.update_of_ne apart ..

/-! What the answer to a call says about the records before and after it. -/

def Create (before after : LockRecords) (stack engine : String) :
    Except StoreError (Option String) → Prop
  | .error _ => after = before
  | .ok none => before stack = none ∧ after = before.take stack engine
  | .ok (some holder) => before stack = some holder ∧ after = before

def Steal (before after : LockRecords) (stack old new : String) : Except StoreError Bool → Prop
  | .error _ => after = before
  | .ok true => before stack = some old ∧ after = before.take stack new
  | .ok false => before stack ≠ some old ∧ after = before

/-- The record that a release deletes is left open: only the others have to stay. -/
def Release (before after : LockRecords) (stack engine : String) : Except StoreError Bool → Prop
  | .error _ => after = before
  | .ok true => before stack = some engine ∧ ∀ other, other ≠ stack → after other = before other
  | .ok false => before stack ≠ some engine ∧ after = before

def Holder (before after : LockRecords) (stack : String) : Except StoreError (Option String) → Prop
  | .error _ => after = before
  | .ok found => found = before stack ∧ after = before

end LockRecords

/-- Lock stores whose answers are true of their records. -/
class LawfulLockStore (σ : Type) [LockStore σ] where
  records : σ → LockRecords
  create_spec : ∀ (stack engine : String) (store : σ),
    (records store).Create (records (LockStore.create stack engine store).2) stack engine
      (LockStore.create stack engine store).1
  steal_spec : ∀ (stack old new : String) (store : σ),
    (records store).Steal (records (LockStore.steal stack old new store).2) stack old new
      (LockStore.steal stack old new store).1
  release_spec : ∀ (stack engine : String) (store : σ),
    (records store).Release (records (LockStore.release stack engine store).2) stack engine
      (LockStore.release stack engine store).1
  holder_spec : ∀ (stack : String) (store : σ),
    (records store).Holder (records (LockStore.holder stack store).2) stack
      (LockStore.holder stack store).1

class UnfailingLockStore (σ : Type) [LockStore σ] : Prop where
  create_answers : ∀ (stack engine : String) (store : σ),
    ∃ answer, (LockStore.create stack engine store).1 = .ok answer
  steal_answers : ∀ (stack old new : String) (store : σ),
    ∃ answer, (LockStore.steal stack old new store).1 = .ok answer
  holder_answers : ∀ (stack : String) (store : σ),
    ∃ answer, (LockStore.holder stack store).1 = .ok answer

namespace MemoryStore

def records (store : MemoryStore) : LockRecords :=
  Entries.get? store.holders

theorem records_put (store : MemoryStore) (stack engine : String) :
    records { store with holders := Entries.put store.holders stack engine } =
      store.records.take stack engine := by
  funext other
  rw [records, Entries.get?_put]
  split
  · rename_i same
    rw [← same, LockRecords.take_self]
  · rename_i apart
    rw [LockRecords.take_of_ne _ _ _ _ (Ne.symm apart)]
    rfl

theorem create_spec (stack engine : String) (store : MemoryStore) :
    store.records.Create (create stack engine store).2.records stack engine
      (create stack engine store).1 := by
  unfold create
  cases held : Entries.get? store.holders stack with
  | none => exact ⟨held, records_put store stack engine⟩
  | some holder => exact ⟨held, rfl⟩

theorem steal_spec (stack old new : String) (store : MemoryStore) :
    store.records.Steal (steal stack old new store).2.records stack old new
      (steal stack old new store).1 := by
  unfold steal
  by_cases held : Entries.get? store.holders stack = some old
  · rw [if_pos held]
    exact ⟨held, records_put store stack new⟩
  · rw [if_neg held]
    exact ⟨held, rfl⟩

theorem release_spec (stack engine : String) (store : MemoryStore) :
    store.records.Release (release stack engine store).2.records stack engine
      (release stack engine store).1 := by
  unfold release
  by_cases held : Entries.get? store.holders stack = some engine
  · rw [if_pos held]
    exact ⟨held, fun other apart => Entries.get?_remove_of_ne store.holders stack other apart⟩
  · rw [if_neg held]
    exact ⟨held, rfl⟩

instance : LawfulLockStore MemoryStore where
  records := records
  create_spec := create_spec
  steal_spec := steal_spec
  release_spec := release_spec
  holder_spec _ _ := ⟨rfl, rfl⟩

instance : UnfailingLockStore MemoryStore where
  create_answers stack engine store := by
    simp only [LockStore.create, create]
    cases Entries.get? store.holders stack with
    | none => exact ⟨none, rfl⟩
    | some holder => exact ⟨some holder, rfl⟩
  steal_answers stack old new store := by
    simp only [LockStore.steal, steal]
    split
    · exact ⟨true, rfl⟩
    · exact ⟨false, rfl⟩
  holder_answers stack store := ⟨Entries.get? store.holders stack, rfl⟩

end MemoryStore

/-! ## One call of an acquire -/

/-- A store, and what comes back if an engine is pinged now. -/
structure Awaiting (σ : Type) where
  store : σ
  reply : Option PingReply

namespace Awaiting

variable {σ : Type} [LockStore σ]

def call {α : Type} (act : σ → Except StoreError α × σ) (world : Awaiting σ) :
    Except StoreError α × Awaiting σ :=
  ((act world.store).1, { world with store := (act world.store).2 })

instance : LockStore (Awaiting σ) where
  create stack engine := call (LockStore.create stack engine)
  steal stack old new := call (LockStore.steal stack old new)
  release stack engine := call (LockStore.release stack engine)
  holder stack := call (LockStore.holder stack)

instance : Listener (Awaiting σ) where
  ping _ _ world := (world.reply, world)

end Awaiting

namespace StackLock

/-- What one call of an acquire makes of the records, and how the acquire goes on.  The reply is
that to a ping, if the call is one. -/
inductive Moves (lock : StackLock) (reply : Option PingReply) (before : LockRecords) :
    Phase → Next → LockRecords → Prop where
  | failed (phase : Phase) (error : StoreError) :
    Moves lock reply before phase (.stop (.error (.store error))) before
  | created (earlier : Option String) (free : before lock.stack = none) :
    Moves lock reply before (.creating earlier) (.stop (.ok ()))
      (before.take lock.stack lock.engine)
  | own (earlier : Option String) (held : before lock.stack = some lock.engine) :
    Moves lock reply before (.creating earlier)
      (.stop (.error (lock.inProgress lock.engine))) before
  | found (earlier : Option String) (holder : String) (held : before lock.stack = some holder)
    (another : holder ≠ lock.engine) :
    Moves lock reply before (.creating earlier) (.go (.pinging earlier holder)) before
  | heard (earlier : Option String) (holder : String)
    (answered : PingReply.heard lock.pingTimeout reply = true) :
    Moves lock reply before (.pinging earlier holder)
      (.stop (.error (lock.inProgress holder))) before
  | silent (earlier : Option String) (holder : String)
    (missed : PingReply.heard lock.pingTimeout reply = false) :
    Moves lock reply before (.pinging earlier holder) (.go (.stealing earlier holder)) before
  | stolen (earlier : Option String) (holder : String) (held : before lock.stack = some holder) :
    Moves lock reply before (.stealing earlier holder) (.stop (.ok ()))
      (before.take lock.stack lock.engine)
  | refused (holder : String) (changed : before lock.stack ≠ some holder) :
    Moves lock reply before (.stealing none holder) (.go (.creating (some holder))) before
  | refusedAgain (earlier holder : String) (changed : before lock.stack ≠ some holder) :
    Moves lock reply before (.stealing (some earlier) holder) (.go (.asking holder)) before
  | named (earlier : String) :
    Moves lock reply before (.asking earlier)
      (.stop (.error (lock.inProgress ((before lock.stack).getD earlier)))) before

variable {σ : Type} [LockStore σ]

theorem step_moves [LawfulLockStore σ] (lock : StackLock) (phase : Phase) (world : Awaiting σ) :
    Moves lock world.reply (LawfulLockStore.records world.store) phase (lock.step phase world).next
      (LawfulLockStore.records (lock.step phase world).world.store) := by
  cases phase with
  | creating earlier =>
    have spec := LawfulLockStore.create_spec lock.stack lock.engine world.store
    simp only [step, LockStore.create, Awaiting.call]
    generalize LockStore.create lock.stack lock.engine world.store = answer at spec ⊢
    obtain ⟨result, after⟩ := answer
    cases result with
    | error e =>
      rw [show LawfulLockStore.records after = _ from spec]
      exact .failed _ e
    | ok found =>
      cases found with
      | none =>
        rw [spec.2]
        exact .created earlier spec.1
      | some holder =>
        rw [spec.2]
        simp only [created]
        by_cases same : holder = lock.engine
        · rw [if_pos same, same]
          exact .own earlier (same ▸ spec.1)
        · rw [if_neg same]
          exact .found earlier holder spec.1 same
  | pinging earlier holder =>
    simp only [step, Listener.ping, pinged]
    cases answered : PingReply.heard lock.pingTimeout world.reply with
    | true => exact .heard earlier holder answered
    | false => exact .silent earlier holder answered
  | stealing earlier holder =>
    have spec := LawfulLockStore.steal_spec lock.stack holder lock.engine world.store
    simp only [step, LockStore.steal, Awaiting.call]
    generalize LockStore.steal lock.stack holder lock.engine world.store = answer at spec ⊢
    obtain ⟨result, after⟩ := answer
    cases result with
    | error e =>
      rw [show LawfulLockStore.records after = _ from spec]
      exact .failed _ e
    | ok taken =>
      cases taken with
      | true =>
        rw [spec.2]
        exact .stolen earlier holder spec.1
      | false =>
        rw [spec.2]
        cases earlier with
        | none => exact .refused holder spec.1
        | some earlier => exact .refusedAgain earlier holder spec.1
  | asking earlier =>
    have spec := LawfulLockStore.holder_spec lock.stack world.store
    simp only [step, LockStore.holder, Awaiting.call]
    generalize LockStore.holder lock.stack world.store = answer at spec ⊢
    obtain ⟨result, after⟩ := answer
    cases result with
    | error e =>
      rw [show LawfulLockStore.records after = _ from spec]
      exact .failed _ e
    | ok found =>
      rw [spec.2, spec.1]
      exact .named earlier

theorem step_ne_store_error [UnfailingLockStore σ] (lock : StackLock) (phase : Phase)
    (world : Awaiting σ) (error : StoreError) :
    (lock.step phase world).next ≠ .stop (.error (.store error)) := by
  intro failed
  cases phase with
  | creating earlier =>
    obtain ⟨answer, answered⟩ :=
      UnfailingLockStore.create_answers lock.stack lock.engine world.store
    simp only [step, LockStore.create, Awaiting.call, answered] at failed
    cases answer with
    | none => cases failed
    | some holder =>
      simp only [created] at failed
      split at failed <;> cases failed
  | pinging earlier holder =>
    simp only [step, pinged] at failed
    split at failed <;> cases failed
  | stealing earlier holder =>
    obtain ⟨answer, answered⟩ :=
      UnfailingLockStore.steal_answers lock.stack holder lock.engine world.store
    simp only [step, LockStore.steal, Awaiting.call, answered] at failed
    cases answer with
    | true => cases failed
    | false => cases earlier <;> cases failed
  | asking earlier =>
    obtain ⟨answer, answered⟩ := UnfailingLockStore.holder_answers lock.stack world.store
    simp only [step, LockStore.holder, Awaiting.call, answered] at failed
    cases failed

end StackLock

end Orchestration
