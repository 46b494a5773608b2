import Orchestration.Proofs.Lock.Records

/-!
# Requests to a lock store

A request is one call to a lock store as a value.  Every lawful store that is orderly, so that a
release leaves no record behind, answers a request as its records say and changes them in one way.
-/

set_option autoImplicit false

namespace Orchestration

inductive LockRequest where
  | create (stack engine : String)
  | steal (stack old new : String)
  | release (stack engine : String)
  | holder (stack : String)
  deriving DecidableEq

/-- The answer to a request: an engine if there is one, or whether something was done. -/
inductive LockReply where
  | engine (found : Option String)
  | done (done : Bool)
  deriving DecidableEq

namespace LockRequest

def stack : LockRequest → String
  | .create stack _ => stack
  | .steal stack _ _ => stack
  | .release stack _ => stack
  | .holder stack => stack

variable {σ : Type} [LockStore σ]

def perform (request : LockRequest) (store : σ) : Except StoreError LockReply × σ :=
  match request with
  | .create stack engine =>
    let (answer, store) := LockStore.create stack engine store
    (answer.map .engine, store)
  | .steal stack old new =>
    let (answer, store) := LockStore.steal stack old new store
    (answer.map .done, store)
  | .release stack engine =>
    let (answer, store) := LockStore.release stack engine store
    (answer.map .done, store)
  | .holder stack =>
    let (answer, store) := LockStore.holder stack store
    (answer.map .engine, store)

end LockRequest

/-! ## What the records say -/

namespace LockRecords

def clear (records : LockRecords) (stack : String) : LockRecords :=
  Function.update records stack none

@[simp] theorem clear_self (records : LockRecords) (stack : String) :
    records.clear stack stack = none :=
  Function.update_self ..

theorem clear_of_ne (records : LockRecords) (stack other : String) (apart : other ≠ stack) :
    records.clear stack other = records other :=
  Function.update_of_ne apart ..

def reply (records : LockRecords) : LockRequest → LockReply
  | .create stack _ => .engine (records stack)
  | .steal stack old _ => .done (records stack = some old)
  | .release stack engine => .done (records stack = some engine)
  | .holder stack => .engine (records stack)

def after (records : LockRecords) : LockRequest → LockRecords
  | .create stack engine => if records stack = none then records.take stack engine else records
  | .steal stack old new => if records stack = some old then records.take stack new else records
  | .release stack engine => if records stack = some engine then records.clear stack else records
  | .holder _ => records

end LockRecords

/-- Lock stores in which a released stack has no record, as long as they are in order. -/
class OrderlyLockStore (σ : Type) [LockStore σ] [LawfulLockStore σ] where
  Orderly : σ → Prop
  orderly_perform : ∀ (request : LockRequest) (store : σ),
    Orderly store → Orderly (request.perform store).2
  release_clears : ∀ (stack engine : String) (store : σ), Orderly store →
    (LockStore.release stack engine store).1 = .ok true →
      LawfulLockStore.records (LockStore.release stack engine store).2 stack = none

section Perform

variable {σ : Type} [LockStore σ] [LawfulLockStore σ]

theorem LockRequest.records_of_error (request : LockRequest) (store : σ) (error : StoreError)
    (failed : (request.perform store).1 = .error error) :
    LawfulLockStore.records (request.perform store).2 = LawfulLockStore.records store := by
  cases request with
  | create stack engine =>
    have spec := LawfulLockStore.create_spec stack engine store
    simp only [perform] at failed ⊢
    cases answer : (LockStore.create stack engine store).1 with
    | error e => rwa [answer] at spec
    | ok found => rw [answer] at failed; cases failed
  | steal stack old new =>
    have spec := LawfulLockStore.steal_spec stack old new store
    simp only [perform] at failed ⊢
    cases answer : (LockStore.steal stack old new store).1 with
    | error e => rwa [answer] at spec
    | ok taken => rw [answer] at failed; cases failed
  | release stack engine =>
    have spec := LawfulLockStore.release_spec stack engine store
    simp only [perform] at failed ⊢
    cases answer : (LockStore.release stack engine store).1 with
    | error e => rwa [answer] at spec
    | ok released => rw [answer] at failed; cases failed
  | holder stack =>
    have spec := LawfulLockStore.holder_spec stack store
    simp only [perform] at failed ⊢
    cases answer : (LockStore.holder stack store).1 with
    | error e => rwa [answer] at spec
    | ok found => rw [answer] at failed; cases failed

theorem LockRequest.perform_of_ok [OrderlyLockStore σ] (request : LockRequest) (store : σ)
    (orderly : OrderlyLockStore.Orderly store) (reply : LockReply)
    (answered : (request.perform store).1 = .ok reply) :
    reply = (LawfulLockStore.records store).reply request ∧
      LawfulLockStore.records (request.perform store).2 =
        (LawfulLockStore.records store).after request := by
  cases request with
  | create stack engine =>
    have spec := LawfulLockStore.create_spec stack engine store
    simp only [perform] at answered ⊢
    cases answer : (LockStore.create stack engine store).1 with
    | error e => rw [answer] at answered; cases answered
    | ok found =>
      rw [answer] at answered spec
      cases answered
      cases found with
      | none => simp [LockRecords.reply, LockRecords.after, spec.1, spec.2]
      | some holder => simp [LockRecords.reply, LockRecords.after, spec.1, spec.2]
  | steal stack old new =>
    have spec := LawfulLockStore.steal_spec stack old new store
    simp only [perform] at answered ⊢
    cases answer : (LockStore.steal stack old new store).1 with
    | error e => rw [answer] at answered; cases answered
    | ok taken =>
      rw [answer] at answered spec
      cases answered
      cases taken with
      | true => simp [LockRecords.reply, LockRecords.after, spec.1, spec.2]
      | false => simp [LockRecords.reply, LockRecords.after, spec.1, spec.2]
  | release stack engine =>
    have spec := LawfulLockStore.release_spec stack engine store
    have clears := OrderlyLockStore.release_clears stack engine store orderly
    simp only [perform] at answered ⊢
    cases answer : (LockStore.release stack engine store).1 with
    | error e => rw [answer] at answered; cases answered
    | ok released =>
      rw [answer] at answered spec clears
      cases answered
      cases released with
      | true =>
        refine ⟨by simp [LockRecords.reply, spec.1], ?_⟩
        rw [LockRecords.after, if_pos spec.1]
        funext other
        by_cases same : other = stack
        · rw [same, clears rfl, LockRecords.clear_self]
        · rw [spec.2 other same, LockRecords.clear_of_ne _ _ _ same]
      | false => simp [LockRecords.reply, LockRecords.after, spec.1, spec.2]
  | holder stack =>
    have spec := LawfulLockStore.holder_spec stack store
    simp only [perform] at answered ⊢
    cases answer : (LockStore.holder stack store).1 with
    | error e => rw [answer] at answered; cases answered
    | ok found =>
      rw [answer] at answered spec
      cases answered
      exact ⟨by rw [LockRecords.reply, spec.1], by rw [LockRecords.after, spec.2]⟩

end Perform

/-! ## Memory stores -/

namespace MemoryStore

theorem distinct_perform (request : LockRequest) (store : MemoryStore)
    (distinct : Entries.Distinct store.holders) :
    Entries.Distinct (request.perform store).2.holders := by
  cases request with
  | create stack engine =>
    simp only [LockRequest.perform, LockStore.create, create]
    split
    · exact distinct
    · exact Entries.distinct_put distinct stack engine
  | steal stack old new =>
    simp only [LockRequest.perform, LockStore.steal, steal]
    split
    · exact Entries.distinct_put distinct stack new
    · exact distinct
  | release stack engine =>
    simp only [LockRequest.perform, LockStore.release, release]
    split
    · exact Entries.distinct_remove store.holders distinct stack
    · exact distinct
  | holder stack => exact distinct

instance : OrderlyLockStore MemoryStore where
  Orderly store := Entries.Distinct store.holders
  orderly_perform := distinct_perform
  release_clears stack engine store distinct released := by
    simp only [LockStore.release, release] at released ⊢
    split at released
    · rename_i held
      rw [if_pos held]
      exact Entries.get?_remove_self store.holders distinct stack
    · cases released

end MemoryStore

end Orchestration
