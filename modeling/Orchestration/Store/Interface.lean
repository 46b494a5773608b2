import Orchestration.Store.Error
import Orchestration.Watch.Record

/-! # Stores

What a store of lock records and a store of watch rules can do.  Every operation gives an answer or
an error and the store afterwards.
-/

set_option autoImplicit false

namespace Orchestration

class LockStore (σ : Type) where
  /-- Binds a stack to an engine if nobody holds it; otherwise tells who does. -/
  create : (stack engine : String) → σ → Except StoreError (Option String) × σ
  /-- Moves a record from one engine to another if the first still holds it. -/
  steal : (stack old new : String) → σ → Except StoreError Bool × σ
  /-- Deletes a record if the engine holds it. -/
  release : (stack engine : String) → σ → Except StoreError Bool × σ
  /-- The engine that holds a stack. -/
  holder : (stack : String) → σ → Except StoreError (Option String) × σ

class WatchStore (σ : Type) where
  getRule : (name : String) → σ → Except StoreError Watch.Record
  putRule : Watch.Record → σ → Except StoreError Unit × σ
  /-- Deletes a rule with its data; tells whether there was one. -/
  deleteRule : (name : String) → σ → Except StoreError Bool × σ
  /-- The rules of one stack, or all of them, in the order of their names. -/
  listRules : (stack : Option String) → σ → Except StoreError (List Watch.Record)
  appendData : (name : String) → Watch.Point → σ → Except StoreError Unit × σ
  /-- The data points of a rule, oldest first. -/
  listData : (name : String) → σ → Except StoreError (List Watch.Point)

def belongsTo (stack : Option String) (record : Watch.Record) : Bool :=
  match stack with
  | none => true
  | some stack => record.stackId == some stack

end Orchestration
