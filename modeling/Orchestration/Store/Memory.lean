import Orchestration.Store.Interface

/-! # Stores in memory

Lock records and watch rules as plain values.  Every name is accepted.
-/

set_option autoImplicit false

namespace Orchestration

structure MemoryStore where
  holders : Entries String
  /-- Each rule with its data points in the order of appending, sorted by name. -/
  rules : Entries (Watch.Record × List Watch.Point)

namespace MemoryStore

def empty : MemoryStore := ⟨[], []⟩

def create (stack engine : String) (store : MemoryStore) :
    Except StoreError (Option String) × MemoryStore :=
  match Entries.get? store.holders stack with
  | some holder => (.ok (some holder), store)
  | none => (.ok none, { store with holders := Entries.put store.holders stack engine })

def steal (stack old new : String) (store : MemoryStore) : Except StoreError Bool × MemoryStore :=
  if Entries.get? store.holders stack = some old then
    (.ok true, { store with holders := Entries.put store.holders stack new })
  else (.ok false, store)

def release (stack engine : String) (store : MemoryStore) : Except StoreError Bool × MemoryStore :=
  if Entries.get? store.holders stack = some engine then
    (.ok true, { store with holders := Entries.remove store.holders stack })
  else (.ok false, store)

instance : LockStore MemoryStore where
  create := create
  steal := steal
  release := release
  holder stack store := (.ok (Entries.get? store.holders stack), store)

def rule? (store : MemoryStore) (name : String) :
    Except StoreError (Watch.Record × List Watch.Point) :=
  match Entries.get? store.rules name with
  | some rule => .ok rule
  | none => .error (.watchNotFound name)

/-- Stores a record; the data points of the rule stay. -/
def putRule (record : Watch.Record) (store : MemoryStore) : Except StoreError Unit × MemoryStore :=
  let points := ((Entries.get? store.rules record.name).map Prod.snd).getD []
  (.ok (), { store with rules := Entries.insert store.rules record.name (record, points) })

def deleteRule (name : String) (store : MemoryStore) : Except StoreError Bool × MemoryStore :=
  (.ok (Entries.has store.rules name), { store with rules := Entries.remove store.rules name })

def appendData (name : String) (point : Watch.Point) (store : MemoryStore) :
    Except StoreError Unit × MemoryStore :=
  match store.rule? name with
  | .error e => (.error e, store)
  | .ok (record, points) =>
    (.ok (), { store with rules := Entries.insert store.rules name (record, points ++ [point]) })

instance : WatchStore MemoryStore where
  getRule name store := (store.rule? name).map Prod.fst
  putRule := putRule
  deleteRule := deleteRule
  listRules stack store :=
    .ok ((store.rules.map fun entry => entry.2.1).filter (belongsTo stack))
  appendData := appendData
  listData name store := (store.rule? name).map fun rule => Watch.Point.inOrder rule.2

end MemoryStore

end Orchestration
