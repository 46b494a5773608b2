import Orchestration.Lock.Listener
import Orchestration.Store.Interface

/-! # Contended lock stores

A lock store that other parties use too.  What they do before each call is planned beforehand: one
plan a call, for each kind of call apart.
-/

set_option autoImplicit false

namespace Orchestration

/-- What happens to the stack of a call before the call. -/
inductive Interference where
  | create (engine : String)
  | steal (old new : String)
  | release (engine : String)
  /-- Nothing more happens; a steal is answered as if the record had changed hands. -/
  | refuse
  | fail (reason : String)
  deriving DecidableEq

/-- The plans for the next calls, first one first. -/
structure InterferencePlans where
  creates : List (List Interference)
  steals : List (List Interference)
  releases : List (List Interference)
  holders : List (List Interference)

namespace InterferencePlans

def empty : InterferencePlans := ⟨[], [], [], []⟩

def beforeCreate (plan : List Interference) (plans : InterferencePlans) : InterferencePlans :=
  { plans with creates := plans.creates ++ [plan] }

def beforeSteal (plan : List Interference) (plans : InterferencePlans) : InterferencePlans :=
  { plans with steals := plans.steals ++ [plan] }

def beforeRelease (plan : List Interference) (plans : InterferencePlans) : InterferencePlans :=
  { plans with releases := plans.releases ++ [plan] }

def beforeHolder (plan : List Interference) (plans : InterferencePlans) : InterferencePlans :=
  { plans with holders := plans.holders ++ [plan] }

end InterferencePlans

namespace Interference

variable {τ : Type} [LockStore τ]

/-- Carries out a plan on one stack: tells whether the call may go ahead.  An error ends the plan
and becomes the answer of the call. -/
def carryOut (stack : String) : List Interference → τ → Except StoreError Bool × τ
  | [], store => (.ok true, store)
  | .refuse :: _, store => (.ok false, store)
  | .fail reason :: _, store => (.error (.lockFailed reason), store)
  | .create engine :: rest, store =>
    match LockStore.create stack engine store with
    | (.ok _, store) => carryOut stack rest store
    | (.error e, store) => (.error e, store)
  | .steal old new :: rest, store =>
    match LockStore.steal stack old new store with
    | (.ok _, store) => carryOut stack rest store
    | (.error e, store) => (.error e, store)
  | .release engine :: rest, store =>
    match LockStore.release stack engine store with
    | (.ok _, store) => carryOut stack rest store
    | (.error e, store) => (.error e, store)

end Interference

structure Contended (τ : Type) where
  store : τ
  plans : InterferencePlans
  engines : EngineRegistry

namespace Contended

variable {τ : Type} [LockStore τ]

def after {α : Type} (stack : String) (plan : List Interference) (refused : Option α)
    (call : τ → Except StoreError α × τ) (world : Contended τ) :
    Except StoreError α × Contended τ :=
  match Interference.carryOut stack plan world.store with
  | (.error e, store) => (.error e, { world with store := store })
  | (.ok goAhead, store) =>
    match goAhead, refused with
    | false, some answer => (.ok answer, { world with store := store })
    | _, _ =>
      let (answer, store) := call store
      (answer, { world with store := store })

instance : LockStore (Contended τ) where
  create stack engine world :=
    { world with plans := { world.plans with creates := world.plans.creates.tail } }.after stack
      (world.plans.creates.headD []) none (LockStore.create stack engine)
  steal stack old new world :=
    { world with plans := { world.plans with steals := world.plans.steals.tail } }.after stack
      (world.plans.steals.headD []) (some false) (LockStore.steal stack old new)
  release stack engine world :=
    { world with plans := { world.plans with releases := world.plans.releases.tail } }.after stack
      (world.plans.releases.headD []) none (LockStore.release stack engine)
  holder stack world :=
    { world with plans := { world.plans with holders := world.plans.holders.tail } }.after stack
      (world.plans.holders.headD []) none (LockStore.holder stack)

instance : Listener (Contended τ) where
  ping engine _ world := (world.engines.reply engine, world)

end Contended

end Orchestration
