import Orchestration.Lock.Guard
import Orchestration.Proofs.Lock.Tenure

/-!
# Whose tenure a release ends

A stack that was acquired is given up by the lock, or by the guard that stands for it.  Either way
the recorded engine is compared with the one of the lock, and nothing else.  So a release ends the
tenure of its own acquire, or one that the same engine acquired after the first was lost.
-/

set_option autoImplicit false

namespace Orchestration

inductive Parting where
  | lock
  | guardRelease
  | guardDrop
  deriving DecidableEq

inductive HoldingEvent where
  | call (event : LockEvent)
  /-- The stack of one acquire is given up.  An acquire has one tenure and one guard, which nobody
  can give up twice. -/
  | part (i : Nat) (way : Parting)

/-- A shared store, and the acquires whose stacks were given up. -/
structure HeldStore (σ : Type) where
  shared : SharedStore σ
  parted : List Nat

variable {σ : Type} [LockStore σ]

def StackLock.part (lock : StackLock) (way : Parting) (world : σ) : σ :=
  match way with
  | .lock => (lock.release world).world
  | .guardRelease => (lock.guard.release world).world
  | .guardDrop => (lock.guard.drop world).world

theorem StackLock.part_eq_release (lock : StackLock) (way : Parting) (world : σ) :
    lock.part way world = (LockStore.release lock.stack lock.engine world).2 := by
  cases way <;> rfl

namespace HeldStore

def start (store : σ) : HeldStore σ := ⟨⟨store, []⟩, []⟩

/-- The lock of an acquire that ended with success and was not given up. -/
def held? (state : HeldStore σ) (i : Nat) : Option StackLock :=
  match state.shared.acquires[i]? with
  | some ⟨lock, .stop (.ok ())⟩ => if i ∈ state.parted then none else some lock
  | _ => none

def step (state : HeldStore σ) : HoldingEvent → HeldStore σ
  | .call event => { state with shared := state.shared.step event }
  | .part i way =>
    match state.held? i with
    | some lock =>
      ⟨{ state.shared with store := lock.part way state.shared.store }, i :: state.parted⟩
    | none => state

def run (state : HeldStore σ) (events : List HoldingEvent) : HeldStore σ :=
  events.foldl step state

theorem run_append (state : HeldStore σ) (before after : List HoldingEvent) :
    state.run (before ++ after) = (state.run before).run after :=
  List.foldl_append ..

def call? (state : HeldStore σ) : HoldingEvent → Option LockEvent
  | .call event => some event
  | .part i _ => (state.held? i).map .release

def calls : HeldStore σ → List HoldingEvent → List LockEvent
  | _, [] => []
  | state, event :: rest => (state.call? event).toList ++ calls (state.step event) rest

theorem shared_step (state : HeldStore σ) (event : HoldingEvent) :
    (state.step event).shared = state.shared.run (state.call? event).toList := by
  cases event with
  | call event => rfl
  | part i way =>
    rw [step, call?]
    cases state.held? i with
    | none => rfl
    | some lock => cases way <;> rfl

theorem shared_run (state : HeldStore σ) (events : List HoldingEvent) :
    (state.run events).shared = state.shared.run (calls state events) := by
  induction events generalizing state with
  | nil => rfl
  | cons event rest ih =>
    rw [calls, SharedStore.run_append, ← shared_step]
    exact ih (state.step event)

def Grants (state : HeldStore σ) (event : HoldingEvent) (i : Nat) (lock : StackLock) : Prop :=
  ∃ call phase, event = .call call ∧ state.shared.Goes call i lock phase (.stop (.ok ()))

section Lawful

variable [LawfulLockStore σ]

def records (state : HeldStore σ) : LockRecords :=
  state.shared.records

def Undisturbed (stack : String) (state : HeldStore σ) (events : List HoldingEvent) : Prop :=
  state.shared.Undisturbed stack (calls state events)

/-- Some event gave the stack to the engine anew, and later ones did not change who holds it. -/
def Regained (stack engine : String) (state : HeldStore σ) (events : List HoldingEvent) : Prop :=
  state.shared.Regained stack engine (calls state events)

/-- In the events, whoever gives up the stack of an acquire changes a record only if it is the
tenure of that very acquire: nobody changed the record since the acquire ended. -/
def EndsOwnTenure (store : σ) (events : List HoldingEvent) : Prop :=
  ∀ before grant between i way after lock,
    events = before ++ grant :: between ++ .part i way :: after →
      ((start store).run before).Grants grant i lock →
        ((start store).run (before ++ grant :: between)).held? i = some lock →
          ((start store).run (before ++ grant :: between ++ [.part i way])).records ≠
              ((start store).run (before ++ grant :: between)).records →
            Undisturbed lock.stack (((start store).run before).step grant) between

/-- What giving up a stack leaves, some events after the lock acquired it: no record is changed, or
the one of that stack is cleared, and that is the tenure of the lock or a later one of its engine.
An own tenure is ended unless the store fails. -/
structure EndsOwnOrRegained (lock : StackLock) (since : HeldStore σ) (between : List HoldingEvent)
    (left : HeldStore σ) : Prop where
  clears : left.records = (since.run between).records ∨
    left.records = Function.update (since.run between).records lock.stack none ∧
      (since.run between).records lock.stack = some lock.engine ∧
      (Undisturbed lock.stack since between ∨ Regained lock.stack lock.engine since between)
  own : Undisturbed lock.stack since between → left.records lock.stack = none ∨
    ∃ e, (LockStore.release lock.stack lock.engine (since.run between).shared.store).1 = .error e

/-! ## How a held stack was acquired -/

theorem ended_or_goes (shared : SharedStore σ) (event : LockEvent) (i : Nat) (lock : StackLock)
    (ended : (shared.step event).acquires[i]? = some ⟨lock, .stop (.ok ())⟩) :
    shared.acquires[i]? = some ⟨lock, .stop (.ok ())⟩ ∨
      ∃ phase, shared.Goes event i lock phase (.stop (.ok ())) := by
  by_cases mine : event.CallOf i
  · have kept := ended
    obtain ⟨reply, rfl⟩ := mine
    rw [SharedStore.step] at ended
    rcases shared.advance_cases i reply with
      ⟨_, same⟩ | ⟨lock', phase, next, present, _, _, moved⟩
    · rw [same] at ended
      exact .inl ended
    · rw [moved, List.getElem?_set_self (List.getElem?_eq_some_iff.mp present).1] at ended
      cases ended
      exact .inr ⟨phase, ⟨reply, rfl⟩, present, kept⟩
  · rcases SharedStore.acquires_of_other shared event i _ mine ended with before | started
    · exact .inl before
    · cases started

omit [LockStore σ] [LawfulLockStore σ] in
theorem acquires_of_held (state : HeldStore σ) (i : Nat) (lock : StackLock)
    (held : state.held? i = some lock) :
    state.shared.acquires[i]? = some ⟨lock, .stop (.ok ())⟩ := by
  unfold held? at held
  split at held
  · rename_i lock' present
    split at held
    · cases held
    · cases held
      exact present
  · cases held

theorem granted_of_ended (store : σ) (events : List HoldingEvent) (i : Nat) (lock : StackLock)
    (ended : ((start store).run events).shared.acquires[i]? = some ⟨lock, .stop (.ok ())⟩) :
    ∃ before grant after, events = before ++ grant :: after ∧
      ((start store).run before).Grants grant i lock := by
  induction events using List.reverseRecOn with
  | nil => cases ended
  | append_singleton events event ih =>
    have earlier : ((start store).run events).shared.acquires[i]? =
        some ⟨lock, .stop (.ok ())⟩ →
        ∃ before grant after, events ++ [event] = before ++ grant :: after ∧
          ((start store).run before).Grants grant i lock := by
      intro present
      obtain ⟨before, grant, after, rfl, grants⟩ := ih present
      exact ⟨before, grant, after ++ [event], by simp, grants⟩
    rw [run_append] at ended
    cases event with
    | call call =>
      rcases ended_or_goes _ call i lock ended with present | ⟨phase, goes⟩
      · exact earlier present
      · exact ⟨events, .call call, [], rfl, call, phase, rfl, goes⟩
    | part j way =>
      apply earlier
      change (step _ (.part j way)).shared.acquires[i]? = _ at ended
      rw [step] at ended
      split at ended <;> exact ended

/-! ## What giving up does -/

section Orderly

variable [OrderlyLockStore σ]

theorem records_of_part (state : HeldStore σ) (i : Nat) (way : Parting) (lock : StackLock)
    (orderly : state.shared.Orderly) (held : state.held? i = some lock) :
    (state.step (.part i way)).records = state.records ∧
        (state.records lock.stack = some lock.engine →
          ∃ e, (LockStore.release lock.stack lock.engine state.shared.store).1 = .error e) ∨
      (state.step (.part i way)).records = Function.update state.records lock.stack none ∧
        state.records lock.stack = some lock.engine := by
  have spec := LawfulLockStore.release_spec lock.stack lock.engine state.shared.store
  have clears := OrderlyLockStore.release_clears lock.stack lock.engine state.shared.store orderly
  have after : (state.step (.part i way)).records = LawfulLockStore.records
      (LockStore.release lock.stack lock.engine state.shared.store).2 := by
    rw [step, held]
    exact congrArg LawfulLockStore.records (lock.part_eq_release way state.shared.store)
  rw [after]
  generalize LockStore.release lock.stack lock.engine state.shared.store = answer at *
  obtain ⟨answer, left⟩ := answer
  cases answer with
  | error e => exact .inl ⟨spec, fun _ => ⟨e, rfl⟩⟩
  | ok released =>
    cases released with
    | false => exact .inl ⟨spec.2, fun mine => absurd mine spec.1⟩
    | true =>
      refine .inr ⟨?_, spec.1⟩
      funext other
      by_cases same : other = lock.stack
      · subst same
        rw [Function.update_self]
        exact clears rfl
      · rw [Function.update_of_ne same]
        exact spec.2 other same

theorem endsOwnOrRegained_of_part (since : HeldStore σ) (between : List HoldingEvent) (i : Nat)
    (way : Parting) (lock : StackLock) (orderly : since.shared.Orderly)
    (granted : since.records lock.stack = some lock.engine)
    (held : (since.run between).held? i = some lock) :
    EndsOwnOrRegained lock since between ((since.run between).step (.part i way)) := by
  have orderlyNow : (since.run between).shared.Orderly := by
    rw [shared_run]
    exact SharedStore.orderly_run _ _ orderly
  have now : (since.run between).records = (since.shared.run (calls since between)).records := by
    rw [records, shared_run]
  have parted := records_of_part (since.run between) i way lock orderlyNow held
  constructor
  · rcases parted with ⟨same, _⟩ | ⟨cleared, mine⟩
    · exact .inl same
    · refine .inr ⟨cleared, mine, ?_⟩
      rw [now] at mine
      exact SharedStore.undisturbed_or_regained _ _ lock.stack lock.engine orderly mine
  · intro calm
    have mine : (since.run between).records lock.stack = some lock.engine := by
      rw [now, SharedStore.records_of_undisturbed _ _ _ calm]
      exact granted
    rcases parted with ⟨_, failed⟩ | ⟨cleared, _⟩
    · exact .inr (failed mine)
    · exact .inl (by rw [cleared, Function.update_self])

/-- Whoever gives up an acquired stack changes no record, or clears the record of that stack.  The
cleared tenure is the one of that acquire, or a later one of the same engine. -/
theorem release_ends_own_or_regained (store : σ) (orderly : OrderlyLockStore.Orderly store)
    (events : List HoldingEvent) (i : Nat) (lock : StackLock)
    (held : ((start store).run events).held? i = some lock) :
    ∃ before grant between, events = before ++ grant :: between ∧
      ((start store).run before).Grants grant i lock ∧
      ∀ way, EndsOwnOrRegained lock (((start store).run before).step grant) between
        (((start store).run events).step (.part i way)) := by
  obtain ⟨before, grant, between, rfl, grants⟩ :=
    granted_of_ended store events i lock (acquires_of_held _ i lock held)
  refine ⟨before, grant, between, rfl, grants, fun way => ?_⟩
  rw [run_append] at held ⊢
  have orderlySince : (((start store).run before).step grant).shared.Orderly := by
    rw [shared_step, shared_run]
    exact SharedStore.orderly_run _ _ (SharedStore.orderly_run _ _ orderly)
  obtain ⟨call, phase, rfl, ⟨reply, rfl⟩, present, ended⟩ := grants
  exact endsOwnOrRegained_of_part _ between i way lock orderlySince
    (SharedStore.records_of_grants _ _ lock ⟨i, reply, phase, rfl, present, ended⟩) held

end Orderly

end Lawful

/-- Green steals the stack from blue, and gives it up.  Blue acquires it anew, and then drops the
guard of its first acquire. -/
def droppedAfterReturn : List HoldingEvent :=
  [.call (.start ⟨"app", "blue", 2000⟩), .call (.advance 0 none),
    .call (.start ⟨"app", "green", 2000⟩), .call (.advance 1 none), .call (.advance 1 none),
    .call (.advance 1 none), .part 1 .guardDrop, .call (.start ⟨"app", "blue", 2000⟩),
    .call (.advance 2 none), .part 0 .guardDrop]

theorem drop_after_return :
    ((start MemoryStore.empty).run (droppedAfterReturn.take 9)).held? 0 =
        some ⟨"app", "blue", 2000⟩ ∧
      ∃ before grant between, droppedAfterReturn.take 9 = before ++ grant :: between ∧
        ((start MemoryStore.empty).run before).Grants grant 0 ⟨"app", "blue", 2000⟩ ∧
        ∀ way, EndsOwnOrRegained ⟨"app", "blue", 2000⟩
          (((start MemoryStore.empty).run before).step grant) between
          (((start MemoryStore.empty).run (droppedAfterReturn.take 9)).step (.part 0 way)) := by
  have held : ((start MemoryStore.empty).run (droppedAfterReturn.take 9)).held? 0 =
      some ⟨"app", "blue", 2000⟩ := rfl
  exact ⟨held, release_ends_own_or_regained MemoryStore.empty List.nodup_nil _ 0 _ held⟩

/-- A guard can end a tenure that began after its own was lost. -/
theorem not_endsOwnTenure_of_return :
    ¬EndsOwnTenure MemoryStore.empty droppedAfterReturn := by
  intro owns
  have granted : ((start MemoryStore.empty).run (droppedAfterReturn.take 1)).Grants
      (.call (.advance 0 none)) 0 ⟨"app", "blue", 2000⟩ :=
    ⟨.advance 0 none, .creating none, rfl, ⟨none, rfl⟩, rfl, rfl⟩
  have ended : ((start MemoryStore.empty).run droppedAfterReturn).records ≠
      ((start MemoryStore.empty).run (droppedAfterReturn.take 9)).records := by
    intro same
    exact absurd (congrFun same "app") (by decide)
  have calm := owns _ _ ((droppedAfterReturn.drop 2).take 7) _ _ [] _ rfl granted rfl ended
  have listed : calls (((start MemoryStore.empty).run (droppedAfterReturn.take 1)).step
      (.call (.advance 0 none))) ((droppedAfterReturn.drop 2).take 7) =
        [.start ⟨"app", "green", 2000⟩, .advance 1 none, .advance 1 none, .advance 1 none,
          .release ⟨"app", "green", 2000⟩, .start ⟨"app", "blue", 2000⟩, .advance 2 none] := rfl
  rw [Undisturbed, listed] at calm
  exact absurd calm.2.2.2.1 (by decide)

end HeldStore

end Orchestration
