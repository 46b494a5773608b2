import Mathlib.Control.Monad.Basic
import Orchestration.Proofs.Lock.Requests

/-!
# One acquire among the requests of others

Between two store calls of an acquire other parties may send any requests to the store, and a call
of the acquire may fail.  All calls but a last one that takes the stack leave the store as it is, so
an acquire that fails is as if it had never been made.
-/

set_option autoImplicit false

namespace Orchestration

namespace LockRequest

variable {σ : Type} [LockStore σ]

def performAll (requests : List LockRequest) (store : σ) : σ :=
  requests.foldl (fun store request => (request.perform store).2) store

theorem performAll_append (early late : List LockRequest) (store : σ) :
    performAll (early ++ late) store = performAll late (performAll early store) :=
  List.foldl_append ..

end LockRequest

/-- What other parties do before a call to the store, and the error that the call meets, if any. -/
structure Interruption where
  acts : List LockRequest
  failure : Option StoreError

structure StoreCall (σ : Type) where
  before : σ
  after : σ

/-- A store that other parties use as well.  The interruptions and the replies to pings are those to
come, first one first; the calls are those that were made. -/
structure Disturbed (σ : Type) where
  store : σ
  ahead : List Interruption
  replies : List (Option PingReply)
  calls : List (StoreCall σ)

namespace Disturbed

variable {σ : Type} [LockStore σ]

def interruption (world : Disturbed σ) : Interruption :=
  world.ahead.headD ⟨[], none⟩

def reached (world : Disturbed σ) : σ :=
  LockRequest.performAll world.interruption.acts world.store

def made (world : Disturbed σ) (after : σ) : Disturbed σ :=
  ⟨after, world.ahead.tail, world.replies, world.calls ++ [⟨world.reached, after⟩]⟩

def call {α : Type} (act : σ → Except StoreError α × σ) (world : Disturbed σ) :
    Except StoreError α × Disturbed σ :=
  match world.interruption.failure with
  | some error => (.error error, world.made world.reached)
  | none =>
    let (answer, after) := act world.reached
    (answer, world.made after)

instance : LockStore (Disturbed σ) where
  create stack engine := call (LockStore.create stack engine)
  steal stack old new := call (LockStore.steal stack old new)
  release stack engine := call (LockStore.release stack engine)
  holder stack := call (LockStore.holder stack)

instance : Listener (Disturbed σ) where
  ping _ _ world := (world.replies.headD none, { world with replies := world.replies.tail })

end Disturbed

/-- Lock stores that stay as they are when a call takes nothing. -/
class StillLockStore (σ : Type) [LockStore σ] : Prop where
  create_still : ∀ (stack engine : String) (store : σ),
    (LockStore.create stack engine store).1 ≠ .ok none →
      (LockStore.create stack engine store).2 = store
  steal_still : ∀ (stack old new : String) (store : σ),
    (LockStore.steal stack old new store).1 ≠ .ok true →
      (LockStore.steal stack old new store).2 = store
  holder_still : ∀ (stack : String) (store : σ), (LockStore.holder stack store).2 = store

instance : StillLockStore MemoryStore where
  create_still stack engine store taken := by
    simp only [LockStore.create, MemoryStore.create] at taken ⊢
    split
    · rfl
    · rename_i free
      rw [free] at taken
      exact absurd rfl taken
  steal_still stack old new store taken := by
    simp only [LockStore.steal, MemoryStore.steal] at taken ⊢
    split
    · rename_i held
      rw [if_pos held] at taken
      exact absurd rfl taken
    · rfl
  holder_still _ _ := rfl

namespace StackLock

def Phase.names : Phase → List String
  | .creating earlier => earlier.toList
  | .pinging earlier holder => holder :: earlier.toList
  | .stealing earlier holder => holder :: earlier.toList
  | .asking earlier => [earlier]

section Acquire

variable {σ : Type} [LockStore σ] [LawfulLockStore σ]

def HeldDuring (lock : StackLock) (calls : List (StoreCall σ)) (engine : String) : Prop :=
  ∃ call ∈ calls, LawfulLockStore.records call.before lock.stack = some engine

/-- An acquire that is not at its end, of a store as it was and the interruptions from then on:
its calls did nothing so far, and it remembers only engines that held the stack. -/
structure Underway (lock : StackLock) (start : σ) (ahead : List Interruption) (phase : Phase)
    (world : Disturbed σ) : Prop where
  idle : ∀ call ∈ world.calls, call.after = call.before
  left : world.ahead = ahead.drop world.calls.length
  store : world.store =
    LockRequest.performAll ((ahead.take world.calls.length).flatMap (·.acts)) start
  known : ∀ engine ∈ phase.names, lock.HeldDuring world.calls engine

/-- All or nothing: only the last call can change the store.  It does if the acquire succeeds, and
then the engine holds the stack; else the store is what the other parties made of it. -/
structure AllOrNothing (lock : StackLock) (start : σ) (ahead : List Interruption)
    (outcome : LockOutcome (Disturbed σ) Unit) : Prop where
  only_last : ∀ call ∈ outcome.world.calls.dropLast, call.after = call.before
  taken : outcome.result = .ok () → ∃ last, outcome.world.calls.getLast? = some last ∧
    last.after = outcome.world.store ∧
    LawfulLockStore.records last.after lock.stack = some lock.engine
  nothing : ∀ failure, outcome.result = .error failure →
    (∀ call ∈ outcome.world.calls, call.after = call.before) ∧
      outcome.world.store =
        LockRequest.performAll ((ahead.take outcome.world.calls.length).flatMap (·.acts)) start
  elsewhere : ∀ call ∈ outcome.world.calls, ∀ stack, stack ≠ lock.stack →
    LawfulLockStore.records call.after stack = LawfulLockStore.records call.before stack
  named : ∀ stack engine, outcome.result = .error (.actionInProgress stack engine) →
    stack = lock.stack ∧ lock.HeldDuring outcome.world.calls engine

theorem HeldDuring.more {lock : StackLock} {calls : List (StoreCall σ)} {engine : String}
    (held : lock.HeldDuring calls engine) (call : StoreCall σ) :
    lock.HeldDuring (calls ++ [call]) engine := by
  obtain ⟨earlier, member, found⟩ := held
  exact ⟨earlier, List.mem_append_left _ member, found⟩

theorem names_of_moves (lock : StackLock) (reply : Option PingReply) (before after : LockRecords)
    (phase : Phase) (next : Next) (moves : lock.Moves reply before phase next after) :
    (∀ later, next = .go later → ∀ engine ∈ later.names,
        engine ∈ phase.names ∨ before lock.stack = some engine) ∧
      ∀ stack engine, next = .stop (.error (.actionInProgress stack engine)) →
        stack = lock.stack ∧ (engine ∈ phase.names ∨ before lock.stack = some engine) := by
  cases moves with
  | failed error | created free | stolen earlier holder held =>
    exact ⟨by rintro _ ⟨⟩, by rintro _ _ ⟨⟩⟩
  | own earlier held =>
    refine ⟨by rintro _ ⟨⟩, ?_⟩
    rintro _ _ ⟨⟩
    exact ⟨rfl, .inr held⟩
  | found earlier holder held another =>
    refine ⟨?_, by rintro _ _ ⟨⟩⟩
    rintro _ ⟨⟩ engine member
    rcases List.mem_cons.mp member with rfl | known
    · exact .inr held
    · exact .inl known
  | heard earlier holder answered =>
    refine ⟨by rintro _ ⟨⟩, ?_⟩
    rintro _ _ ⟨⟩
    exact ⟨rfl, .inl (List.mem_cons_self ..)⟩
  | silent earlier holder missed =>
    refine ⟨?_, by rintro _ _ ⟨⟩⟩
    rintro _ ⟨⟩ engine member
    exact .inl member
  | refused holder changed | refusedAgain earlier holder changed =>
    refine ⟨?_, by rintro _ _ ⟨⟩⟩
    rintro _ ⟨⟩ engine member
    rw [List.mem_singleton.mp member]
    exact .inl (List.mem_cons_self ..)
  | named earlier =>
    refine ⟨by rintro _ ⟨⟩, ?_⟩
    intro stack engine ended
    cases ended
    refine ⟨rfl, ?_⟩
    cases before lock.stack with
    | none => exact .inl (List.mem_singleton.mpr rfl)
    | some holder => exact .inr rfl

theorem Underway.reached {lock : StackLock} {start : σ} {ahead : List Interruption} {phase : Phase}
    {world : Disturbed σ} (underway : lock.Underway start ahead phase world) :
    world.reached =
      LockRequest.performAll ((ahead.take (world.calls.length + 1)).flatMap (·.acts)) start := by
  have next : ahead[world.calls.length]? = world.ahead.head? := by
    rw [underway.left, List.head?_drop]
  rw [List.take_add_one, next, List.flatMap_append, LockRequest.performAll_append, ← underway.store,
    Disturbed.reached, Disturbed.interruption, List.headD_eq_head?_getD]
  cases world.ahead.head? with
  | none => rfl
  | some interruption => simp

theorem Underway.failed {lock : StackLock} {start : σ} {ahead : List Interruption} {phase : Phase}
    {world : Disturbed σ} (underway : lock.Underway start ahead phase world) (holder : String)
    (known : holder ∈ phase.names) (outcome : LockOutcome (Disturbed σ) Unit)
    (ended : outcome.result = .error (lock.inProgress holder))
    (store : outcome.world.store = world.store) (calls : outcome.world.calls = world.calls) :
    lock.AllOrNothing start ahead outcome := by
  refine ⟨?_, ?_, ?_, ?_, ?_⟩
  · rw [calls]
    exact fun call member => underway.idle call (List.dropLast_subset _ member)
  · rw [ended]
    rintro ⟨⟩
  · rw [calls, store]
    exact fun _ _ => ⟨underway.idle, underway.store⟩
  · rw [calls]
    intro call member stack _
    rw [underway.idle call member]
  · rw [ended, calls]
    rintro stack engine ⟨⟩
    exact ⟨rfl, underway.known _ known⟩

variable [StillLockStore σ]

/-- A step pings, or makes a call after an interruption: the call makes a move, and it leaves the
store as it is unless the acquire succeeds with it. -/
theorem step_disturbed (lock : StackLock) (phase : Phase) (world : Disturbed σ) :
    (∃ earlier holder, phase = .pinging earlier holder ∧
        (lock.step phase world).world = { world with replies := world.replies.tail } ∧
        ((lock.step phase world).next = .go (.stealing earlier holder) ∨
          (lock.step phase world).next = .stop (.error (lock.inProgress holder)))) ∨
      ∃ after, (lock.step phase world).world = world.made after ∧
        lock.Moves none (LawfulLockStore.records world.reached) phase (lock.step phase world).next
          (LawfulLockStore.records after) ∧
        ((lock.step phase world).next ≠ .stop (.ok ()) → after = world.reached) := by
  have moves := lock.step_moves phase (⟨world.reached, none⟩ : Awaiting σ)
  cases phase with
  | creating earlier =>
    refine .inr ?_
    have still := StillLockStore.create_still lock.stack lock.engine world.reached
    simp only [step, LockStore.create, Disturbed.call, Awaiting.call] at moves ⊢
    cases world.interruption.failure with
    | some error => exact ⟨_, rfl, .failed _ error, fun _ => rfl⟩
    | none =>
      refine ⟨_, rfl, moves, fun failed => still fun free => failed ?_⟩
      rw [free]
      rfl
  | pinging earlier holder =>
    refine .inl ⟨earlier, holder, rfl, rfl, ?_⟩
    simp only [step, pinged]
    split
    · exact .inr rfl
    · exact .inl rfl
  | stealing earlier holder =>
    refine .inr ?_
    have still := StillLockStore.steal_still lock.stack holder lock.engine world.reached
    simp only [step, LockStore.steal, Disturbed.call, Awaiting.call] at moves ⊢
    cases world.interruption.failure with
    | some error => exact ⟨_, rfl, .failed _ error, fun _ => rfl⟩
    | none =>
      refine ⟨_, rfl, moves, fun failed => still fun taken => failed ?_⟩
      rw [taken]
      rfl
  | asking earlier =>
    refine .inr ?_
    have still := StillLockStore.holder_still lock.stack world.reached
    simp only [step, LockStore.holder, Disturbed.call, Awaiting.call] at moves ⊢
    cases world.interruption.failure with
    | some error => exact ⟨_, rfl, .failed _ error, fun _ => rfl⟩
    | none => exact ⟨_, rfl, moves, fun _ => still⟩

theorem underway_step (lock : StackLock) (start : σ) (ahead : List Interruption)
    (phase later : Phase) (world : Disturbed σ) (underway : lock.Underway start ahead phase world)
    (going : (lock.step phase world).next = .go later) :
    lock.Underway start ahead later (lock.step phase world).world := by
  rcases lock.step_disturbed phase world with
    ⟨earlier, holder, rfl, same, missed | heard⟩ | ⟨after, made, moves, still⟩
  · rw [same]
    rw [missed] at going
    cases going
    exact ⟨underway.idle, underway.left, underway.store, underway.known⟩
  · rw [heard] at going
    cases going
  · have kept : after = world.reached := still (by rw [going]; rintro ⟨⟩)
    subst kept
    rw [made]
    refine ⟨?_, ?_, ?_, fun engine member => ?_⟩
    · intro call member
      rcases List.mem_append.mp member with earlier | last
      · exact underway.idle call earlier
      · rw [List.mem_singleton.mp last]
    · simp only [Disturbed.made, underway.left, List.length_append, List.length_singleton,
        List.tail_drop]
    · simpa only [Disturbed.made, List.length_append, List.length_singleton] using underway.reached
    · rcases (lock.names_of_moves _ _ _ _ _ moves).1 later going engine member with known | held
      · exact (underway.known engine known).more _
      · exact ⟨_, List.mem_append_right _ (List.mem_singleton_self _), held⟩

theorem allOrNothing_of_stop (lock : StackLock) (start : σ) (ahead : List Interruption)
    (phase : Phase) (world : Disturbed σ) (underway : lock.Underway start ahead phase world)
    (outcome : LockOutcome (Disturbed σ) Unit)
    (ended : (lock.step phase world).next = .stop outcome.result)
    (left : outcome.world = (lock.step phase world).world) :
    lock.AllOrNothing start ahead outcome := by
  rcases lock.step_disturbed phase world with
    ⟨earlier, holder, rfl, same, missed | heard⟩ | ⟨after, made, moves, still⟩
  · rw [missed] at ended
    cases ended
  · rw [heard] at ended
    have result : outcome.result = .error (lock.inProgress holder) := (Next.stop.inj ended).symm
    exact underway.failed holder (List.mem_cons_self ..) outcome result (by rw [left, same])
      (by rw [left, same])
  · have calls : outcome.world.calls = world.calls ++ [⟨world.reached, after⟩] := by
      rw [left, made]
      rfl
    have store : outcome.world.store = after := by
      rw [left, made]
      rfl
    rw [ended] at moves still
    refine ⟨?_, ?_, ?_, ?_, ?_⟩
    · rw [calls, List.dropLast_concat]
      exact underway.idle
    · intro succeeded
      rw [succeeded] at moves
      refine ⟨⟨world.reached, after⟩, by rw [calls, List.getLast?_concat], store.symm, ?_⟩
      generalize LawfulLockStore.records after = records at moves ⊢
      cases moves with
      | created earlier free => exact LockRecords.take_self ..
      | stolen earlier holder held => exact LockRecords.take_self ..
    · intro failure failed
      have kept : after = world.reached := still (by rw [failed]; rintro ⟨⟩)
      subst kept
      rw [calls, store]
      refine ⟨?_, by simpa using underway.reached⟩
      intro call member
      rcases List.mem_append.mp member with earlier | last
      · exact underway.idle call earlier
      · rw [List.mem_singleton.mp last]
    · rw [calls]
      intro call member stack elsewhere
      rcases List.mem_append.mp member with earlier | last
      · rw [underway.idle call earlier]
      · rw [List.mem_singleton.mp last]
        generalize LawfulLockStore.records after = records at moves ⊢
        generalize outcome.result = result at moves
        cases moves with
        | created earlier free => exact LockRecords.take_of_ne _ _ _ _ elsewhere
        | stolen earlier holder held => exact LockRecords.take_of_ne _ _ _ _ elsewhere
        | _ => rfl
    · intro stack engine failed
      rw [failed] at moves
      obtain ⟨onStack, known | held⟩ := (lock.names_of_moves _ _ _ _ _ moves).2 stack engine rfl
      · rw [calls]
        exact ⟨onStack, (underway.known engine known).more _⟩
      · rw [calls]
        exact ⟨onStack, _, List.mem_append_right _ (List.mem_singleton_self _), held⟩

theorem run_allOrNothing (lock : StackLock) (start : σ) (ahead : List Interruption) (phase : Phase)
    (world : Disturbed σ) (underway : lock.Underway start ahead phase world) :
    lock.AllOrNothing start ahead (lock.run phase world) := by
  rw [run]
  split
  · rename_i result ended
    exact lock.allOrNothing_of_stop start ahead phase world underway
      ⟨result, (lock.step phase world).world, _, _⟩ ended rfl
  · rename_i next going
    have fewer := remaining_step going
    have later := run_allOrNothing lock start ahead next (lock.step phase world).world
      (lock.underway_step start ahead phase next world underway going)
    exact ⟨later.only_last, later.taken, later.nothing, later.elsewhere, later.named⟩
termination_by phase.remaining

/-- Whatever other parties ask of the store between the calls of an acquire, and whichever calls
fail: the acquire takes the stack with its last call, or it changes nothing at all. -/
theorem acquire_all_or_nothing (lock : StackLock) (store : σ) (ahead : List Interruption)
    (replies : List (Option PingReply)) :
    lock.AllOrNothing store ahead (lock.acquire (⟨store, ahead, replies, []⟩ : Disturbed σ)) := by
  apply run_allOrNothing
  refine ⟨?_, rfl, rfl, ?_⟩
  · intro call member
    cases member
  · intro engine member
    cases member

end Acquire

/-- Others are faster each time: red steals before green can, blue takes the stack when red releases
it, and in the end nobody holds it.  Green names blue, which it found last. -/
def lateEveryTime : List Interruption :=
  [⟨[], none⟩, ⟨[.steal "app" "gone" "red"], none⟩,
    ⟨[.release "app" "red", .create "app" "blue"], none⟩,
    ⟨[.release "app" "blue", .create "app" "red"], none⟩, ⟨[.release "app" "red"], none⟩]

theorem nothing_when_late_every_time :
    ((⟨"app", "green", 2000⟩ : StackLock).acquire
        (⟨⟨[("app", "gone")], []⟩, lateEveryTime, [], []⟩ : Disturbed MemoryStore)).result =
        .error (.actionInProgress "app" "blue") ∧
      (⟨"app", "green", 2000⟩ : StackLock).AllOrNothing ⟨[("app", "gone")], []⟩ lateEveryTime
        ((⟨"app", "green", 2000⟩ : StackLock).acquire
          (⟨⟨[("app", "gone")], []⟩, lateEveryTime, [], []⟩ : Disturbed MemoryStore)) :=
  ⟨by decide +kernel, acquire_all_or_nothing _ _ _ _⟩

end StackLock

end Orchestration
