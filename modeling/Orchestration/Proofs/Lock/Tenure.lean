import Mathlib.Data.List.Induction
import Orchestration.Proofs.Lock.Requests
import Orchestration.Proofs.Lock.Sharing

/-!
# Whose tenure a steal ends

A steal compares the recorded engine with the one whose ping was missed, and nothing else.  So it
takes the tenure that the create call found, unless the same engine took the stack anew meanwhile.
-/

set_option autoImplicit false

namespace Orchestration

def LockEvent.CallOf (i : Nat) (event : LockEvent) : Prop :=
  ∃ reply, event = .advance i reply

namespace SharedStore

variable {σ : Type} [LockStore σ]

/-- The event is a call of one acquire and leads it from a phase to what comes next. -/
def Goes (shared : SharedStore σ) (event : LockEvent) (i : Nat) (lock : StackLock)
    (phase : StackLock.Phase) (next : StackLock.Next) : Prop :=
  event.CallOf i ∧ shared.acquires[i]? = some ⟨lock, .go phase⟩ ∧
    (shared.step event).acquires[i]? = some ⟨lock, next⟩

def Finds (shared : SharedStore σ) (event : LockEvent) (i : Nat) (lock : StackLock)
    (holder : String) : Prop :=
  ∃ earlier, shared.Goes event i lock (.creating earlier) (.go (.pinging earlier holder))

def Misses (shared : SharedStore σ) (event : LockEvent) (i : Nat) (lock : StackLock)
    (holder : String) : Prop :=
  ∃ earlier, shared.Goes event i lock (.pinging earlier holder) (.go (.stealing earlier holder))

def Steals (shared : SharedStore σ) (event : LockEvent) (i : Nat) (lock : StackLock)
    (holder : String) : Prop :=
  ∃ earlier, shared.Goes event i lock (.stealing earlier holder) (.stop (.ok ()))

structure OnlyCall (i : Nat) (events early : List LockEvent) (call : LockEvent)
    (late : List LockEvent) : Prop where
  split : events = early ++ call :: late
  early_others : ∀ event ∈ early, ¬event.CallOf i
  late_others : ∀ event ∈ late, ¬event.CallOf i

/-- From a state on, the create call of an acquire finds the holder, and the only call that the
acquire makes in the events behind it is the ping that the holder misses. -/
def FoundDead (shared : SharedStore σ) (found : LockEvent) (between : List LockEvent) (i : Nat)
    (lock : StackLock) (holder : String) : Prop :=
  shared.Finds found i lock holder ∧
    ∃ early ping late, OnlyCall i between early ping late ∧
      ((shared.step found).run early).Misses ping i lock holder

section Lawful

variable [LawfulLockStore σ]

def Undisturbed (stack : String) : SharedStore σ → List LockEvent → Prop
  | _, [] => True
  | shared, event :: rest =>
    (shared.step event).records stack = shared.records stack ∧
      Undisturbed stack (shared.step event) rest

/-- Some event gives the stack to the engine, and later ones do not change who holds it. -/
def Regained (stack engine : String) (shared : SharedStore σ) (events : List LockEvent) : Prop :=
  ∃ early grant late timeout, events = early ++ grant :: late ∧
    (shared.run early).Grants grant ⟨stack, engine, timeout⟩ ∧
    Undisturbed stack ((shared.run early).step grant) late

/-- In the events, every successful steal takes the tenure that the create call before it found:
nobody changed the record of the stack since. -/
def TakesFoundTenure (store : σ) (events : List LockEvent) : Prop :=
  ∀ before found between steal after i lock holder,
    events = before ++ found :: between ++ steal :: after →
      (run ⟨store, []⟩ before).FoundDead found between i lock holder →
        (run ⟨store, []⟩ (before ++ found :: between)).Steals steal i lock holder →
          Undisturbed lock.stack ((run ⟨store, []⟩ before).step found) between

/-! ## The calls before a steal -/

theorem acquires_of_other (shared : SharedStore σ) (event : LockEvent) (i : Nat)
    (acquire : Acquiring) (other : ¬event.CallOf i)
    (present : (shared.step event).acquires[i]? = some acquire) :
    shared.acquires[i]? = some acquire ∨ acquire.next = .go (.creating none) := by
  cases event with
  | start lock =>
    simp only [step] at present
    by_cases known : i < shared.acquires.length
    · rw [List.getElem?_append_left known] at present
      exact .inl present
    · rw [List.getElem?_append_right (Nat.le_of_not_lt known)] at present
      rw [List.mem_singleton.mp (List.mem_of_getElem? present)]
      exact .inr rfl
  | release lock => exact .inl present
  | advance j reply =>
    have apart : j ≠ i := by
      rintro rfl
      exact other ⟨reply, rfl⟩
    rw [step] at present
    rcases shared.advance_cases j reply with ⟨_, same⟩ | ⟨lock, phase, next, _, _, _, after⟩
    · rw [same] at present
      exact .inl present
    · rw [after, List.getElem?_set_ne apart] at present
      exact .inl present

theorem moves_of_goes (shared : SharedStore σ) (event : LockEvent) (i : Nat) (lock : StackLock)
    (phase : StackLock.Phase) (next : StackLock.Next)
    (goes : shared.Goes event i lock phase next) :
    ∃ reply, lock.Moves reply shared.records phase next (shared.step event).records := by
  obtain ⟨⟨reply, rfl⟩, present, ended⟩ := goes
  rw [step] at ended ⊢
  rcases shared.advance_cases i reply with
    ⟨idle, _⟩ | ⟨lock', phase', next', present', _, moves, after⟩
  · exact absurd present (idle lock phase)
  · rw [present] at present'
    cases present'
    rw [after, List.getElem?_set_self (List.getElem?_eq_some_iff.mp present).1] at ended
    cases ended
    exact ⟨reply, moves⟩

theorem goes_of_call (shared : SharedStore σ) (event : LockEvent) (i : Nat) (lock : StackLock)
    (phase : StackLock.Phase) (mine : event.CallOf i)
    (after : (shared.step event).acquires[i]? = some ⟨lock, .go phase⟩) :
    ∃ last, shared.Goes event i lock last (.go phase) := by
  have kept := after
  obtain ⟨reply, rfl⟩ := mine
  rw [step] at after
  rcases shared.advance_cases i reply with
    ⟨idle, same⟩ | ⟨lock', last, next, present, _, _, moved⟩
  · rw [same] at after
    exact absurd after (idle lock phase)
  · rw [moved, List.getElem?_set_self (List.getElem?_eq_some_iff.mp present).1] at after
    cases after
    exact ⟨last, ⟨reply, rfl⟩, present, kept⟩

theorem no_call_concat (i : Nat) (events : List LockEvent) (event : LockEvent)
    (others : ∀ other ∈ events, ¬other.CallOf i) (other : ¬event.CallOf i) :
    ∀ any ∈ events ++ [event], ¬any.CallOf i := by
  intro any member
  rcases List.mem_append.mp member with before | last
  · exact others any before
  · rwa [List.mem_singleton.mp last]

theorem found_of_pinging (store : σ) (events : List LockEvent) (i : Nat) (lock : StackLock)
    (earlier : Option String) (holder : String)
    (pinging : (run ⟨store, []⟩ events).acquires[i]? =
      some ⟨lock, .go (.pinging earlier holder)⟩) :
    ∃ before found late, events = before ++ found :: late ∧
      (run ⟨store, []⟩ before).Finds found i lock holder ∧ ∀ event ∈ late, ¬event.CallOf i := by
  induction events using List.reverseRecOn with
  | nil => cases pinging
  | append_singleton events event ih =>
    rw [run_append] at pinging
    by_cases mine : event.CallOf i
    · obtain ⟨phase, goes⟩ := goes_of_call _ event i lock _ mine pinging
      obtain ⟨reply, moves⟩ := moves_of_goes _ event i lock phase _ goes
      generalize ((run ⟨store, []⟩ events).step event).records = records at moves
      cases moves with
      | found earlier holder held another =>
        exact ⟨events, event, [], rfl, ⟨earlier, goes⟩, by simp⟩
    · rcases acquires_of_other _ event i _ mine pinging with waiting | started
      · obtain ⟨before, found, late, rfl, finds, others⟩ := ih waiting
        exact ⟨before, found, late ++ [event], by simp, finds, no_call_concat i late event others mine⟩
      · cases started

theorem dead_of_stealing (store : σ) (events : List LockEvent) (i : Nat) (lock : StackLock)
    (earlier : Option String) (holder : String)
    (stealing : (run ⟨store, []⟩ events).acquires[i]? =
      some ⟨lock, .go (.stealing earlier holder)⟩) :
    ∃ before found between, events = before ++ found :: between ∧
      (run ⟨store, []⟩ before).FoundDead found between i lock holder := by
  induction events using List.reverseRecOn with
  | nil => cases stealing
  | append_singleton events event ih =>
    rw [run_append] at stealing
    by_cases mine : event.CallOf i
    · obtain ⟨phase, goes⟩ := goes_of_call _ event i lock _ mine stealing
      obtain ⟨reply, moves⟩ := moves_of_goes _ event i lock phase _ goes
      generalize ((run ⟨store, []⟩ events).step event).records = records at moves
      cases moves with
      | silent earlier holder missed =>
        obtain ⟨before, found, late, rfl, finds, others⟩ :=
          found_of_pinging store events i lock earlier holder goes.2.1
        rw [run_append] at goes
        exact ⟨before, found, late ++ [event], by simp, finds, late, event, [],
          ⟨rfl, others, by simp⟩, earlier, goes⟩
    · rcases acquires_of_other _ event i _ mine stealing with waiting | started
      · obtain ⟨before, found, between, rfl, finds, early, ping, late, only, misses⟩ := ih waiting
        refine ⟨before, found, between ++ [event], by simp, finds, early, ping, late ++ [event],
          ⟨?_, only.early_others, no_call_concat i late event only.late_others mine⟩, misses⟩
        rw [only.split, List.append_assoc, List.cons_append]
      · cases started

/-! ## The record between the create call and the steal -/

theorem records_of_undisturbed (stack : String) (shared : SharedStore σ) (events : List LockEvent)
    (calm : Undisturbed stack shared events) :
    (shared.run events).records stack = shared.records stack := by
  induction events generalizing shared with
  | nil => rfl
  | cons event rest ih => exact (ih (shared.step event) calm.2).trans calm.1

section Orderly

variable [OrderlyLockStore σ]

def Orderly (shared : SharedStore σ) : Prop :=
  OrderlyLockStore.Orderly shared.store

theorem orderly_step (shared : SharedStore σ) (event : LockEvent) (orderly : shared.Orderly) :
    (shared.step event).Orderly := by
  cases event with
  | start lock => exact orderly
  | release lock =>
    exact OrderlyLockStore.orderly_perform (.release lock.stack lock.engine) shared.store orderly
  | advance i reply =>
    rw [step, advance]
    split
    · rename_i lock phase present
      cases phase with
      | creating earlier =>
        exact OrderlyLockStore.orderly_perform (.create lock.stack lock.engine) shared.store orderly
      | pinging earlier holder => exact orderly
      | stealing earlier holder =>
        exact OrderlyLockStore.orderly_perform (.steal lock.stack holder lock.engine) shared.store
          orderly
      | asking earlier =>
        exact OrderlyLockStore.orderly_perform (.holder lock.stack) shared.store orderly
    · exact orderly

theorem orderly_run (shared : SharedStore σ) (events : List LockEvent)
    (orderly : shared.Orderly) : (shared.run events).Orderly := by
  induction events generalizing shared with
  | nil => exact orderly
  | cons event rest ih => exact ih (shared.step event) (orderly_step shared event orderly)

theorem grants_of_new_holder (shared : SharedStore σ) (event : LockEvent) (stack holder : String)
    (orderly : shared.Orderly) (now : (shared.step event).records stack = some holder)
    (changed : (shared.step event).records stack ≠ shared.records stack) :
    ∃ timeout, shared.Grants event ⟨stack, holder, timeout⟩ := by
  cases event with
  | start lock => exact absurd rfl changed
  | release lock =>
    by_cases held : lock.stack = stack ∧ shared.records stack = some lock.engine
    · obtain ⟨rfl, held⟩ := held
      have spec := LawfulLockStore.release_spec lock.stack lock.engine shared.store
      have clears := OrderlyLockStore.release_clears lock.stack lock.engine shared.store orderly
      change LawfulLockStore.records
        (LockStore.release lock.stack lock.engine shared.store).2 lock.stack = _ at now
      change LawfulLockStore.records
        (LockStore.release lock.stack lock.engine shared.store).2 lock.stack ≠ _ at changed
      cases answer : (LockStore.release lock.stack lock.engine shared.store).1 with
      | error e =>
        rw [answer] at spec
        rw [show LawfulLockStore.records _ = _ from spec] at changed
        exact absurd rfl changed
      | ok released =>
        rw [answer] at spec clears
        cases released with
        | true =>
          rw [clears rfl] at now
          cases now
        | false =>
          rw [spec.2] at changed
          exact absurd rfl changed
    · exact absurd (release_records shared lock stack held) changed
  | advance i reply =>
    rcases shared.advance_cases i reply with
      ⟨_, same⟩ | ⟨lock, phase, next, present, _, moves, after⟩
    · rw [step, same] at changed
      exact absurd rfl changed
    · have bound := (List.getElem?_eq_some_iff.mp present).1
      have ended : (shared.step (.advance i reply)).acquires[i]? = some ⟨lock, next⟩ := by
        rw [step, after, List.getElem?_set_self bound]
      rw [step] at now changed
      generalize (shared.advance i reply).records = records at moves now changed
      -- Only what takes the stack changes a record, and it takes it for its own engine.
      have taken : records = shared.records.take lock.stack lock.engine → next = .stop (.ok ()) →
          ∃ timeout, shared.Grants (.advance i reply) ⟨stack, holder, timeout⟩ := by
        rintro rfl rfl
        have same : stack = lock.stack := by
          by_contra apart
          exact changed (LockRecords.take_of_ne _ _ _ _ apart)
        subst same
        rw [LockRecords.take_self] at now
        cases now
        exact ⟨lock.pingTimeout, i, reply, phase, rfl, present, ended⟩
      cases moves with
      | created earlier free => exact taken rfl rfl
      | stolen earlier holder held => exact taken rfl rfl
      | _ => exact absurd rfl changed

/-- If the stack ends up with a holder, its record was never changed, or the last change was that
the holder acquired it. -/
theorem undisturbed_or_regained (shared : SharedStore σ) (events : List LockEvent)
    (stack holder : String) (orderly : shared.Orderly)
    (ended : (shared.run events).records stack = some holder) :
    Undisturbed stack shared events ∨ Regained stack holder shared events := by
  induction events generalizing shared with
  | nil => exact .inl trivial
  | cons event rest ih =>
    rcases ih (shared.step event) (orderly_step shared event orderly) ended with calm | regained
    · have now : (shared.step event).records stack = some holder := by
        rw [← ended]
        exact (records_of_undisturbed stack _ rest calm).symm
      by_cases same : (shared.step event).records stack = shared.records stack
      · exact .inl ⟨same, calm⟩
      · obtain ⟨timeout, grants⟩ := grants_of_new_holder shared event stack holder orderly now same
        exact .inr ⟨[], event, rest, timeout, rfl, grants, calm⟩
    · obtain ⟨early, grant, late, timeout, rfl, grants, calm⟩ := regained
      exact .inr ⟨event :: early, grant, late, timeout, rfl, grants, calm⟩

/-- A successful steal takes the record of the engine that the acquire found and that missed its
ping.  It is the very tenure that was found, unless that engine acquired the stack again between. -/
theorem steal_takes_found_or_regained (store : σ) (orderly : OrderlyLockStore.Orderly store)
    (events : List LockEvent) (steal : LockEvent) (i : Nat) (lock : StackLock) (holder : String)
    (stolen : (run ⟨store, []⟩ events).Steals steal i lock holder) :
    ∃ before found between, events = before ++ found :: between ∧
      (run ⟨store, []⟩ before).FoundDead found between i lock holder ∧
      (run ⟨store, []⟩ events).records lock.stack = some holder ∧
      (Undisturbed lock.stack ((run ⟨store, []⟩ before).step found) between ∨
        Regained lock.stack holder ((run ⟨store, []⟩ before).step found) between) := by
  obtain ⟨earlier, goes⟩ := stolen
  obtain ⟨before, found, between, rfl, dead⟩ :=
    dead_of_stealing store events i lock earlier holder goes.2.1
  have held : (run ⟨store, []⟩ (before ++ found :: between)).records lock.stack = some holder := by
    obtain ⟨reply, moves⟩ := moves_of_goes _ steal i lock _ _ goes
    generalize ((run ⟨store, []⟩ (before ++ found :: between)).step steal).records = records
      at moves
    cases moves with
    | stolen earlier holder held => exact held
  refine ⟨before, found, between, rfl, dead, held, ?_⟩
  rw [run_append] at held
  exact undisturbed_or_regained _ between lock.stack holder
    (orderly_step _ found (orderly_run ⟨store, []⟩ before orderly)) held

end Orderly

end Lawful

/-- While green waits for a ping of blue, blue releases the stack and acquires it anew.  Green then
steals that. -/
def robbedAfterReturn : List LockEvent :=
  [.start ⟨"app", "blue", 2000⟩, .advance 0 none, .start ⟨"app", "green", 2000⟩, .advance 1 none,
    .advance 1 none, .release ⟨"app", "blue", 2000⟩, .start ⟨"app", "blue", 2000⟩,
    .advance 2 none, .advance 1 none]

theorem steal_after_return :
    (run ⟨MemoryStore.empty, []⟩ (robbedAfterReturn.take 8)).Steals (.advance 1 none) 1
        ⟨"app", "green", 2000⟩ "blue" ∧
      ∃ before found between, robbedAfterReturn.take 8 = before ++ found :: between ∧
        (run ⟨MemoryStore.empty, []⟩ before).FoundDead found between 1 ⟨"app", "green", 2000⟩
          "blue" ∧
        (run ⟨MemoryStore.empty, []⟩ (robbedAfterReturn.take 8)).records "app" = some "blue" ∧
        (Undisturbed "app" ((run ⟨MemoryStore.empty, []⟩ before).step found) between ∨
          Regained "app" "blue" ((run ⟨MemoryStore.empty, []⟩ before).step found) between) := by
  have stolen : (run ⟨MemoryStore.empty, []⟩ (robbedAfterReturn.take 8)).Steals (.advance 1 none) 1
      ⟨"app", "green", 2000⟩ "blue" := ⟨none, ⟨none, rfl⟩, rfl, rfl⟩
  exact ⟨stolen, steal_takes_found_or_regained MemoryStore.empty List.nodup_nil _ _ _ _ _ stolen⟩

/-- A steal can take a tenure that began after the ping. -/
theorem not_takesFoundTenure_of_return :
    ¬TakesFoundTenure MemoryStore.empty robbedAfterReturn := by
  intro takes
  have finds : (run ⟨MemoryStore.empty, []⟩ (robbedAfterReturn.take 3)).Finds (.advance 1 none) 1
      ⟨"app", "green", 2000⟩ "blue" := ⟨none, ⟨none, rfl⟩, rfl, rfl⟩
  have others : ∀ event ∈ (robbedAfterReturn.drop 5).take 3, ¬event.CallOf 1 := by
    rintro event member ⟨reply, rfl⟩
    simp [robbedAfterReturn] at member
  have dead : (run ⟨MemoryStore.empty, []⟩ (robbedAfterReturn.take 3)).FoundDead (.advance 1 none)
      ((robbedAfterReturn.drop 4).take 4) 1 ⟨"app", "green", 2000⟩ "blue" :=
    ⟨finds, [], .advance 1 none, (robbedAfterReturn.drop 5).take 3,
      ⟨rfl, by simp, others⟩, none, ⟨none, rfl⟩, rfl, rfl⟩
  have stolen : (run ⟨MemoryStore.empty, []⟩ (robbedAfterReturn.take 8)).Steals (.advance 1 none) 1
      ⟨"app", "green", 2000⟩ "blue" := ⟨none, ⟨none, rfl⟩, rfl, rfl⟩
  have calm := takes _ _ _ _ [] _ _ _ rfl dead stolen
  exact absurd calm.2.1 (by decide)

end SharedStore

end Orchestration
