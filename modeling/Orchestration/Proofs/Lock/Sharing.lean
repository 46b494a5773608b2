import Orchestration.Proofs.Lock.Records

/-!
# Engines that share a store

Any number of engines acquire and release stacks of one store; each event is one call of one of
them.  An engine that answers every ping keeps what it acquired until it releases it, since no
acquire ever comes to the point of stealing from it.
-/

set_option autoImplicit false

namespace Orchestration

structure Acquiring where
  lock : StackLock
  next : StackLock.Next

/-- A store and the acquires that were started on it. -/
structure SharedStore (σ : Type) where
  store : σ
  acquires : List Acquiring

inductive LockEvent where
  | start (lock : StackLock)
  /-- The next call of one acquire; the reply is for a ping. -/
  | advance (i : Nat) (reply : Option PingReply)
  | release (lock : StackLock)

namespace SharedStore

variable {σ : Type} [LockStore σ]

def advance (i : Nat) (reply : Option PingReply) (shared : SharedStore σ) : SharedStore σ :=
  match shared.acquires[i]? with
  | some ⟨lock, .go phase⟩ =>
    let move := lock.step phase (⟨shared.store, reply⟩ : Awaiting σ)
    ⟨move.world.store, shared.acquires.set i ⟨lock, move.next⟩⟩
  | _ => shared

def step (shared : SharedStore σ) : LockEvent → SharedStore σ
  | .start lock => { shared with acquires := shared.acquires ++ [⟨lock, .go (.creating none)⟩] }
  | .advance i reply => shared.advance i reply
  | .release lock => { shared with store := (lock.release shared.store).world }

def run (shared : SharedStore σ) (events : List LockEvent) : SharedStore σ :=
  events.foldl step shared

theorem run_append (shared : SharedStore σ) (before after : List LockEvent) :
    shared.run (before ++ after) = (shared.run before).run after :=
  List.foldl_append ..

theorem reply_step (lock : StackLock) (phase : StackLock.Phase) (world : Awaiting σ) :
    (lock.step phase world).world.reply = world.reply := by
  cases phase <;> rfl

/-- An acquire whose calls come one right after the other is the acquire of the lock. -/
theorem run_alone (shared : SharedStore σ) (i : Nat) (reply : Option PingReply) (lock : StackLock)
    (phase : StackLock.Phase) (present : shared.acquires[i]? = some ⟨lock, .go phase⟩) :
    ∃ count,
      shared.run (List.replicate count (.advance i reply)) =
        ⟨(lock.run phase (⟨shared.store, reply⟩ : Awaiting σ)).world.store,
          shared.acquires.set i
            ⟨lock, .stop (lock.run phase (⟨shared.store, reply⟩ : Awaiting σ)).result⟩⟩ := by
  have bound := (List.getElem?_eq_some_iff.mp present).1
  rw [StackLock.run]
  have moved : shared.step (.advance i reply) =
      ⟨(lock.step phase (⟨shared.store, reply⟩ : Awaiting σ)).world.store,
        shared.acquires.set i
          ⟨lock, (lock.step phase (⟨shared.store, reply⟩ : Awaiting σ)).next⟩⟩ := by
    rw [step, advance, present]
  split
  · rename_i result ended
    exact ⟨1, by rw [List.replicate_one, run, List.foldl_cons, List.foldl_nil, moved, ended]⟩
  · rename_i next going
    have fewer := StackLock.remaining_step going
    have kept := reply_step lock phase (⟨shared.store, reply⟩ : Awaiting σ)
    rw [going] at moved
    generalize (lock.step phase (⟨shared.store, reply⟩ : Awaiting σ)).world = after at moved kept ⊢
    obtain ⟨store, reply'⟩ := after
    simp only at kept
    subst kept
    obtain ⟨count, later⟩ := run_alone ⟨store, shared.acquires.set i ⟨lock, .go next⟩⟩ i reply' lock
      next (List.getElem?_set_self bound)
    refine ⟨count + 1, ?_⟩
    rw [List.replicate_succ, run, List.foldl_cons, moved]
    rw [run] at later
    rw [later, List.set_set]
termination_by phase.remaining

def Grants (shared : SharedStore σ) (event : LockEvent) (lock : StackLock) : Prop :=
  ∃ i reply phase, event = .advance i reply ∧ shared.acquires[i]? = some ⟨lock, .go phase⟩ ∧
    (shared.step event).acquires[i]? = some ⟨lock, .stop (.ok ())⟩

def ping? (shared : SharedStore σ) : LockEvent → Option (String × Bool)
  | .advance i reply =>
    match shared.acquires[i]? with
    | some ⟨lock, .go (.pinging _ holder)⟩ =>
      some (holder, PingReply.heard lock.pingTimeout reply)
    | _ => none
  | _ => none

/-- A ping of the engine does not come to the opposite. -/
def Answers (shared : SharedStore σ) (alive : Bool) (engine : String) (event : LockEvent) : Prop :=
  shared.ping? event ≠ some (engine, !alive)

omit [LockStore σ] in
theorem heard_of_answers (shared : SharedStore σ) (alive : Bool) (engine : String) (i : Nat)
    (reply : Option PingReply) (answers : shared.Answers alive engine (.advance i reply))
    (lock : StackLock) (earlier : Option String)
    (present : shared.acquires[i]? = some ⟨lock, .go (.pinging earlier engine)⟩) :
    PingReply.heard lock.pingTimeout reply = alive := by
  simpa [Answers, ping?, present] using answers

def Responds (alive : Bool) (engine : String) : SharedStore σ → List LockEvent → Prop
  | _, [] => True
  | shared, event :: rest =>
    shared.Answers alive engine event ∧ Responds alive engine (shared.step event) rest

instance decidableResponds (alive : Bool) (engine : String) :
    ∀ (shared : SharedStore σ) (events : List LockEvent),
      Decidable (Responds alive engine shared events)
  | _, [] => .isTrue trivial
  | shared, event :: rest =>
    have := decidableResponds alive engine (shared.step event) rest
    inferInstanceAs (Decidable (shared.ping? event ≠ some (engine, !alive) ∧
      Responds alive engine (shared.step event) rest))

abbrev Live (engine : String) : SharedStore σ → List LockEvent → Prop :=
  Responds true engine

abbrev Dead (engine : String) : SharedStore σ → List LockEvent → Prop :=
  Responds false engine

/-- An acquire of the stack by the engine ended with success, and the engine did not release the
stack since then. -/
def Holding (engine stack : String) (shared : SharedStore σ) (events : List LockEvent) : Prop :=
  ∃ before grant after timeout, events = before ++ grant :: after ∧
    (shared.run before).Grants grant ⟨stack, engine, timeout⟩ ∧
    ∀ lock, .release lock ∈ after → ¬(lock.stack = stack ∧ lock.engine = engine)

def Spares (engine : String) (shared : SharedStore σ) : Prop :=
  ∀ acquire ∈ shared.acquires, ∀ earlier, acquire.next ≠ .go (.stealing earlier engine)

section Lawful

variable [LawfulLockStore σ]

def records (shared : SharedStore σ) : LockRecords :=
  LawfulLockStore.records shared.store

/-! ## One event -/

theorem advance_cases (shared : SharedStore σ) (i : Nat) (reply : Option PingReply) :
    ((∀ lock phase, shared.acquires[i]? ≠ some ⟨lock, .go phase⟩) ∧
        shared.advance i reply = shared) ∨
      ∃ lock phase next, shared.acquires[i]? = some ⟨lock, .go phase⟩ ∧
        (lock.step phase (⟨shared.store, reply⟩ : Awaiting σ)).next = next ∧
        lock.Moves reply shared.records phase next (shared.advance i reply).records ∧
        (shared.advance i reply).acquires = shared.acquires.set i ⟨lock, next⟩ := by
  unfold advance
  split
  · rename_i lock phase present
    exact .inr ⟨lock, phase, _, present, rfl,
      StackLock.step_moves lock phase (⟨shared.store, reply⟩ : Awaiting σ), rfl⟩
  · rename_i other
    exact .inl ⟨other, rfl⟩

theorem release_records (shared : SharedStore σ) (lock : StackLock) (stack : String)
    (another : ¬(lock.stack = stack ∧ shared.records stack = some lock.engine)) :
    (shared.step (.release lock)).records stack = shared.records stack := by
  have spec := LawfulLockStore.release_spec lock.stack lock.engine shared.store
  change (LawfulLockStore.records
    (LockStore.release lock.stack lock.engine shared.store).2) stack = _
  cases answer : (LockStore.release lock.stack lock.engine shared.store).1 with
  | error e =>
    rw [answer] at spec
    rw [show LawfulLockStore.records _ = _ from spec, records]
  | ok released =>
    rw [answer] at spec
    cases released with
    | false => rw [spec.2, records]
    | true =>
      apply spec.2
      intro same
      subst same
      exact another ⟨rfl, spec.1⟩

theorem records_of_grants (shared : SharedStore σ) (event : LockEvent) (lock : StackLock)
    (grants : shared.Grants event lock) :
    (shared.step event).records lock.stack = some lock.engine := by
  obtain ⟨i, reply, phase, rfl, present, ended⟩ := grants
  rw [step] at ended ⊢
  rcases shared.advance_cases i reply with
    ⟨idle, _⟩ | ⟨lock', phase', next, present', _, moves, after⟩
  · exact absurd present (idle lock phase)
  · rw [present] at present'
    cases present'
    have bound := (List.getElem?_eq_some_iff.mp present).1
    rw [after, List.getElem?_set_self bound] at ended
    cases ended
    generalize (shared.advance i reply).records = found at moves ⊢
    cases moves with
    | created earlier free => exact LockRecords.take_self ..
    | stolen earlier holder held => exact LockRecords.take_self ..

theorem spares_step (engine : String) (shared : SharedStore σ) (event : LockEvent)
    (answers : shared.Answers true engine event) (spares : shared.Spares engine) :
    (shared.step event).Spares engine := by
  intro acquire member earlier stealing
  cases event with
  | start lock =>
    rcases List.mem_append.mp member with before | new
    · exact spares acquire before earlier stealing
    · rw [List.mem_singleton.mp new] at stealing
      cases stealing
  | release lock => exact spares acquire member earlier stealing
  | advance i reply =>
    rw [step] at member
    rcases shared.advance_cases i reply with
      ⟨_, same⟩ | ⟨lock, phase, next, present, _, moves, after⟩
    · rw [same] at member
      exact spares acquire member earlier stealing
    · rw [after] at member
      rcases List.mem_or_eq_of_mem_set member with before | rfl
      · exact spares acquire before earlier stealing
      · simp only at stealing
        subst stealing
        generalize (shared.advance i reply).records = found at moves
        cases moves with
        | silent earlier holder missed =>
          -- Only a ping that was missed leads to a steal.
          have heard := heard_of_answers shared true engine i reply answers lock earlier present
          rw [missed] at heard
          cases heard

theorem holds_step (engine stack : String) (shared : SharedStore σ) (event : LockEvent)
    (spares : shared.Spares engine) (held : shared.records stack = some engine)
    (kept : ∀ lock, event = .release lock → ¬(lock.stack = stack ∧ lock.engine = engine)) :
    (shared.step event).records stack = some engine := by
  cases event with
  | start lock => exact held
  | release lock =>
    rw [release_records shared lock stack, held]
    rintro ⟨same, found⟩
    rw [held] at found
    cases found
    exact kept lock rfl ⟨same, rfl⟩
  | advance i reply =>
    rw [step]
    rcases shared.advance_cases i reply with
      ⟨_, same⟩ | ⟨lock, phase, next, present, _, moves, after⟩
    · rw [same, held]
    · -- Only a record of nobody, or of an engine that is stolen from, can be taken.
      generalize (shared.advance i reply).records = found at moves ⊢
      cases moves with
      | created earlier free =>
        have apart : stack ≠ lock.stack := by
          rintro rfl
          rw [held] at free
          cases free
        rw [LockRecords.take_of_ne _ _ _ _ apart, held]
      | stolen earlier holder found =>
        have apart : stack ≠ lock.stack := by
          rintro rfl
          rw [held] at found
          cases found
          exact spares _ (List.mem_of_getElem? present) earlier rfl
        rw [LockRecords.take_of_ne _ _ _ _ apart, held]
      | _ => exact held

/-! ## Runs -/

omit [LawfulLockStore σ] in
theorem responds_append (alive : Bool) (engine : String) (shared : SharedStore σ)
    (before after : List LockEvent) :
    Responds alive engine shared (before ++ after) ↔
      Responds alive engine shared before ∧ Responds alive engine (shared.run before) after := by
  induction before generalizing shared with
  | nil => simp [Responds, run]
  | cons event rest ih =>
    rw [List.cons_append, Responds, Responds, ih, and_assoc]
    rfl

theorem spares_run (engine : String) (shared : SharedStore σ) (events : List LockEvent)
    (live : Live engine shared events) (spares : shared.Spares engine) :
    (shared.run events).Spares engine := by
  induction events generalizing shared with
  | nil => exact spares
  | cons event rest ih =>
    exact ih (shared.step event) live.2 (spares_step engine shared event live.1 spares)

theorem holds_run (engine stack : String) (shared : SharedStore σ) (events : List LockEvent)
    (live : Live engine shared events) (spares : shared.Spares engine)
    (held : shared.records stack = some engine)
    (kept : ∀ lock, .release lock ∈ events → ¬(lock.stack = stack ∧ lock.engine = engine)) :
    (shared.run events).records stack = some engine := by
  induction events generalizing shared with
  | nil => exact held
  | cons event rest ih =>
    apply ih (shared.step event) live.2
    · exact spares_step engine shared event live.1 spares
    · apply holds_step engine stack shared event spares held
      rintro lock rfl
      exact kept lock (List.mem_cons_self ..)
    · intro lock member
      exact kept lock (List.mem_cons_of_mem _ member)

theorem records_of_holding (store : σ) (events : List LockEvent) (engine stack : String)
    (live : Live engine ⟨store, []⟩ events) (holding : Holding engine stack ⟨store, []⟩ events) :
    (run ⟨store, []⟩ events).records stack = some engine := by
  obtain ⟨before, grant, after, timeout, rfl, grants, kept⟩ := holding
  rw [Live, responds_append, Responds] at live
  obtain ⟨liveBefore, liveGrant, liveAfter⟩ := live
  have none : (⟨store, []⟩ : SharedStore σ).Spares engine := by
    intro acquire member
    cases member
  have spares := spares_run engine ⟨store, []⟩ before liveBefore none
  rw [run_append]
  exact holds_run engine stack _ after liveAfter (spares_step engine _ grant liveGrant spares)
    (records_of_grants _ grant _ grants) kept

/-- A live engine that holds a stack is its recorded holder, and the only live engine that holds
it. -/
theorem mutual_exclusion (store : σ) (events : List LockEvent) (engine stack : String)
    (live : Live engine ⟨store, []⟩ events) (holding : Holding engine stack ⟨store, []⟩ events) :
    (run ⟨store, []⟩ events).records stack = some engine ∧
      ∀ other, Live other ⟨store, []⟩ events → Holding other stack ⟨store, []⟩ events →
        other = engine := by
  have recorded := records_of_holding store events engine stack live holding
  refine ⟨recorded, ?_⟩
  intro other otherLive otherHolding
  have otherRecorded := records_of_holding store events other stack otherLive otherHolding
  rw [recorded] at otherRecorded
  exact (Option.some.inj otherRecorded).symm

/-- Two engines want one stack; the second pings the first, which answers. -/
def twoAtOnce : List LockEvent :=
  [.start ⟨"app", "blue", 2000⟩, .start ⟨"app", "green", 2000⟩, .advance 0 none, .advance 1 none,
    .advance 1 (some ⟨5, true⟩)]

theorem mutual_exclusion_twoAtOnce :
    Live "blue" ⟨MemoryStore.empty, []⟩ twoAtOnce ∧
      Holding "blue" "app" ⟨MemoryStore.empty, []⟩ twoAtOnce ∧
      (run ⟨MemoryStore.empty, []⟩ twoAtOnce).records "app" = some "blue" ∧
      ∀ other, Live other ⟨MemoryStore.empty, []⟩ twoAtOnce →
        Holding other "app" ⟨MemoryStore.empty, []⟩ twoAtOnce → other = "blue" := by
  have live : Live "blue" ⟨MemoryStore.empty, []⟩ twoAtOnce := by decide
  have holding : Holding "blue" "app" ⟨MemoryStore.empty, []⟩ twoAtOnce := by
    refine ⟨twoAtOnce.take 2, .advance 0 none, twoAtOnce.drop 3, 2000, rfl,
      ⟨0, none, .creating none, rfl, rfl, rfl⟩, ?_⟩
    intro lock member
    simp [twoAtOnce] at member
  exact ⟨live, holding, mutual_exclusion MemoryStore.empty twoAtOnce "blue" "app" live holding⟩

end Lawful

end SharedStore

end Orchestration
