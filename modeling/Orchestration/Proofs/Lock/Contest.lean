import Orchestration.Proofs.Lock.Sharing

/-!
# Engines that want the same stack

Several live engines acquire one stack at once; nobody holds it, or an engine that answers no ping.
Until some call takes the record, every acquire waits in its first attempt; from then on every other
acquire can only come to name the winner.
-/

set_option autoImplicit false

namespace Orchestration

namespace StackLock

/-! ## Before and after the record is taken

`vacant` is the record at the beginning: nobody, or an engine that answers no ping. -/

/-- Where an acquire can be while nobody has taken the record. -/
def Waiting (vacant : Option String) : Next → Prop
  | .go (.creating none) => True
  | .go (.pinging none holder) | .go (.stealing none holder) => vacant = some holder
  | _ => False

/-- Where an acquire can be once another engine has taken the record. -/
def Losing (vacant : Option String) (winner : String) (lock : StackLock) : Next → Prop
  | .go (.creating _) => True
  | .go (.pinging none holder) => holder = winner ∨ vacant = some holder
  | .go (.pinging (some _) holder) => holder = winner
  | .go (.stealing none holder) => vacant = some holder
  | .stop result => result = .error (lock.inProgress winner)
  | _ => False

theorem losing_of_waiting (vacant : Option String) (winner : String) (lock : StackLock)
    (next : Next) (waiting : Waiting vacant next) : Losing vacant winner lock next := by
  match next with
  | .go (.creating none) => trivial
  | .go (.pinging none holder) => exact .inr waiting
  | .go (.stealing none holder) => exact waiting

section Moves

variable (vacant : Option String) (lock : StackLock) (reply : Option PingReply)
  (before after : LockRecords) (phase : Phase) (next : Next)
  (moves : lock.Moves reply before phase next after)
  (silent : ∀ earlier holder, vacant = some holder → phase = .pinging earlier holder →
    PingReply.heard lock.pingTimeout reply = false)
  (answered : ∀ error, next ≠ .stop (.error (.store error)))

include moves silent answered

theorem waiting_of_moves (recorded : before lock.stack = vacant)
    (waiting : Waiting vacant (.go phase)) (another : vacant ≠ some lock.engine) :
    (after = before ∧ Waiting vacant next) ∨
      (after = before.take lock.stack lock.engine ∧ next = .stop (.ok ())) := by
  cases moves with
  | failed phase error => exact absurd rfl (answered error)
  | created earlier free => exact .inr ⟨rfl, rfl⟩
  | own earlier held => exact absurd (recorded.symm.trans held) another
  | found earlier holder held foreign =>
    cases earlier with
    | none => exact .inl ⟨rfl, recorded.symm.trans held⟩
    | some earlier => cases waiting
  | heard earlier holder heard =>
    cases earlier with
    | none =>
      rw [silent none holder waiting rfl] at heard
      cases heard
    | some earlier => cases waiting
  | silent earlier holder missed =>
    cases earlier with
    | none => exact .inl ⟨rfl, waiting⟩
    | some earlier => cases waiting
  | stolen earlier holder held => exact .inr ⟨rfl, rfl⟩
  | refused holder changed => exact absurd (recorded.trans waiting) changed
  | refusedAgain earlier holder changed => cases waiting
  | named earlier => cases waiting

theorem losing_of_moves (winner : String) (recorded : before lock.stack = some winner)
    (losing : Losing vacant winner lock (.go phase)) (foreign : vacant ≠ some winner)
    (live : ∀ earlier, phase = .pinging earlier winner →
      PingReply.heard lock.pingTimeout reply = true) :
    after = before ∧ Losing vacant winner lock next := by
  cases moves with
  | failed phase error => exact absurd rfl (answered error)
  | created earlier free =>
    rw [recorded] at free
    cases free
  | own earlier held =>
    rw [recorded] at held
    cases held
    exact ⟨rfl, rfl⟩
  | found earlier holder held another =>
    rw [recorded] at held
    cases held
    cases earlier with
    | none => exact ⟨rfl, .inl rfl⟩
    | some earlier => exact ⟨rfl, rfl⟩
  | heard earlier holder heard =>
    have found : holder = winner := by
      cases earlier with
      | some earlier => exact losing
      | none =>
        rcases losing with found | stale
        · exact found
        · rw [silent none holder stale rfl] at heard
          cases heard
    subst found
    exact ⟨rfl, rfl⟩
  | silent earlier holder missed =>
    -- The winner would have been heard, so this is the engine that held the record before.
    have stale : earlier = none ∧ vacant = some holder := by
      cases earlier with
      | some earlier =>
        cases losing
        rw [live _ rfl] at missed
        cases missed
      | none =>
        rcases losing with rfl | stale
        · rw [live _ rfl] at missed
          cases missed
        · exact ⟨rfl, stale⟩
    obtain ⟨rfl, stale⟩ := stale
    exact ⟨rfl, stale⟩
  | stolen earlier holder held =>
    cases earlier with
    | none => exact absurd (losing.trans (held.symm.trans recorded)) foreign
    | some earlier => cases losing
  | refused holder changed =>
    -- The second attempt begins after the record was taken, so its create finds the winner.
    exact ⟨rfl, trivial⟩
  | refusedAgain earlier holder changed => cases losing
  | named earlier => cases losing

end Moves

end StackLock

namespace SharedStore

variable {σ : Type} [LockStore σ] [LawfulLockStore σ]

structure Undecided (stack : String) (vacant : Option String) (shared : SharedStore σ) : Prop where
  recorded : shared.records stack = vacant
  waiting : ∀ acquire ∈ shared.acquires, StackLock.Waiting vacant acquire.next

structure Decided (stack : String) (vacant : Option String) (shared : SharedStore σ) (i : Nat)
    (winner : StackLock) : Prop where
  recorded : shared.records stack = some winner.engine
  won : shared.acquires[i]? = some ⟨winner, .stop (.ok ())⟩
  losing : ∀ j acquire, j ≠ i → shared.acquires[j]? = some acquire →
    StackLock.Losing vacant winner.engine acquire.lock acquire.next

def locks (shared : SharedStore σ) : List StackLock :=
  shared.acquires.map Acquiring.lock

omit [LockStore σ] [LawfulLockStore σ] in
theorem mem_locks (shared : SharedStore σ) (i : Nat) (acquire : Acquiring)
    (present : shared.acquires[i]? = some acquire) : acquire.lock ∈ shared.locks :=
  List.mem_map_of_mem (List.mem_of_getElem? present)

theorem locks_advance (shared : SharedStore σ) (i : Nat) (reply : Option PingReply) :
    (shared.advance i reply).locks = shared.locks := by
  rcases shared.advance_cases i reply with ⟨_, same⟩ | ⟨lock, phase, next, present, _, _, after⟩
  · rw [same]
  · obtain ⟨bound, here⟩ := List.getElem?_eq_some_iff.mp present
    rw [locks, locks, after, List.map_set]
    apply List.ext_getElem?
    intro j
    rw [List.getElem?_set]
    split
    · rename_i same
      subst same
      simp [here, bound]
    · rfl

section Advance

variable [UnfailingLockStore σ] (stack : String) (vacant : Option String) (shared : SharedStore σ)
  (i : Nat) (reply : Option PingReply)
  (onStack : ∀ lock ∈ shared.locks, lock.stack = stack ∧ vacant ≠ some lock.engine)
  (silent : ∀ holder, vacant = some holder → shared.Answers false holder (.advance i reply))

include onStack silent

theorem undecided_advance (undecided : Undecided stack vacant shared) :
    Undecided stack vacant (shared.advance i reply) ∨
      ∃ winner, Decided stack vacant (shared.advance i reply) i winner := by
  rcases shared.advance_cases i reply with
    ⟨_, same⟩ | ⟨lock, phase, next, present, made, moves, after⟩
  · rw [same]
    exact .inl undecided
  · obtain ⟨rfl, another⟩ := onStack lock (shared.mem_locks i _ present)
    have bound := (List.getElem?_eq_some_iff.mp present).1
    have missed : ∀ earlier holder, vacant = some holder → phase = .pinging earlier holder →
        PingReply.heard lock.pingTimeout reply = false := by
      rintro earlier holder stale rfl
      exact heard_of_answers shared false holder i reply (silent holder stale) lock earlier present
    have answered : ∀ error, next ≠ .stop (.error (.store error)) := by
      intro error
      rw [← made]
      exact StackLock.step_ne_store_error lock phase _ error
    have waits := undecided.waiting _ (List.mem_of_getElem? present)
    rcases StackLock.waiting_of_moves vacant lock reply shared.records _ phase next moves missed
        answered undecided.recorded waits another with ⟨same, waiting⟩ | ⟨taken, rfl⟩
    · refine .inl ⟨by rw [same, undecided.recorded], ?_⟩
      intro acquire member
      rw [after] at member
      rcases List.mem_or_eq_of_mem_set member with before | rfl
      · exact undecided.waiting acquire before
      · exact waiting
    · refine .inr ⟨lock, by rw [taken, LockRecords.take_self], ?_, ?_⟩
      · rw [after, List.getElem?_set_self bound]
      · intro j acquire apart found
        rw [after, List.getElem?_set_ne (Ne.symm apart)] at found
        exact StackLock.losing_of_waiting vacant _ _ _
          (undecided.waiting acquire (List.mem_of_getElem? found))

theorem decided_advance (first : Nat) (winner : StackLock)
    (decided : Decided stack vacant shared first winner)
    (live : shared.Answers true winner.engine (.advance i reply)) :
    Decided stack vacant (shared.advance i reply) first winner := by
  rcases shared.advance_cases i reply with
    ⟨_, same⟩ | ⟨lock, phase, next, present, made, moves, after⟩
  · rw [same]
    exact decided
  · have apart : i ≠ first := by
      rintro rfl
      rw [decided.won] at present
      cases present
    obtain ⟨rfl, another⟩ := onStack lock (shared.mem_locks i _ present)
    have foreign := (onStack winner (shared.mem_locks first _ decided.won)).2
    have missed : ∀ earlier holder, vacant = some holder → phase = .pinging earlier holder →
        PingReply.heard lock.pingTimeout reply = false := by
      rintro earlier holder stale rfl
      exact heard_of_answers shared false holder i reply (silent holder stale) lock earlier present
    have heard : ∀ earlier, phase = .pinging earlier winner.engine →
        PingReply.heard lock.pingTimeout reply = true := by
      rintro earlier rfl
      exact heard_of_answers shared true winner.engine i reply live lock earlier present
    have answered : ∀ error, next ≠ .stop (.error (.store error)) := by
      intro error
      rw [← made]
      exact StackLock.step_ne_store_error lock phase _ error
    have loses := decided.losing i _ apart present
    obtain ⟨same, losing⟩ := StackLock.losing_of_moves vacant lock reply shared.records _ phase next
      moves missed answered winner.engine decided.recorded loses foreign heard
    refine ⟨by rw [same, decided.recorded], ?_, ?_⟩
    · rw [after, List.getElem?_set_ne apart, decided.won]
    · intro j acquire other found
      by_cases mine : i = j
      · subst mine
        have bound := (List.getElem?_eq_some_iff.mp present).1
        rw [after, List.getElem?_set_self bound] at found
        cases found
        exact losing
      · rw [after, List.getElem?_set_ne mine] at found
        exact decided.losing j acquire other found

end Advance

/-! ## Whole contests -/

section Run

variable [UnfailingLockStore σ] (stack : String) (vacant : Option String)

omit [UnfailingLockStore σ] in
theorem locks_run (shared : SharedStore σ) (events : List LockEvent)
    (turns : ∀ event ∈ events, ∃ i reply, event = .advance i reply) :
    (shared.run events).locks = shared.locks := by
  induction events generalizing shared with
  | nil => rfl
  | cons event rest ih =>
    obtain ⟨i, reply, rfl⟩ := turns event (List.mem_cons_self ..)
    have later := ih (shared.step (.advance i reply)) fun event member =>
      turns event (List.mem_cons_of_mem _ member)
    exact later.trans (shared.locks_advance i reply)

theorem contest_run (shared : SharedStore σ) (events : List LockEvent)
    (turns : ∀ event ∈ events, ∃ i reply, event = .advance i reply)
    (onStack : ∀ lock ∈ shared.locks, lock.stack = stack ∧ vacant ≠ some lock.engine)
    (dead : ∀ holder, vacant = some holder → Dead holder shared events)
    (live : ∀ lock ∈ shared.locks, Live lock.engine shared events)
    (contest : Undecided stack vacant shared ∨ ∃ i winner, Decided stack vacant shared i winner) :
    Undecided stack vacant (shared.run events) ∨
      ∃ i winner, Decided stack vacant (shared.run events) i winner := by
  induction events generalizing shared with
  | nil => exact contest
  | cons event rest ih =>
    obtain ⟨i, reply, rfl⟩ := turns event (List.mem_cons_self ..)
    have same : (shared.step (.advance i reply)).locks = shared.locks :=
      shared.locks_advance i reply
    -- The invariant: all wait, or one has won and all others lose.
    have silent := fun holder stale => (dead holder stale).1
    apply ih (shared.step (.advance i reply))
    · exact fun event member => turns event (List.mem_cons_of_mem _ member)
    · rw [same]
      exact onStack
    · exact fun holder stale => (dead holder stale).2
    · rw [same]
      exact fun lock member => (live lock member).2
    · rcases contest with undecided | ⟨first, winner, decided⟩
      · rcases undecided_advance stack vacant shared i reply onStack silent undecided with
          undecided | ⟨winner, decided⟩
        · exact .inl undecided
        · exact .inr ⟨i, winner, decided⟩
      · have answers := (live winner (shared.mem_locks first _ decided.won)).1
        exact .inr ⟨first, winner, decided_advance stack vacant shared i reply onStack silent first
          winner decided answers⟩

end Run

/-! ## Every acquire comes to its end -/

def Finished (shared : SharedStore σ) : Prop :=
  ∀ acquire ∈ shared.acquires, ∃ result, acquire.next = .stop result

end SharedStore

namespace StackLock

def Next.callsLeft : Next → Nat
  | .go phase => phase.remaining
  | .stop _ => 0

theorem Next.callsLeft_le (next : Next) : next.callsLeft ≤ 7 := by
  match next with
  | .stop result => exact Nat.zero_le 7
  | .go (.creating none) | .go (.creating (some _)) | .go (.pinging none _)
  | .go (.pinging (some _) _) | .go (.stealing none _) | .go (.stealing (some _) _)
  | .go (.asking _) => simp [callsLeft, Phase.remaining]

theorem Next.stop_of_callsLeft (next : Next) (spent : next.callsLeft = 0) :
    ∃ result, next = .stop result := by
  match next with
  | .stop result => exact ⟨result, rfl⟩
  | .go (.creating none) | .go (.creating (some _)) | .go (.pinging none _)
  | .go (.pinging (some _) _) | .go (.stealing none _) | .go (.stealing (some _) _)
  | .go (.asking _) => simp [callsLeft, Phase.remaining] at spent

end StackLock

def LockEvent.turnOf (i : Nat) : LockEvent → Bool
  | .advance j _ => j == i
  | _ => false

namespace SharedStore

variable {σ : Type} [LockStore σ] [LawfulLockStore σ]

theorem callsLeft_step (shared : SharedStore σ) (event : LockEvent) (j : Nat) (acquire : Acquiring)
    (present : shared.acquires[j]? = some acquire) :
    ∃ later, (shared.step event).acquires[j]? = some later ∧
      later.next.callsLeft ≤ acquire.next.callsLeft - if event.turnOf j then 1 else 0 := by
  have bound := (List.getElem?_eq_some_iff.mp present).1
  cases event with
  | start lock => exact ⟨acquire, by simp [step, List.getElem?_append_left bound, present], by
      simp [LockEvent.turnOf]⟩
  | release lock => exact ⟨acquire, present, by simp [LockEvent.turnOf]⟩
  | advance i reply =>
    rw [step]
    simp only [LockEvent.turnOf, beq_iff_eq]
    rcases shared.advance_cases i reply with
      ⟨idle, same⟩ | ⟨lock, phase, next, going, made, _, after⟩
    · rw [same]
      refine ⟨acquire, present, ?_⟩
      by_cases turn : i = j
      · subst turn
        obtain ⟨lock, next⟩ := acquire
        cases next with
        | go phase => exact absurd present (idle lock phase)
        | stop result => simp [StackLock.Next.callsLeft]
      · rw [if_neg turn]
        exact Nat.le_refl _
    · rw [after]
      by_cases turn : i = j
      · subst turn
        rw [going] at present
        cases present
        refine ⟨⟨lock, next⟩, List.getElem?_set_self bound, ?_⟩
        cases next with
        | stop result => exact Nat.zero_le _
        | go next =>
          have fewer := StackLock.remaining_step made
          simp only [StackLock.Next.callsLeft, if_true]
          omega
      · refine ⟨acquire, (List.getElem?_set_ne turn).trans present, ?_⟩
        rw [if_neg turn]
        exact Nat.le_refl _

theorem callsLeft_run (shared : SharedStore σ) (events : List LockEvent) (j : Nat)
    (acquire : Acquiring) (present : shared.acquires[j]? = some acquire) :
    ∃ later, (shared.run events).acquires[j]? = some later ∧
      later.next.callsLeft ≤ acquire.next.callsLeft - events.countP (·.turnOf j) := by
  induction events generalizing shared acquire with
  | nil => exact ⟨acquire, present, Nat.le_refl _⟩
  | cons event rest ih =>
    obtain ⟨next, presentNext, stepped⟩ := callsLeft_step shared event j acquire present
    obtain ⟨later, presentLater, fewer⟩ := ih (shared.step event) next presentNext
    refine ⟨later, presentLater, ?_⟩
    rw [List.countP_cons]
    omega

/-- Seven turns are enough for every acquire. -/
theorem finished_of_turns (shared : SharedStore σ) (events : List LockEvent)
    (turns : ∀ event ∈ events, ∃ i reply, event = .advance i reply)
    (enough : ∀ i < shared.acquires.length, 7 ≤ events.countP (·.turnOf i)) :
    (shared.run events).Finished := by
  intro acquire member
  obtain ⟨i, present⟩ := List.getElem?_of_mem member
  have bound : i < shared.acquires.length := by
    have length := congrArg List.length (shared.locks_run events turns)
    rw [locks, locks, List.length_map, List.length_map] at length
    rw [← length]
    exact (List.getElem?_eq_some_iff.mp present).1
  obtain ⟨later, found, fewer⟩ :=
    callsLeft_run shared events i _ (List.getElem?_eq_getElem bound)
  rw [present] at found
  cases found
  have most := StackLock.Next.callsLeft_le shared.acquires[i].next
  have turnsOf := enough i bound
  exact StackLock.Next.stop_of_callsLeft _ (by omega)

/-! ## The winner -/

def contest (store : σ) (contenders : List StackLock) : SharedStore σ :=
  ⟨store, contenders.map fun lock => ⟨lock, .go (.creating none)⟩⟩

omit [LockStore σ] [LawfulLockStore σ] in
theorem locks_contest (store : σ) (contenders : List StackLock) :
    (contest store contenders).locks = contenders := by
  simp [contest, locks, Function.comp_def]

/-- One of the contenders acquired the stack and is its recorded holder, and every other was told
its name. -/
def OneWinner (stack : String) (contenders : List StackLock) (shared : SharedStore σ) : Prop :=
  ∃ (i : Nat) (winner : StackLock), contenders[i]? = some winner ∧
    shared.acquires[i]? = some ⟨winner, .stop (.ok ())⟩ ∧
    shared.records stack = some winner.engine ∧
    ∀ j loser, j ≠ i → contenders[j]? = some loser →
      shared.acquires[j]? = some ⟨loser, .stop (.error (.actionInProgress stack winner.engine))⟩

theorem Decided.oneWinner (stack : String) (vacant : Option String) (shared : SharedStore σ)
    (i : Nat) (winner : StackLock) (decided : Decided stack vacant shared i winner)
    (finished : shared.Finished) (onStack : ∀ lock ∈ shared.locks, lock.stack = stack) :
    OneWinner stack shared.locks shared := by
  refine ⟨i, winner, by simp [locks, decided.won], decided.won, decided.recorded, ?_⟩
  intro j loser apart found
  rw [locks, List.getElem?_map, Option.map_eq_some_iff] at found
  obtain ⟨⟨lock, next⟩, present, rfl⟩ := found
  obtain ⟨result, ended⟩ := finished _ (List.mem_of_getElem? present)
  have losing := decided.losing j _ apart present
  have named := onStack lock (mem_locks shared j _ present)
  simp only at ended losing
  subst ended
  rw [present, show result = _ from losing, StackLock.inProgress, named]

/-- Of live engines that want a stack which nobody live holds, exactly one acquires it, and all
others are told its name. -/
theorem exactly_one_winner [UnfailingLockStore σ] (store : σ) (stack : String)
    (contenders : List StackLock) (someone : contenders ≠ [])
    (onStack : ∀ lock ∈ contenders, lock.stack = stack) (events : List LockEvent)
    (turns : ∀ event ∈ events, ∃ i reply, event = .advance i reply)
    (live : ∀ lock ∈ contenders, Live lock.engine (contest store contenders) events)
    (stale : ∀ holder, LawfulLockStore.records store stack = some holder →
      Dead holder (contest store contenders) events ∧ ∀ lock ∈ contenders, lock.engine ≠ holder) :
    ((∀ i < contenders.length, 7 ≤ events.countP (·.turnOf i)) →
        ((contest store contenders).run events).Finished) ∧
      (((contest store contenders).run events).Finished →
        OneWinner stack contenders ((contest store contenders).run events)) := by
  have same := locks_contest store contenders
  constructor
  · intro enough
    refine finished_of_turns _ events turns ?_
    simpa [contest] using enough
  · intro finished
    have waiting : Undecided stack (LawfulLockStore.records store stack)
        (contest store contenders) := by
      refine ⟨rfl, ?_⟩
      intro acquire member
      obtain ⟨lock, _, rfl⟩ := List.mem_map.mp member
      trivial
    have ended := contest_run stack (LawfulLockStore.records store stack) (contest store contenders)
      events turns (by
        rw [same]
        exact fun lock member => ⟨onStack lock member, fun held =>
          (stale lock.engine held).2 lock member rfl⟩)
      (fun holder held => (stale holder held).1) (by rwa [same]) (.inl waiting)
    have kept := (locks_run (contest store contenders) events turns).trans same
    generalize (contest store contenders).run events = final at finished ended kept ⊢
    rcases ended with undecided | ⟨i, winner, decided⟩
    · have present : final.acquires ≠ [] := by
        intro empty
        exact someone (by rw [← kept, locks, empty, List.map_nil])
      obtain ⟨acquire, member⟩ := List.exists_mem_of_ne_nil _ present
      obtain ⟨result, stopped⟩ := finished acquire member
      have still := undecided.waiting acquire member
      rw [stopped] at still
      cases still
    · rw [← kept] at onStack ⊢
      exact Decided.oneWinner stack _ final i winner decided finished onStack

def staleStore : MemoryStore := ⟨[("app", "gone")], []⟩

def blueAndGreen : List StackLock := [⟨"app", "blue", 2000⟩, ⟨"app", "green", 2000⟩]

/-- Both find the engine that is gone; the second is too late to steal, and asks the first. -/
def stealAtOnce : List LockEvent :=
  [.advance 0 none, .advance 1 none, .advance 0 none, .advance 1 none, .advance 0 none,
    .advance 1 none, .advance 1 none, .advance 1 (some ⟨5, true⟩)]

theorem one_winner_of_stealAtOnce :
    (∀ lock ∈ blueAndGreen, Live lock.engine (contest staleStore blueAndGreen) stealAtOnce) ∧
      Dead "gone" (contest staleStore blueAndGreen) stealAtOnce ∧
      ((contest staleStore blueAndGreen).run stealAtOnce).Finished ∧
      OneWinner "app" blueAndGreen ((contest staleStore blueAndGreen).run stealAtOnce) := by
  have live : ∀ lock ∈ blueAndGreen,
      Live lock.engine (contest staleStore blueAndGreen) stealAtOnce := by decide
  have dead : Dead "gone" (contest staleStore blueAndGreen) stealAtOnce := by decide
  have finished : ((contest staleStore blueAndGreen).run stealAtOnce).Finished := by
    intro acquire member
    simp only [blueAndGreen] at member
    rcases List.mem_cons.mp member with rfl | member
    · exact ⟨_, rfl⟩
    · rw [List.mem_singleton.mp member]
      exact ⟨_, rfl⟩
  have winner := exactly_one_winner staleStore "app" blueAndGreen (by simp [blueAndGreen])
    (by simp [blueAndGreen]) stealAtOnce (by simp [stealAtOnce]) live (by
      rintro holder ⟨⟩
      exact ⟨dead, by simp [blueAndGreen]⟩)
  exact ⟨live, dead, finished, winner.2 finished⟩

end SharedStore

end Orchestration
