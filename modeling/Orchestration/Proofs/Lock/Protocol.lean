import Mathlib.Algebra.GroupWithZero.Nat
import Mathlib.Data.List.Chain
import Orchestration.Lock.Acquire

/-!
# What an acquire asks, and when

An acquire makes one attempt or two: a create, a ping to the engine that the create found, and a
steal from that engine if it was not heard.  A refused steal leads to the second attempt, and a
second one to the question who holds the stack.  `Follows` says which exchange may come right after
which, and `Ends` what the last one makes of the acquire.

Nothing is assumed of the store or of the engines: answers may contradict each other, refuse or
fail.
-/

set_option autoImplicit false

namespace Orchestration

inductive CallKind where
  | create
  | ping
  | steal
  | holder
  | release
  deriving DecidableEq

def LockCall.kind : LockCall → CallKind
  | .create _ _ => .create
  | .ping _ _ => .ping
  | .steal _ _ _ => .steal
  | .holder _ => .holder
  | .release _ _ => .release

inductive Exchange where
  | create (stack engine : String) (answer : Except StoreError (Option String))
  | ping (engine stack : String) (reply : Option PingReply)
  | steal (stack old new : String) (answer : Except StoreError Bool)
  | holder (stack : String) (answer : Except StoreError (Option String))
  | release (stack engine : String) (answer : Except StoreError Bool)

namespace Exchange

def call : Exchange → LockCall
  | .create stack engine _ => .create stack engine
  | .ping engine stack _ => .ping engine stack
  | .steal stack old new _ => .steal stack old new
  | .holder stack _ => .holder stack
  | .release stack engine _ => .release stack engine

def waited (timeout : Nat) : Exchange → Nat
  | .ping _ _ reply => PingReply.waited timeout reply
  | _ => 0

def failure? : Exchange → Option StoreError
  | .create _ _ (.error e) | .holder _ (.error e) => some e
  | .steal _ _ _ (.error e) | .release _ _ (.error e) => some e
  | _ => none

def kind (exchange : Exchange) : CallKind := exchange.call.kind

def isRefusal : Exchange → Bool
  | .steal _ _ _ (.ok false) => true
  | _ => false

theorem isRefusal_of_kind (exchange : Exchange) (other : exchange.kind ≠ .steal) :
    exchange.isRefusal = false := by
  cases exchange with
  | steal => exact absurd rfl other
  | _ => rfl

theorem waited_sum_le (timeout : Nat) (exchanges : List Exchange) :
    (exchanges.map (waited timeout)).sum ≤ (exchanges.map kind).count .ping * timeout := by
  induction exchanges with
  | nil => exact Nat.zero_le _
  | cons exchange rest ih =>
    rw [List.map_cons, List.sum_cons, List.map_cons, List.count_cons, Nat.add_mul]
    have here : exchange.waited timeout ≤ (if exchange.kind == .ping then 1 else 0) * timeout := by
      cases exchange with
      | ping engine stack reply =>
        have once : (if (kind (.ping engine stack reply) == .ping) = true then 1 else 0) = 1 := rfl
        rw [once, Nat.one_mul]
        exact PingReply.waited_le timeout reply
      | _ => exact Nat.zero_le _
    omega

end Exchange

/-! ## What comes back from calls -/

namespace LockCall

variable {σ : Type} [LockStore σ] [Listener σ]

def make (call : LockCall) (world : σ) : Exchange × σ :=
  match call with
  | .create stack engine =>
    let (answer, world) := LockStore.create stack engine world
    (.create stack engine answer, world)
  | .ping engine stack =>
    let (reply, world) := Listener.ping engine stack world
    (.ping engine stack reply, world)
  | .steal stack old new =>
    let (answer, world) := LockStore.steal stack old new world
    (.steal stack old new answer, world)
  | .holder stack =>
    let (answer, world) := LockStore.holder stack world
    (.holder stack answer, world)
  | .release stack engine =>
    let (answer, world) := LockStore.release stack engine world
    (.release stack engine answer, world)

def exchanges : List LockCall → σ → List Exchange
  | [], _ => []
  | call :: rest, world => (call.make world).1 :: exchanges rest (call.make world).2

def worldAfter (calls : List LockCall) (world : σ) : σ :=
  calls.foldl (fun world call => (call.make world).2) world

theorem call_make (call : LockCall) (world : σ) : (call.make world).1.call = call := by
  cases call <;> rfl

theorem map_call_exchanges (calls : List LockCall) (world : σ) :
    (exchanges calls world).map Exchange.call = calls := by
  induction calls generalizing world with
  | nil => rfl
  | cons call rest ih => rw [exchanges, List.map_cons, call_make, ih]

end LockCall

namespace StackLock

/-! ## The order of exchanges -/

variable (lock : StackLock)

/-- The second exchange may come right after the first.  Nothing comes after an error of the
store. -/
inductive Follows : Exchange → Exchange → Prop where
  | ping (found : String) (reply : Option PingReply) (another : found ≠ lock.engine) :
    Follows (.create lock.stack lock.engine (.ok (some found))) (.ping found lock.stack reply)
  | steal (found : String) (reply : Option PingReply) (answer : Except StoreError Bool)
    (missed : PingReply.heard lock.pingTimeout reply = false) :
    Follows (.ping found lock.stack reply) (.steal lock.stack found lock.engine answer)
  | retry (old : String) (answer : Except StoreError (Option String)) :
    Follows (.steal lock.stack old lock.engine (.ok false))
      (.create lock.stack lock.engine answer)
  | holder (old : String) (answer : Except StoreError (Option String)) :
    Follows (.steal lock.stack old lock.engine (.ok false)) (.holder lock.stack answer)

/-- The exchange ends an acquire with the result. -/
inductive Ends : Exchange → Except Failure Unit → Prop where
  | failed (last : Exchange) (error : StoreError) (answered : last.failure? = some error) :
    Ends last (.error (.store error))
  | created : Ends (.create lock.stack lock.engine (.ok none)) (.ok ())
  | own : Ends (.create lock.stack lock.engine (.ok (some lock.engine)))
      (.error (lock.inProgress lock.engine))
  | heard (found : String) (reply : Option PingReply)
    (answered : PingReply.heard lock.pingTimeout reply = true) :
    Ends (.ping found lock.stack reply) (.error (lock.inProgress found))
  | stolen (old : String) : Ends (.steal lock.stack old lock.engine (.ok true)) (.ok ())
  | named (answer : Option String) (holder : String) (told : ∀ name ∈ answer, holder = name) :
    Ends (.holder lock.stack (.ok answer)) (.error (lock.inProgress holder))

def twoAttempts : List CallKind :=
  [.create, .ping, .steal, .create, .ping, .steal]

/-- The exchanges of an acquire with this result. -/
structure Protocol (exchanges : List Exchange) (result : Except Failure Unit) : Prop where
  attempts : exchanges.map Exchange.kind <+: twoAttempts ++ [.holder]
  starts : ∃ answer, exchanges.head? = some (.create lock.stack lock.engine answer)
  follows : exchanges.IsChain lock.Follows
  ends : ∃ last, exchanges.getLast? = some last ∧ lock.Ends last result

variable {lock}

theorem before_holder (before after : List CallKind)
    (plan : before ++ .holder :: after <+: twoAttempts ++ [.holder]) :
    before = twoAttempts ∧ after = [] := by
  obtain ⟨rest, whole⟩ := plan
  rw [List.append_assoc, List.cons_append] at whole
  rcases List.append_eq_append_iff.mp whole with ⟨more, attempts, tail⟩ | ⟨more, rfl, tail⟩
  · cases more with
    | nil =>
      rw [List.append_nil] at attempts
      simp_all
    | cons kind others =>
      obtain ⟨rfl, -⟩ := List.cons.inj tail
      have among : CallKind.holder ∈ twoAttempts := by simp [attempts]
      exact absurd among (by decide)
  · cases more with
    | nil => simp_all
    | cons kind others => simp at tail

namespace Protocol

variable {exchanges : List Exchange} {result : Except Failure Unit}
  (protocol : lock.Protocol exchanges result)
include protocol

theorem failed (before after : List Exchange) (exchange : Exchange) (error : StoreError)
    (split : exchanges = before ++ exchange :: after)
    (answered : exchange.failure? = some error) :
    after = [] ∧ result = .error (.store error) := by
  cases after with
  | cons next rest =>
    have follows : lock.Follows exchange next :=
      List.isChain_iff_forall_rel_of_append_cons_cons.mp protocol.follows split
    cases follows <;> cases answered
  | nil =>
    obtain ⟨last, isLast, ends⟩ := protocol.ends
    rw [split, List.getLast?_concat] at isLast
    cases isLast
    refine ⟨rfl, ?_⟩
    cases ends with
    | failed _ e said => rw [Option.some.inj (said.symm.trans answered)]
    | _ => cases answered

theorem refused_twice (before after : List Exchange) (stack : String)
    (answer : Except StoreError (Option String))
    (split : exchanges = before ++ .holder stack answer :: after) :
    before.countP Exchange.isRefusal = 2 ∧ after = [] := by
  have attempts := protocol.attempts
  have follows := protocol.follows
  rw [split, List.map_append, List.map_cons] at attempts
  rw [split] at follows
  obtain ⟨kinds, none⟩ := before_holder _ _ attempts
  cases List.map_eq_nil_iff.mp none
  refine ⟨?_, rfl⟩
  obtain ⟨first, _, rfl, one, kinds⟩ := List.map_eq_cons_iff.mp kinds
  obtain ⟨second, _, rfl, two, kinds⟩ := List.map_eq_cons_iff.mp kinds
  obtain ⟨third, _, rfl, -, kinds⟩ := List.map_eq_cons_iff.mp kinds
  obtain ⟨fourth, _, rfl, four, kinds⟩ := List.map_eq_cons_iff.mp kinds
  obtain ⟨fifth, _, rfl, five, kinds⟩ := List.map_eq_cons_iff.mp kinds
  obtain ⟨sixth, _, rfl, -, kinds⟩ := List.map_eq_cons_iff.mp kinds
  cases List.map_eq_nil_iff.mp kinds
  simp only [List.cons_append, List.nil_append, List.isChain_cons_cons] at follows
  obtain ⟨-, -, retried, -, -, asked, -⟩ := follows
  -- A steal that something comes after was refused.
  have refused : third.isRefusal = true := by
    cases retried with
    | retry => rfl
    | _ => cases four
  have refusedAgain : sixth.isRefusal = true := by
    cases asked
    rfl
  have others : first.isRefusal = false ∧ second.isRefusal = false ∧ fourth.isRefusal = false ∧
      fifth.isRefusal = false := by
    refine ⟨?_, ?_, ?_, ?_⟩ <;> refine Exchange.isRefusal_of_kind _ ?_
    · rw [one]; decide
    · rw [two]; decide
    · rw [four]; decide
    · rw [five]; decide
  simp [refused, refusedAgain, others]

theorem count_le (kind : CallKind) :
    (exchanges.map Exchange.kind).count kind ≤ (twoAttempts ++ [CallKind.holder]).count kind :=
  protocol.attempts.sublist.count_le kind

end Protocol

/-! ## The exchanges of one step -/

variable {σ : Type} [LockStore σ] [Listener σ]

/-- The kinds of the calls that may come from a phase on. -/
def Phase.plan : Phase → List CallKind
  | .creating none => twoAttempts ++ [.holder]
  | .pinging none _ => [.ping, .steal, .create, .ping, .steal, .holder]
  | .stealing none _ => [.steal, .create, .ping, .steal, .holder]
  | .creating (some _) => [.create, .ping, .steal, .holder]
  | .pinging (some _) _ => [.ping, .steal, .holder]
  | .stealing (some _) _ => [.steal, .holder]
  | .asking _ => [.holder]

def exchange (lock : StackLock) (phase : Phase) (world : σ) : Exchange :=
  ((lock.step phase world).call.make world).1

theorem world_step (phase : Phase) (world : σ) :
    ((lock.step phase world).call.make world).2 = (lock.step phase world).world := by
  cases phase <;> rfl

theorem waited_step (phase : Phase) (world : σ) :
    (lock.exchange phase world).waited lock.pingTimeout = (lock.step phase world).waited := by
  cases phase <;> rfl

theorem follows_step (phase later : Phase) (world next : σ)
    (going : (lock.step phase world).next = .go later) :
    lock.Follows (lock.exchange phase world) (lock.exchange later next) ∧
      phase.plan = (lock.exchange phase world).kind :: later.plan := by
  cases phase with
  | creating earlier =>
    simp only [step] at going
    simp only [exchange, step, LockCall.make]
    generalize (LockStore.create lock.stack lock.engine world).1 = answer at going ⊢
    unfold created at going
    split at going
    · cases going
    · cases going
    · split at going
      · cases going
      · rename_i holder another
        cases going
        refine ⟨.ping holder _ another, ?_⟩
        cases earlier <;> rfl
  | pinging earlier holder =>
    simp only [step] at going
    simp only [exchange, step, LockCall.make]
    generalize (Listener.ping holder lock.stack world).1 = reply at going ⊢
    unfold pinged at going
    split at going
    · cases going
    · rename_i missed
      cases going
      refine ⟨.steal holder reply _ (Bool.not_eq_true _ ▸ missed), ?_⟩
      cases earlier <;> rfl
  | stealing earlier holder =>
    simp only [step] at going
    simp only [exchange, step, LockCall.make]
    generalize (LockStore.steal lock.stack holder lock.engine world).1 = answer at going ⊢
    unfold stolen at going
    split at going
    · cases going
    · cases going
    · cases earlier with
      | none =>
        cases going
        exact ⟨.retry holder _, rfl⟩
      | some earlier =>
        cases going
        exact ⟨.holder holder _, rfl⟩
  | asking earlier =>
    simp only [step, asked] at going
    split at going <;> cases going

theorem ends_step (phase : Phase) (world : σ) (result : Except Failure Unit)
    (stopped : (lock.step phase world).next = .stop result) :
    lock.Ends (lock.exchange phase world) result ∧
      [(lock.exchange phase world).kind] <+: phase.plan := by
  cases phase with
  | creating earlier =>
    simp only [step] at stopped
    simp only [exchange, step, LockCall.make]
    generalize (LockStore.create lock.stack lock.engine world).1 = answer at stopped ⊢
    refine ⟨?_, by cases earlier <;> exact ⟨_, rfl⟩⟩
    unfold created at stopped
    split at stopped
    · cases stopped
      exact .failed _ _ rfl
    · cases stopped
      exact .created
    · split at stopped
      · rename_i own
        cases stopped
        rw [own]
        exact .own
      · cases stopped
  | pinging earlier holder =>
    simp only [step] at stopped
    simp only [exchange, step, LockCall.make]
    generalize (Listener.ping holder lock.stack world).1 = reply at stopped ⊢
    refine ⟨?_, by cases earlier <;> exact ⟨_, rfl⟩⟩
    unfold pinged at stopped
    split at stopped
    · rename_i answered
      cases stopped
      exact .heard holder reply answered
    · cases stopped
  | stealing earlier holder =>
    simp only [step] at stopped
    simp only [exchange, step, LockCall.make]
    generalize (LockStore.steal lock.stack holder lock.engine world).1 = answer at stopped ⊢
    refine ⟨?_, by cases earlier <;> exact ⟨_, rfl⟩⟩
    unfold stolen at stopped
    split at stopped
    · cases stopped
      exact .failed _ _ rfl
    · cases stopped
      exact .stolen holder
    · cases earlier <;> cases stopped
  | asking earlier =>
    simp only [step] at stopped
    simp only [exchange, step, LockCall.make]
    generalize (LockStore.holder lock.stack world).1 = answer at stopped ⊢
    refine ⟨?_, ⟨[], rfl⟩⟩
    unfold asked at stopped
    split at stopped
    · cases stopped
      exact .failed _ _ rfl
    · rename_i found
      cases stopped
      refine .named found _ fun name told => ?_
      cases told
      rfl

/-! ## The exchanges of a run -/

/-- What the exchanges of a run from a phase on are. -/
structure Conforms (lock : StackLock) (phase : Phase) (world : σ) (outcome : LockOutcome σ Unit) :
    Prop where
  plan : (LockCall.exchanges outcome.calls world).map Exchange.kind <+: phase.plan
  first : (LockCall.exchanges outcome.calls world).head? = some (lock.exchange phase world)
  follows : (LockCall.exchanges outcome.calls world).IsChain lock.Follows
  ends : ∃ last, (LockCall.exchanges outcome.calls world).getLast? = some last ∧
    lock.Ends last outcome.result
  waited : outcome.waited =
    ((LockCall.exchanges outcome.calls world).map (Exchange.waited lock.pingTimeout)).sum
  world_after : outcome.world = LockCall.worldAfter outcome.calls world

theorem exchanges_step (phase : Phase) (world : σ) (calls : List LockCall) :
    LockCall.exchanges ((lock.step phase world).call :: calls) world =
      lock.exchange phase world :: LockCall.exchanges calls (lock.step phase world).world := by
  rw [LockCall.exchanges, world_step]
  rfl

theorem run_conforms (lock : StackLock) (phase : Phase) (world : σ) :
    lock.Conforms phase world (lock.run phase world) := by
  have waits : (lock.exchange phase world).waited lock.pingTimeout =
      (lock.step phase world).waited := waited_step phase world
  have moved : ((lock.step phase world).call.make world).2 = (lock.step phase world).world :=
    world_step phase world
  rw [run]
  split
  · rename_i result stopped
    obtain ⟨ends, plan⟩ := ends_step phase world result stopped
    exact ⟨plan, rfl, .singleton _, ⟨_, rfl, ends⟩, waits.symm, moved.symm⟩
  · rename_i next going
    have fewer := remaining_step going
    have later := run_conforms lock next (lock.step phase world).world
    obtain ⟨follows, plan⟩ := follows_step phase next world (lock.step phase world).world going
    obtain ⟨last, isLast, ends⟩ := later.ends
    constructor <;> simp only [exchanges_step]
    case plan =>
      rw [plan, List.map_cons]
      exact (List.prefix_cons_inj _).mpr later.plan
    case first => rfl
    case follows =>
      refine .cons later.follows fun second isSecond => ?_
      cases later.first.symm.trans isSecond
      exact follows
    case ends => exact ⟨last, by rw [List.getLast?_cons, isLast, Option.getD_some], ends⟩
    case waited => rw [List.map_cons, List.sum_cons, waits, later.waited]
    case world_after =>
      rw [LockCall.worldAfter, List.foldl_cons, moved]
      exact later.world_after
termination_by phase.remaining

/-- Whatever the store and the engines answer, an acquire is one attempt or two.  An error of the
store ends it, and it waits no longer than two timeouts. -/
theorem acquire_follows_protocol (lock : StackLock) (world : σ) :
    let outcome := lock.acquire world
    let exchanges := LockCall.exchanges outcome.calls world
    exchanges.map Exchange.call = outcome.calls ∧
      outcome.world = LockCall.worldAfter outcome.calls world ∧
      lock.Protocol exchanges outcome.result ∧
      (∀ before exchange after, exchanges = before ++ exchange :: after →
        (∀ error, exchange.failure? = some error →
          after = [] ∧ outcome.result = .error (.store error)) ∧
        (exchange.kind = .holder → before.countP Exchange.isRefusal = 2 ∧ after = [])) ∧
      (exchanges.map Exchange.kind).count .create ≤ 2 ∧
      (exchanges.map Exchange.kind).count .ping ≤ 2 ∧
      (exchanges.map Exchange.kind).count .steal ≤ 2 ∧
      (exchanges.map Exchange.kind).count .holder ≤ 1 ∧
      outcome.waited = (exchanges.map (Exchange.waited lock.pingTimeout)).sum ∧
      outcome.waited ≤ 2 * lock.pingTimeout := by
  intro outcome exchanges
  have run := run_conforms lock (.creating none) world
  have protocol : lock.Protocol exchanges outcome.result :=
    ⟨run.plan, ⟨_, run.first⟩, run.follows, run.ends⟩
  have pings : (exchanges.map Exchange.kind).count .ping ≤ 2 := protocol.count_le .ping
  refine ⟨LockCall.map_call_exchanges _ _, run.world_after, protocol, ?_, protocol.count_le .create,
    pings, protocol.count_le .steal, protocol.count_le .holder, run.waited, ?_⟩
  · intro before exchange after split
    refine ⟨fun error => protocol.failed before after exchange error split, fun asks => ?_⟩
    cases exchange with
    | holder stack answer => exact protocol.refused_twice before after stack answer split
    | _ => cases asks
  · calc outcome.waited
        = (exchanges.map (Exchange.waited lock.pingTimeout)).sum := run.waited
      _ ≤ (exchanges.map Exchange.kind).count .ping * lock.pingTimeout :=
        Exchange.waited_sum_le _ _
      _ ≤ 2 * lock.pingTimeout := Nat.mul_le_mul_right _ pings

end StackLock

end Orchestration
