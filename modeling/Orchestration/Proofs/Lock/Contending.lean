import Orchestration.Lock.Contention
import Orchestration.Proofs.Lock.Interference

/-!
# Acquiring from a contended store

What is planned before a call are requests of others, an error or a refusal.  Whatever the plans
are, an acquire takes the stack with its last call, or leaves the store to what the others asked of
it.
-/

set_option autoImplicit false

namespace Orchestration

namespace Interference

def request? (stack : String) : Interference → Option LockRequest
  | .create engine => some (.create stack engine)
  | .steal old new => some (.steal stack old new)
  | .release engine => some (.release stack engine)
  | .refuse | .fail _ => none

variable {τ : Type} [LockStore τ]

theorem carryOut_request (stack : String) (act : Interference) (request : LockRequest)
    (asks : act.request? stack = some request) (rest : List Interference) (store : τ) :
    (carryOut stack (act :: rest) store).2 = (request.perform store).2 ∨
      carryOut stack (act :: rest) store = carryOut stack rest (request.perform store).2 := by
  cases act with
  | refuse => cases asks
  | fail reason => cases asks
  | create | steal | release =>
    cases asks
    simp only [carryOut, LockRequest.perform]
    split
    all_goals rename_i answered
    · exact .inr (by rw [answered])
    · exact .inl (by rw [answered])

/-- Carrying out a plan performs its requests, the first ones of them if one fails. -/
theorem carryOut_performs (stack : String) (plan : List Interference) (store : τ) :
    ∃ done, done <+: plan.filterMap (request? stack) ∧
      (carryOut stack plan store).2 = LockRequest.performAll done store := by
  induction plan generalizing store with
  | nil => exact ⟨[], List.nil_prefix, rfl⟩
  | cons act rest ih =>
    cases asks : act.request? stack with
    | none =>
      refine ⟨[], List.nil_prefix, ?_⟩
      cases act with
      | refuse => rfl
      | fail reason => rfl
      | create | steal | release => cases asks
    | some request =>
      rw [List.filterMap_cons_some asks]
      rcases carryOut_request stack act request asks rest store with failed | goes
      · exact ⟨[request], List.cons_prefix_cons.mpr ⟨rfl, List.nil_prefix⟩, failed⟩
      · obtain ⟨done, first, performed⟩ := ih (request.perform store).2
        exact ⟨request :: done, List.cons_prefix_cons.mpr ⟨rfl, first⟩, goes ▸ performed⟩

end Interference

namespace InterferencePlans

def all (plans : InterferencePlans) : List (List Interference) :=
  plans.creates ++ plans.steals ++ plans.releases ++ plans.holders

theorem all_subset {plans later : InterferencePlans} (creates : later.creates ⊆ plans.creates)
    (steals : later.steals ⊆ plans.steals) (releases : later.releases ⊆ plans.releases)
    (holders : later.holders ⊆ plans.holders) : later.all ⊆ plans.all := by
  intro plan member
  simp only [all, List.mem_append] at member ⊢
  exact member.imp (Or.imp (Or.imp (@creates plan) (@steals plan)) (@releases plan)) (@holders plan)

end InterferencePlans

section Others

variable {τ : Type} [LockStore τ]

/-- The second store is what others made of the first with requests that they planned. -/
def InterferencePlans.Lead (plans : InterferencePlans) (stack : String) (before after : τ) : Prop :=
  ∃ acts, (∀ act ∈ acts, ∃ plan ∈ plans.all, act ∈ plan.filterMap (Interference.request? stack)) ∧
    after = LockRequest.performAll acts before

namespace InterferencePlans.Lead

variable {plans later : InterferencePlans} {stack : String} {first second third : τ}

theorem trans (one : plans.Lead stack first second) (two : later.Lead stack second third)
    (fewer : later.all ⊆ plans.all) : plans.Lead stack first third := by
  obtain ⟨early, planned, rfl⟩ := one
  obtain ⟨late, plannedLater, rfl⟩ := two
  refine ⟨early ++ late, fun act member => ?_, (LockRequest.performAll_append ..).symm⟩
  rcases List.mem_append.mp member with before | after
  · exact planned act before
  · obtain ⟨plan, among, member⟩ := plannedLater act after
    exact ⟨plan, fewer among, member⟩

theorem of_head {of : List (List Interference)} (among : of ⊆ plans.all) (done : List LockRequest)
    (first : done <+: (of.headD []).filterMap (Interference.request? stack)) (store : τ) :
    plans.Lead stack store (LockRequest.performAll done store) := by
  refine ⟨done, fun act member => ?_, rfl⟩
  have planned := first.subset member
  cases of with
  | nil => cases planned
  | cons plan rest => exact ⟨plan, among (List.mem_cons_self ..), planned⟩

end InterferencePlans.Lead

namespace Contended

variable {α : Type} {stack : String} {plan : List Interference} {refused : Option α}
  {call : τ → Except StoreError α × τ} {world : Contended τ}

theorem plans_after : (world.after stack plan refused call).2.plans = world.plans := by
  unfold after
  split
  · rfl
  · split <;> rfl

theorem after_still (still : ∀ store, (call store).1 = (world.after stack plan refused call).1 →
    (call store).2 = store) :
    ∃ done, done <+: plan.filterMap (Interference.request? stack) ∧
      (world.after stack plan refused call).2.store = LockRequest.performAll done world.store := by
  obtain ⟨done, first, performed⟩ := Interference.carryOut_performs stack plan world.store
  refine ⟨done, first, ?_⟩
  rw [← performed]
  unfold after at still ⊢
  generalize Interference.carryOut stack plan world.store = carried at still
  obtain ⟨answer, reached⟩ := carried
  cases answer with
  | error e => rfl
  | ok goAhead =>
    simp only at still ⊢
    split at still
    · rfl
    · exact still reached rfl

theorem after_taken {value : α} (unlike : refused ≠ some value)
    (answered : (world.after stack plan refused call).1 = .ok value) :
    ∃ reached, call reached = (.ok value, (world.after stack plan refused call).2.store) := by
  unfold after at answered ⊢
  generalize Interference.carryOut stack plan world.store = carried at answered
  obtain ⟨answer, reached⟩ := carried
  cases answer with
  | error e => cases answered
  | ok goAhead =>
    simp only at answered ⊢
    split at answered
    · cases answered
      exact absurd rfl unlike
    · exact ⟨reached, Prod.ext answered rfl⟩

end Contended

end Others

namespace StackLock

variable {τ : Type} [LockStore τ] [LawfulLockStore τ] [StillLockStore τ]

/-- What an acquire, or one step of it, makes of a contended store: it uses up plans, and it takes
the stack or leaves the store to the others. -/
structure TakesOrLeaves (lock : StackLock) (before : Contended τ) (takes : Prop)
    (after : Contended τ) : Prop where
  fewer : after.plans.all ⊆ before.plans.all
  taken : takes → LawfulLockStore.records after.store lock.stack = some lock.engine
  left : ¬ takes → before.plans.Lead lock.stack before.store after.store

theorem created_takes_iff (lock : StackLock) (earlier : Option String)
    (answer : Except StoreError (Option String)) :
    lock.created earlier answer = .stop (.ok ()) ↔ answer = .ok none := by
  unfold created
  split
  · simp
  · simp
  · split <;> simp

theorem stolen_takes_iff (earlier : Option String) (holder : String)
    (answer : Except StoreError Bool) :
    stolen earlier holder answer = .stop (.ok ()) ↔ answer = .ok true := by
  unfold stolen
  split
  · simp
  · simp
  · cases earlier <;> simp

theorem step_contended (lock : StackLock) (phase : Phase) (world : Contended τ) :
    lock.TakesOrLeaves world ((lock.step phase world).next = .stop (.ok ()))
      (lock.step phase world).world := by
  cases phase with
  | creating earlier =>
    simp only [step, LockStore.create, created_takes_iff]
    refine ⟨?_, fun taken => ?_, fun other => ?_⟩
    · rw [Contended.plans_after]
      exact InterferencePlans.all_subset (List.tail_sublist _).subset (.refl _) (.refl _) (.refl _)
    · obtain ⟨reached, called⟩ := Contended.after_taken (by simp) taken
      have spec := LawfulLockStore.create_spec lock.stack lock.engine reached
      rw [called] at spec
      rw [spec.2, LockRecords.take_self]
    · obtain ⟨done, first, performed⟩ := Contended.after_still fun store same =>
        StillLockStore.create_still lock.stack lock.engine store (same ▸ other)
      rw [performed]
      exact .of_head (by simp [InterferencePlans.all]) done first world.store
  | pinging earlier holder =>
    refine ⟨.refl _, fun taken => ?_, fun _ => ⟨[], by simp, rfl⟩⟩
    simp only [step, pinged] at taken
    split at taken <;> cases taken
  | stealing earlier holder =>
    simp only [step, LockStore.steal, stolen_takes_iff]
    refine ⟨?_, fun taken => ?_, fun other => ?_⟩
    · rw [Contended.plans_after]
      exact InterferencePlans.all_subset (.refl _) (List.tail_sublist _).subset (.refl _) (.refl _)
    · obtain ⟨reached, called⟩ := Contended.after_taken (by simp) taken
      have spec := LawfulLockStore.steal_spec lock.stack holder lock.engine reached
      rw [called] at spec
      rw [spec.2, LockRecords.take_self]
    · obtain ⟨done, first, performed⟩ := Contended.after_still fun store same =>
        StillLockStore.steal_still lock.stack holder lock.engine store (same ▸ other)
      rw [performed]
      exact .of_head (by simp [InterferencePlans.all]) done first world.store
  | asking earlier =>
    simp only [step, LockStore.holder]
    refine ⟨?_, fun taken => ?_, fun _ => ?_⟩
    · rw [Contended.plans_after]
      exact InterferencePlans.all_subset (.refl _) (.refl _) (.refl _) (List.tail_sublist _).subset
    · unfold asked at taken
      split at taken <;> cases taken
    · obtain ⟨done, first, performed⟩ := Contended.after_still fun (store : τ) _ =>
        StillLockStore.holder_still lock.stack store
      rw [performed]
      exact .of_head (List.subset_append_right ..) done first world.store

theorem run_contended (lock : StackLock) (phase : Phase) (world : Contended τ) :
    lock.TakesOrLeaves world ((lock.run phase world).result = .ok ())
      (lock.run phase world).world := by
  have here := lock.step_contended phase world
  rw [run]
  split
  · rename_i result ended
    rw [ended] at here
    exact ⟨here.fewer, fun ok => here.taken (congrArg Next.stop ok),
      fun failed => here.left fun stop => failed (Next.stop.inj stop)⟩
  · rename_i next going
    have fewer := remaining_step going
    have later := run_contended lock next (lock.step phase world).world
    have left := here.left (by rw [going]; rintro ⟨⟩)
    exact ⟨List.Subset.trans later.fewer here.fewer, later.taken,
      fun failed => left.trans (later.left failed) here.fewer⟩
termination_by phase.remaining

/-- Whatever the others planned, an acquire that succeeds holds the stack, and one that fails leaves
the store to what they asked of it. -/
theorem acquire_contended (lock : StackLock) (world : Contended τ) :
    lock.TakesOrLeaves world ((lock.acquire world).result = .ok ()) (lock.acquire world).world :=
  lock.run_contended (.creating none) world

end StackLock

end Orchestration
