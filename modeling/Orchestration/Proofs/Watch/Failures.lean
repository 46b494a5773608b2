import Orchestration.Proofs.Results
import Orchestration.Proofs.Watch.History
import Orchestration.Store.FileWatches

/-!
# Calls that fail

Storing the record is the last step of a call of a rule, and nothing is taken back when the store
refuses it: the rule in hand and the dispatched actions are those of the same call on a store that
takes every record.  A call that fails before that leaves the rule alone and dispatches nothing; all
that it may leave is the reading of a rule that counts samples.
-/

set_option autoImplicit false

namespace Orchestration

/-- The same store, but it takes every record and writes none. -/
structure Accepting (σ : Type) where
  inner : σ

instance {σ : Type} [WatchStore σ] : WatchStore (Accepting σ) where
  getRule name store := WatchStore.getRule name store.inner
  putRule _ store := (.ok (), store)
  deleteRule name store :=
    let (result, inner) := WatchStore.deleteRule name store.inner
    (result, ⟨inner⟩)
  listRules stack store := WatchStore.listRules stack store.inner
  appendData name point store :=
    let (result, inner) := WatchStore.appendData name point store.inner
    (result, ⟨inner⟩)
  listData name store := WatchStore.listData name store.inner

namespace Watch.Rule

variable {σ : Type} [WatchStore σ]

/-- The call got as far as the record, as on a store that takes it, but the store refused it. -/
structure Refused {α : Type} (outcome : Outcome σ α) (accepted : Outcome (Accepting σ) α)
    (e : Failure) : Prop where
  done : ∃ answer, accepted.result = .ok answer
  record : outcome.rule.record = accepted.rule.record
  dispatched : outcome.dispatched = accepted.dispatched
  refusal : ∃ reason, e = .store reason ∧
    WatchStore.putRule outcome.rule.record accepted.store.inner = (.error reason, outcome.store)

/-- The store after a call that failed before the record: no reading was added, or the store failed
to add it, or it was added and the data could not be read afterwards. -/
inductive Leaves (rule : Rule) (before : σ) (e : Failure) : RuleCall → σ → Prop where
  | asBefore (call : RuleCall) : Leaves rule before e call before
  | unadded {now : Instant} {samples : Samples} {reason : StoreError} {after : σ}
      (append : WatchStore.appendData rule.record.name ⟨now, samples⟩ before =
        (.error reason, after))
      (same : e = .store reason) : Leaves rule before e (.addData now samples) after
  | unread {now : Instant} {samples : Samples} {after : σ}
      (counts : rule.record.spec.statistic = .sampleCount)
      (append : WatchStore.appendData rule.record.name ⟨now, samples⟩ before = (.ok (), after))
      (read : rule.data after = .error e) : Leaves rule before e (.addData now samples) after

/-- The call failed before it did anything to the rule. -/
structure Untouched {α : Type} (call : RuleCall) (rule : Rule) (before : σ)
    (outcome : Outcome σ α) (e : Failure) : Prop where
  kept : outcome.rule = rule
  silent : outcome.dispatched = []
  left : Leaves rule before e call outcome.store

/-- If the call fails, the rule keeps its state and its last evaluation, nothing is dispatched, and
the store has the data points that it had. -/
def ChangesNothingOnFailure (moment : Moment) (rule : Rule) (store : σ) : Prop :=
  let outcome := rule.perform moment store
  ∀ e, outcome.result = .error e →
    outcome.rule.record.state = rule.record.state ∧
      outcome.rule.record.lastEvaluated = rule.record.lastEvaluated ∧ outcome.dispatched = [] ∧
      WatchStore.listData rule.record.name outcome.store =
        WatchStore.listData rule.record.name store

/-! ## The steps of a call -/

theorem save_refused (clock : Instant) (rule : Rule) (store : σ) (e : Failure)
    (failed : (rule.save clock store).result = .error e) :
    Refused (rule.save clock store) (rule.save clock (Accepting.mk store)) e := by
  unfold save at failed ⊢
  simp only at failed ⊢
  generalize (if rule.stored then _ else _ : Record) = record at failed ⊢
  cases put : WatchStore.putRule record store with
  | mk result left =>
    cases result with
    | ok _ => simp [put] at failed
    | error reason =>
      simp only [put, Except.error.injEq] at failed ⊢
      exact ⟨⟨(), rfl⟩, rfl, rfl, reason, failed.symm, put⟩

section Callers

variable {α β : Type} {outcome : Outcome σ α} {accepted : Outcome (Accepting σ) α}
variable {e : Failure}

theorem Refused.answering (refused : Refused outcome accepted e) (f : α → β) :
    Refused { outcome with result := outcome.result.map f }
      { accepted with result := accepted.result.map f } e := by
  obtain ⟨answer, done⟩ := refused.done
  exact ⟨⟨f answer, by simp [done, Except.map]⟩, refused.record, refused.dispatched,
    refused.refusal⟩

theorem Refused.dispatching (refused : Refused outcome accepted e) (actions : List Dispatch) :
    Refused { outcome with dispatched := actions } { accepted with dispatched := actions } e :=
  ⟨refused.done, refused.record, rfl, refused.refusal⟩

end Callers

theorem run_failed (around : Surroundings) (now : Instant) (rule : Rule) (store : σ) (e : Failure)
    (failed : (rule.run around now store).result = .error e) :
    (rule.data store = .error e ∧ rule.run around now store = ⟨.error e, rule, store, []⟩) ∨
      Refused (rule.run around now store) (rule.run around now (Accepting.mk store)) e := by
  have same : rule.data (Accepting.mk store) = rule.data store := rfl
  unfold run at failed ⊢
  rw [same]
  cases read : rule.data store with
  | error reason =>
    rw [read] at failed
    cases failed
    exact .inl ⟨rfl, rfl⟩
  | ok points =>
    rw [read] at failed
    simp only at failed ⊢
    have refused := save_refused around.clock _ store e ((map_eq_error_iff _ _ e).mp failed)
    exact .inr ((refused.dispatching (rule.entered around.progress now points).2).answering
      fun _ => (rule.entered around.progress now points).1.record.state)

theorem addData_failed (around : Surroundings) (now : Instant) (samples : Samples) (rule : Rule)
    (store : σ) (e : Failure)
    (failed : (rule.addData around now samples store).result = .error e) :
    Refused (rule.addData around now samples store)
        (rule.addData around now samples (Accepting.mk store)) e ∨
      Untouched (.addData now samples) rule store (rule.addData around now samples store) e := by
  unfold addData at failed ⊢
  simp only [WatchStore.appendData] at failed ⊢
  split
  · rename_i listed
    rw [if_pos listed] at failed
    cases append : WatchStore.appendData rule.record.name ⟨now, samples⟩ store with
    | mk result after =>
      rw [append] at failed
      cases result with
      | error reason =>
        exact .inr ⟨rfl, rfl, .unadded append (Except.error.inj failed).symm⟩
      | ok _ =>
        simp only at failed ⊢
        split
        · rename_i counts
          rw [if_pos counts] at failed
          rcases run_failed around now rule after e ((map_eq_error_iff _ _ e).mp failed) with
            ⟨read, untouched⟩ | refused
          · rw [untouched]
            exact .inr ⟨rfl, rfl, .unread counts append read⟩
          · exact .inl (refused.answering fun _ => ())
        · rename_i other
          rw [if_neg other] at failed
          cases failed
  · exact .inr ⟨rfl, rfl, .asBefore _⟩

theorem setState_failed (around : Surroundings) (text : String) (rule : Rule) (store : σ)
    (e : Failure) (failed : (rule.setState around text store).result = .error e) :
    Refused (rule.setState around text store) (rule.setState around text (Accepting.mk store)) e ∨
      Untouched (.setState text) rule store (rule.setState around text store) e := by
  unfold setState at failed ⊢
  generalize State.ofName? text = named at failed ⊢
  cases named with
  | none => exact .inr ⟨rfl, rfl, .asBefore _⟩
  | some state =>
    simp only at failed ⊢
    split
    · rename_i same
      rw [if_pos same] at failed
      cases failed
    · rename_i moved
      rw [if_neg moved] at failed
      generalize rule.actions around.progress state = decision at failed ⊢
      obtain ⟨may, dispatched⟩ := decision
      cases may with
      | false => cases failed
      | true => exact .inl ((save_refused around.clock _ store e failed).dispatching dispatched)

/-! ## A whole call -/

/-- A call that fails was refused its record at the last step, or else it did nothing to the rule.
In both cases it dispatched only what belongs to a change of the state of the rule in hand. -/
theorem failed_call (moment : Moment) (rule : Rule) (store : σ) (e : Failure)
    (failed : (rule.perform moment store).result = .error e) :
    Acts moment.around.progress rule (rule.perform moment store) ∧
      (Refused (rule.perform moment store) (rule.perform moment (Accepting.mk store)) e ∨
        Untouched moment.call rule store (rule.perform moment store) e) := by
  refine ⟨perform_acts moment rule store, ?_⟩
  obtain ⟨around, call⟩ := moment
  have ofRun (now : Instant)
      (failed : (rule.perform ⟨around, .run now⟩ store).result = .error e) :
      Refused (rule.perform ⟨around, .run now⟩ store)
          (rule.perform ⟨around, .run now⟩ (Accepting.mk store)) e ∨
        ∀ call, Untouched call rule store (rule.perform ⟨around, .run now⟩ store) e := by
    simp only [perform] at failed ⊢
    have failed := (map_eq_error_iff _ _ e).mp failed
    rcases run_failed around now rule store e failed with ⟨_, untouched⟩ | refused
    · rw [untouched]
      exact .inr fun call => ⟨rfl, rfl, .asBefore call⟩
    · exact .inl (refused.answering fun _ => ())
  cases call with
  | evaluate now =>
    simp only [perform, evaluate] at failed ⊢
    split
    · rename_i due
      rw [if_pos due] at failed
      exact (ofRun now failed).imp id fun untouched => untouched _
    · rename_i early
      rw [if_neg early] at failed
      cases failed
  | run now => exact (ofRun now failed).imp id fun untouched => untouched _
  | addData now samples => exact addData_failed around now samples rule store e failed
  | setState text => exact setState_failed around text rule store e failed

def hiddenRule : Rule :=
  .fresh ".w" (some "app") busySpec .epoch

def alarmSet : Moment :=
  ⟨⟨fun _ => some ⟨.create, .complete⟩, .epoch⟩, .setState "ALARM"⟩

def hiddenOutcome : Outcome FileStore Unit :=
  hiddenRule.perform alarmSet (.fresh .epoch)

def hiddenName : Failure :=
  .store (.invalidKey "'.w' must not start with '.' or contain path separators")

theorem hiddenRule_refused :
    hiddenOutcome.result = .error hiddenName ∧ hiddenOutcome.rule.record.state = .alarm ∧
      Refused hiddenOutcome (hiddenRule.perform alarmSet ⟨.fresh .epoch⟩) hiddenName := by
  have failed : hiddenOutcome.result = .error hiddenName := by decide +kernel
  have alarm : hiddenOutcome.rule.record.state = .alarm := by decide +kernel
  refine ⟨failed, alarm, ?_⟩
  rcases (failed_call alarmSet hiddenRule (FileStore.fresh .epoch) hiddenName failed).2 with
    refused | untouched
  · exact refused
  · have kept : hiddenOutcome.rule = hiddenRule := untouched.kept
    rw [kept] at alarm
    cases alarm

theorem hiddenRule_pages :
    ¬ ChangesNothingOnFailure alarmSet hiddenRule (FileStore.fresh .epoch) := by
  intro nothing
  have failed : hiddenOutcome.result = .error hiddenName := by decide +kernel
  have paged : hiddenOutcome.dispatched = [⟨"app", "page"⟩] := by decide +kernel
  obtain ⟨_, _, silent, _⟩ := nothing hiddenName failed
  cases paged.symm.trans silent

end Watch.Rule

end Orchestration
