import Orchestration.Proofs.Entries
import Orchestration.Store.Memory
import Orchestration.Watch.Rule

/-!
# The history of a rule

Calls of one rule in hand that a memory store has, while its stack comes and goes.  Every call keeps
the store in step with the rule, and dispatches actions exactly if it records a change of state:
those of the new state.  Over a whole history the dispatched actions are those of the recorded
changes, in order.
-/

set_option autoImplicit false

namespace Orchestration

namespace MemoryStore

theorem getRule_eq_ok_iff (name : String) (store : MemoryStore) (record : Watch.Record) :
    WatchStore.getRule name store = .ok record ↔
      ∃ points, Entries.get? store.rules name = some (record, points) := by
  simp only [WatchStore.getRule, rule?]
  cases Entries.get? store.rules name with
  | none => simp [Except.map]
  | some held =>
    obtain ⟨known, points⟩ := held
    simp [Except.map]

theorem getRule_putRule (record : Watch.Record) (store : MemoryStore) :
    WatchStore.getRule record.name (WatchStore.putRule record store).2 = .ok record := by
  rw [getRule_eq_ok_iff]
  simp only [WatchStore.putRule, putRule, Entries.get?_insert, if_pos]
  exact ⟨_, rfl⟩

theorem appendData_of_getRule (name : String) (point : Watch.Point) (store : MemoryStore)
    (record : Watch.Record) (known : WatchStore.getRule name store = .ok record) :
    (WatchStore.appendData name point store).1 = .ok () ∧
      WatchStore.getRule name (WatchStore.appendData name point store).2 = .ok record := by
  obtain ⟨points, found⟩ := (getRule_eq_ok_iff name store record).mp known
  simp only [WatchStore.appendData, appendData, rule?, found, true_and]
  simp only [getRule_eq_ok_iff, Entries.get?_insert, if_pos]
  exact ⟨_, rfl⟩

end MemoryStore

namespace Watch

inductive RuleCall where
  | evaluate (now : Instant)
  | run (now : Instant)
  | addData (now : Instant) (samples : Samples)
  | setState (text : String)

structure Moment where
  around : Surroundings
  call : RuleCall

structure Entry (σ : Type) where
  moment : Moment
  before : σ
  outcome : Outcome σ Unit

def recordedState {σ : Type} [WatchStore σ] (name : String) (store : σ) : Option State :=
  (WatchStore.getRule name store).toOption.map Record.state

/-- The new state of a rule, if the call changed the one that the store has. -/
def Entry.change? {σ : Type} [WatchStore σ] (name : String) (entry : Entry σ) : Option State :=
  if recordedState name entry.outcome.store = recordedState name entry.before then none
  else recordedState name entry.outcome.store

namespace Rule

section Calls

variable {σ : Type} [WatchStore σ]

def perform (moment : Moment) (rule : Rule) (store : σ) : Outcome σ Unit :=
  match moment.call with
  | .evaluate now => rule.evaluate moment.around now store
  | .run now =>
    let outcome := rule.run moment.around now store
    { outcome with result := outcome.result.map fun _ => () }
  | .addData now samples => rule.addData moment.around now samples store
  | .setState text => rule.setState moment.around text store

def history : Rule → σ → List Moment → List (Entry σ)
  | _, _, [] => []
  | rule, store, moment :: rest =>
    let outcome := rule.perform moment store
    ⟨moment, store, outcome⟩ :: outcome.rule.history outcome.store rest

end Calls

def configured (rule : Rule) (state : State) : List Dispatch :=
  match rule.record.spec.actionsFor state, rule.record.stackId with
  | some names, some stack => names.map fun name => ⟨stack, name⟩
  | _, _ => []

/-- The store has the rule with its state and its last evaluation. -/
def InStep {σ : Type} [WatchStore σ] (rule : Rule) (store : σ) : Prop :=
  ∃ record, WatchStore.getRule rule.record.name store = .ok record ∧
    record.state = rule.record.state ∧ record.lastEvaluated = rule.record.lastEvaluated

/-- The second rule is the first one at another time. -/
structure Continues (before after : Rule) : Prop where
  name : after.record.name = before.record.name
  spec : after.record.spec = before.record.spec
  stackId : after.record.stackId = before.record.stackId

theorem Continues.trans {first second third : Rule} (one : Continues first second)
    (two : Continues second third) : Continues first third :=
  ⟨two.name.trans one.name, two.spec.trans one.spec, two.stackId.trans one.stackId⟩

/-- The rule is in a new state and dispatched what belongs to it, or else it dispatched nothing. -/
def Fires (progress : String → Option Progress) (before after : Rule)
    (dispatched : List Dispatch) : Prop :=
  if after.record.state = before.record.state then dispatched = []
  else before.actions progress after.record.state = (true, dispatched)

theorem actions_refused (progress : String → Option Progress) (rule : Rule) (state : State)
    (dispatched : List Dispatch) (refused : rule.actions progress state = (false, dispatched)) :
    dispatched = [] := by
  unfold actions at refused
  split at refused
  · cases refused
  · split at refused
    · cases refused
      rfl
    · split at refused
      · cases refused
      · cases refused
        rfl

theorem actions_allowed (progress : String → Option Progress) (rule : Rule) (state : State)
    (dispatched : List Dispatch) (allowed : rule.actions progress state = (true, dispatched)) :
    dispatched = rule.configured state ∧
      ((rule.record.spec.actionsFor state).isSome = true → ∃ stack reached,
        rule.record.stackId = some stack ∧ progress stack = some reached ∧
          reached.acceptsAlarms = true) := by
  unfold actions at allowed
  unfold configured
  cases names : rule.record.spec.actionsFor state with
  | none => simp_all
  | some names' =>
    cases stack : rule.record.stackId with
    | none => simp [names, stack] at allowed
    | some stack' =>
      cases reached : progress stack' with
      | none => simp [names, stack, reached] at allowed
      | some reached' =>
        simp only [names, stack, reached, Option.map_some, Option.getD_some] at allowed
        split at allowed
        · rename_i accepts
          cases allowed
          exact ⟨rfl, fun _ => ⟨stack', reached', rfl, reached, accepts⟩⟩
        · cases allowed

/-! ## One call -/

/-- A call goes on with the same rule, and fires only if it changes its state. -/
structure Acts {σ α : Type} (progress : String → Option Progress) (before : Rule)
    (outcome : Outcome σ α) : Prop where
  continues : Continues before outcome.rule
  fires : Fires progress before outcome.rule outcome.dispatched

theorem entered_fires (progress : String → Option Progress) (now : Instant) (points : List Point)
    (rule : Rule) :
    Continues rule (rule.entered progress now points).1 ∧
      Fires progress rule (rule.entered progress now points).1
        (rule.entered progress now points).2 := by
  unfold entered
  simp only
  split
  · exact ⟨⟨rfl, rfl, rfl⟩, by simp [Fires]⟩
  · rename_i moved
    cases allowed : rule.actions progress (rule.record.spec.alarmState now points) with
    | mk may dispatched =>
      refine ⟨⟨rfl, rfl, rfl⟩, ?_⟩
      cases may with
      | true => simpa [Fires, moved] using allowed
      | false => simpa [Fires] using actions_refused progress rule _ dispatched allowed

theorem idle_acts {σ α : Type} (progress : String → Option Progress) (rule : Rule) (store : σ)
    (result : Except Failure α) : Acts progress rule ⟨result, rule, store, []⟩ :=
  ⟨⟨rfl, rfl, rfl⟩, by simp [Fires]⟩

section AnyStore

variable {σ : Type} [WatchStore σ]

theorem save_keeps (clock : Instant) (rule : Rule) (store : σ) :
    Continues rule (rule.save clock store).rule ∧
      (rule.save clock store).rule.record.state = rule.record.state := by
  unfold save
  simp only
  split <;> cases rule.stored <;> exact ⟨⟨rfl, rfl, rfl⟩, rfl⟩

theorem run_acts (around : Surroundings) (now : Instant) (rule : Rule) (store : σ) :
    Acts around.progress rule (rule.run around now store) := by
  unfold run
  cases rule.data store with
  | error e => exact idle_acts around.progress rule store _
  | ok points =>
    obtain ⟨continues, fires⟩ := entered_fires around.progress now points rule
    obtain ⟨saved, state⟩ :=
      save_keeps around.clock (rule.entered around.progress now points).1 store
    refine ⟨continues.trans saved, ?_⟩
    unfold Fires at fires ⊢
    simp only [state]
    exact fires

theorem evaluate_acts (around : Surroundings) (now : Instant) (rule : Rule) (store : σ) :
    Acts around.progress rule (rule.evaluate around now store) := by
  unfold evaluate
  split
  · exact ⟨(run_acts around now rule store).continues, (run_acts around now rule store).fires⟩
  · exact idle_acts around.progress rule store _

theorem addData_acts (around : Surroundings) (now : Instant) (samples : Samples) (rule : Rule)
    (store : σ) : Acts around.progress rule (rule.addData around now samples store) := by
  unfold addData
  simp only
  split
  · split
    · exact idle_acts around.progress rule _ _
    · split
      · exact ⟨(run_acts around now rule _).continues, (run_acts around now rule _).fires⟩
      · exact idle_acts around.progress rule _ _
  · exact idle_acts around.progress rule store _

theorem setState_acts (around : Surroundings) (text : String) (rule : Rule) (store : σ) :
    Acts around.progress rule (rule.setState around text store) := by
  unfold setState
  cases State.ofName? text with
  | none => exact idle_acts around.progress rule store _
  | some state =>
    simp only
    split
    · exact idle_acts around.progress rule store _
    · rename_i moved
      cases allowed : rule.actions around.progress state with
      | mk may dispatched =>
        cases may with
        | false =>
          cases actions_refused around.progress rule state dispatched allowed
          exact idle_acts around.progress rule store _
        | true =>
          obtain ⟨saved, reached⟩ := save_keeps around.clock
            { rule with record := { rule.record with state := state } } store
          refine ⟨⟨saved.name, saved.spec, saved.stackId⟩, ?_⟩
          simp only [if_true, Fires, reached, if_neg moved]
          exact allowed

theorem perform_acts (moment : Moment) (rule : Rule) (store : σ) :
    Acts moment.around.progress rule (rule.perform moment store) := by
  obtain ⟨around, call⟩ := moment
  cases call with
  | evaluate now => exact evaluate_acts around now rule store
  | run now =>
    exact ⟨(run_acts around now rule store).continues, (run_acts around now rule store).fires⟩
  | addData now samples => exact addData_acts around now samples rule store
  | setState text => exact setState_acts around text rule store

end AnyStore

theorem save_inStep (clock : Instant) (rule : Rule) (store : MemoryStore) :
    (rule.save clock store).rule.InStep (rule.save clock store).store := by
  have known := fun record => MemoryStore.getRule_putRule record store
  unfold save
  cases rule.stored with
  | true => exact ⟨_, known { rule.record with updatedAt := some clock }, rfl, rfl⟩
  | false => exact ⟨_, known rule.record, rfl, rfl⟩

theorem run_inStep (around : Surroundings) (now : Instant) (rule : Rule) (store : MemoryStore)
    (inStep : rule.InStep store) :
    (rule.run around now store).rule.InStep (rule.run around now store).store := by
  unfold run
  cases rule.data store with
  | error e => exact inStep
  | ok points => exact save_inStep around.clock _ store

theorem addData_inStep (around : Surroundings) (now : Instant) (samples : Samples) (rule : Rule)
    (store : MemoryStore) (inStep : rule.InStep store) :
    (rule.addData around now samples store).rule.InStep
      (rule.addData around now samples store).store := by
  obtain ⟨record, known, state, time⟩ := inStep
  obtain ⟨appended, kept⟩ := MemoryStore.appendData_of_getRule rule.record.name ⟨now, samples⟩
    store record known
  have stays : rule.InStep
      (WatchStore.appendData rule.record.name ⟨now, samples⟩ store).2 := ⟨record, kept, state, time⟩
  unfold addData
  simp only
  split
  · generalize WatchStore.appendData rule.record.name _ store = after at appended stays ⊢
    obtain ⟨result, store'⟩ := after
    cases appended
    simp only
    split
    · exact run_inStep around now rule store' stays
    · exact stays
  · exact ⟨record, known, state, time⟩

theorem setState_inStep (around : Surroundings) (text : String) (rule : Rule) (store : MemoryStore)
    (inStep : rule.InStep store) :
    (rule.setState around text store).rule.InStep (rule.setState around text store).store := by
  unfold setState
  cases State.ofName? text with
  | none => exact inStep
  | some state =>
    simp only
    split
    · exact inStep
    · split
      · exact save_inStep around.clock _ store
      · exact inStep

theorem perform_inStep (moment : Moment) (rule : Rule) (store : MemoryStore)
    (inStep : rule.InStep store) :
    (rule.perform moment store).rule.InStep (rule.perform moment store).store := by
  obtain ⟨around, call⟩ := moment
  cases call with
  | evaluate now =>
    simp only [perform, evaluate]
    split
    · exact run_inStep around now rule store inStep
    · exact inStep
  | run now => exact run_inStep around now rule store inStep
  | addData now samples => exact addData_inStep around now samples rule store inStep
  | setState text => exact setState_inStep around text rule store inStep

/-! ## Histories -/

theorem recordedState_of_inStep (rule : Rule) (store : MemoryStore) (inStep : rule.InStep store) :
    recordedState rule.record.name store = some rule.record.state := by
  obtain ⟨record, known, state, _⟩ := inStep
  rw [recordedState, known, ← state]
  rfl

/-- What every call in the history of a rule comes to. -/
structure Lawful (rule : Rule) (entry : Entry MemoryStore) : Prop where
  fired : entry.outcome.dispatched =
    ((entry.change? rule.record.name).map rule.configured).getD []
  accepted : ∀ state, entry.change? rule.record.name = some state →
    (rule.record.spec.actionsFor state).isSome = true → ∃ stack reached,
      rule.record.stackId = some stack ∧ entry.moment.around.progress stack = some reached ∧
        reached.acceptsAlarms = true
  inStep : entry.outcome.rule.InStep entry.outcome.store

theorem lawful_of_acts (first rule : Rule) (moment : Moment) (store : MemoryStore)
    (outcome : Outcome MemoryStore Unit) (continues : Continues first rule)
    (inStep : rule.InStep store) (acts : Acts moment.around.progress rule outcome)
    (stays : outcome.rule.InStep outcome.store) : Lawful first ⟨moment, store, outcome⟩ := by
  have before := recordedState_of_inStep rule store inStep
  have after := recordedState_of_inStep outcome.rule outcome.store stays
  rw [acts.continues.name, continues.name] at after
  rw [continues.name] at before
  have change : Entry.change? first.record.name ⟨moment, store, outcome⟩ =
      if outcome.rule.record.state = rule.record.state then none
      else some outcome.rule.record.state := by
    simp only [Entry.change?, before, after, Option.some.injEq]
  have fires := acts.fires
  unfold Fires at fires
  split at fires
  · rename_i same
    rw [if_pos same] at change
    exact ⟨by rw [change, fires]; rfl, by simp [change], stays⟩
  · rename_i moved
    rw [if_neg moved] at change
    obtain ⟨dispatched, accepted⟩ := actions_allowed _ rule _ _ fires
    have configured : rule.configured = first.configured := by
      unfold configured
      rw [continues.spec, continues.stackId]
    refine ⟨?_, ?_, stays⟩
    · rw [change, dispatched, configured]
      rfl
    · rintro state found listed
      rw [change] at found
      cases found
      rw [← continues.spec] at listed
      rw [← continues.stackId]
      exact accepted listed

theorem lawful_of_history (first : Rule) (moments : List Moment) :
    ∀ (rule : Rule) (store : MemoryStore), Continues first rule → rule.InStep store →
      ∀ entry ∈ rule.history store moments, Lawful first entry := by
  induction moments with
  | nil =>
    intro rule store continues inStep entry member
    cases member
  | cons moment rest ih =>
    intro rule store continues inStep entry member
    have acts := perform_acts moment rule store
    have stays := perform_inStep moment rule store inStep
    rcases List.mem_cons.mp member with rfl | later
    · exact lawful_of_acts first rule moment store _ continues inStep acts stays
    · exact ih _ _ (continues.trans acts.continues) stays entry later

theorem flatMap_of_changes {α β γ : Type} (entries : List α) (given : α → List γ)
    (change : α → Option β) (due : β → List γ)
    (each : ∀ entry ∈ entries, given entry = ((change entry).map due).getD []) :
    entries.flatMap given = (entries.filterMap change).flatMap due := by
  induction entries with
  | nil => rfl
  | cons entry rest ih =>
    rw [List.flatMap_cons, each entry (List.mem_cons_self ..),
      ih fun later member => each later (List.mem_cons_of_mem _ member), List.filterMap_cons]
    cases change entry <;> rfl

/-- The actions that a stored rule dispatches are those of its recorded changes of state, in order;
a change to a state with actions was recorded while the stack accepted alarms. -/
theorem dispatched_eq_recorded_changes (rule : Rule) (store : MemoryStore)
    (inStep : rule.InStep store) (moments : List Moment) :
    (rule.history store moments).flatMap (fun entry => entry.outcome.dispatched) =
        ((rule.history store moments).filterMap (Entry.change? rule.record.name)).flatMap
          rule.configured ∧
      ∀ entry ∈ rule.history store moments,
        (∀ state, entry.change? rule.record.name = some state →
          (rule.record.spec.actionsFor state).isSome = true → ∃ stack reached,
            rule.record.stackId = some stack ∧ entry.moment.around.progress stack = some reached ∧
              reached.acceptsAlarms = true) ∧
        (entry.change? rule.record.name = none → entry.outcome.dispatched = []) ∧
        entry.outcome.rule.InStep entry.outcome.store := by
  have lawful := lawful_of_history rule moments rule store ⟨rfl, rfl, rfl⟩ inStep
  constructor
  · exact flatMap_of_changes _ _ _ _ fun entry member => (lawful entry member).fired
  · intro entry member
    obtain ⟨fired, accepted, step⟩ := lawful entry member
    refine ⟨accepted, ?_, step⟩
    intro unchanged
    rw [fired, unchanged]
    rfl

def busySpec : Spec :=
  ⟨"load", .sampleCount, .greaterOrEqual, .ofInt 1, 60, none, some ["page"], some [], none⟩

def busyRule : Rule :=
  ⟨.fresh "busy" (some "app") busySpec .epoch, true⟩

def busyStore : MemoryStore :=
  (WatchStore.putRule busyRule.record MemoryStore.empty).2

/-- The stack is updated, so it accepts no alarms, when the rule is set back to normal. -/
def busyDay : List Moment :=
  let idle : Surroundings := ⟨fun _ => some ⟨.create, .complete⟩, .epoch⟩
  let updating : Surroundings := ⟨fun _ => some ⟨.update, .inProgress⟩, .epoch⟩
  [⟨idle, .addData .epoch (Samples.empty.insert "load" ⟨.ofInt 7, none⟩)⟩, ⟨idle, .evaluate .epoch⟩,
    ⟨updating, .setState "NORMAL"⟩, ⟨updating, .setState "NODATA"⟩]

theorem dispatched_of_busyDay :
    busyRule.InStep busyStore ∧
      (busyRule.history busyStore busyDay).filterMap (Entry.change? "busy") = [.alarm, .noData] ∧
      (busyRule.history busyStore busyDay).flatMap (fun entry => entry.outcome.dispatched) =
        [⟨"app", "page"⟩] ∧
      ∀ entry ∈ busyRule.history busyStore busyDay,
        entry.outcome.rule.InStep entry.outcome.store := by
  have inStep : busyRule.InStep busyStore := ⟨busyRule.record, rfl, rfl, rfl⟩
  have changes : (busyRule.history busyStore busyDay).filterMap (Entry.change? "busy") =
      [.alarm, .noData] := by decide +kernel
  obtain ⟨dispatched, each⟩ := dispatched_eq_recorded_changes busyRule busyStore inStep busyDay
  refine ⟨inStep, changes, ?_, fun entry member => (each entry member).2.2⟩
  rw [dispatched]
  exact congrArg _ changes

end Rule

end Watch

end Orchestration
