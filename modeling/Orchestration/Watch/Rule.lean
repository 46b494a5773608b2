import Orchestration.Failure
import Orchestration.Resource
import Orchestration.Store.Interface
import Orchestration.Watch.Window

/-! # Watch rules at work

A rule in hand is its record and whether it was stored.  Running it compares the state that its data
puts it in with its recorded state; a change is recorded only if the actions of the new state could
be dispatched.  A pass evaluates every stored rule that is due.
-/

set_option autoImplicit false

namespace Orchestration.Watch

structure Dispatch where
  stack : String
  action : String
  deriving DecidableEq

/-- What rules work with: how far each stack came, and the time of the clock. -/
structure Surroundings where
  progress : String → Option Progress
  clock : Instant

structure Rule where
  record : Record
  stored : Bool
  deriving DecidableEq

/-- What an operation gives: an answer or a failure, the rule and the store afterwards, and the
actions that were dispatched, in order. -/
structure Outcome (σ α : Type) where
  result : Except Failure α
  rule : Rule
  store : σ
  dispatched : List Dispatch

namespace Rule

variable {σ : Type} [WatchStore σ]

def fresh (name : String) (stackId : Option String) (spec : Spec) (now : Instant) : Rule :=
  ⟨Record.fresh name stackId spec now, false⟩

def load (name : String) (store : σ) : Except Failure Rule :=
  match WatchStore.getRule name store with
  | .ok record => .ok ⟨record, true⟩
  | .error (.watchNotFound _) => .error (.unknownWatch name)
  | .error e => .error (.store e)

/-- Stores the rule.  A rule that was stored before takes the time of the clock as its time of
change. -/
def save (clock : Instant) (rule : Rule) (store : σ) : Outcome σ Unit :=
  let record :=
    if rule.stored then { rule.record with updatedAt := some clock } else rule.record
  match WatchStore.putRule record store with
  | (.ok _, store) => ⟨.ok (), ⟨record, true⟩, store, []⟩
  | (.error e, store) => ⟨.error (.store e), { rule with record := record }, store, []⟩

/-- The stored data of the rule; a rule that was never stored has none. -/
def data (rule : Rule) (store : σ) : Except Failure (List Point) :=
  match WatchStore.listData rule.record.name store with
  | .ok points => .ok points
  | .error (.watchNotFound name) =>
    if rule.stored then .error (.store (.watchNotFound name)) else .ok []
  | .error e => .error (.store e)

/-- The actions of entering a state, and whether the change may be recorded: there are no actions
for the state, or the rule's stack accepts alarms. -/
def actions (progress : String → Option Progress) (rule : Rule) (state : State) :
    Bool × List Dispatch :=
  match rule.record.spec.actionsFor state with
  | none => (true, [])
  | some names =>
    match rule.record.stackId with
    | none => (false, [])
    | some stack =>
      if ((progress stack).map Progress.acceptsAlarms).getD false then
        (true, names.map fun name => ⟨stack, name⟩)
      else (false, [])

def entered (progress : String → Option Progress) (now : Instant) (points : List Point)
    (rule : Rule) : Rule × List Dispatch :=
  let state := rule.record.spec.alarmState now points
  if state = rule.record.state then
    ({ rule with record := { rule.record with lastEvaluated := now } }, [])
  else
    let (allowed, dispatched) := rule.actions progress state
    let recorded := if allowed then state else rule.record.state
    ({ rule with record := { rule.record with state := recorded, lastEvaluated := now } },
      dispatched)

def run (around : Surroundings) (now : Instant) (rule : Rule) (store : σ) : Outcome σ State :=
  match rule.data store with
  | .error e => ⟨.error e, rule, store, []⟩
  | .ok points =>
    let (rule, dispatched) := rule.entered around.progress now points
    let saved := rule.save around.clock store
    ⟨saved.result.map fun _ => rule.record.state, saved.rule, saved.store, dispatched⟩

def isDue (now : Instant) (rule : Rule) : Bool :=
  match rule.record.lastEvaluated.add? rule.record.spec.span with
  | some next => next.le now
  | none => false

def evaluate (around : Surroundings) (now : Instant) (rule : Rule) (store : σ) : Outcome σ Unit :=
  if rule.isDue now then
    let outcome := rule.run around now store
    { outcome with result := outcome.result.map fun _ => () }
  else ⟨.ok (), rule, store, []⟩

/-- Adds readings to the data of the rule.  A rule that counts samples is run at once. -/
def addData (around : Surroundings) (now : Instant) (samples : Samples) (rule : Rule) (store : σ) :
    Outcome σ Unit :=
  let record := rule.record
  if Entries.has samples.entries record.spec.metricName then
    match WatchStore.appendData record.name ⟨now, samples⟩ store with
    | (.error e, store) => ⟨.error (.store e), rule, store, []⟩
    | (.ok _, store) =>
      if record.spec.statistic = .sampleCount then
        let outcome := rule.run around now store
        { outcome with result := outcome.result.map fun _ => () }
      else ⟨.ok (), rule, store, []⟩
  else ⟨.error (.missingMetric record.name record.spec.metricName), rule, store, []⟩

def setState (around : Surroundings) (text : String) (rule : Rule) (store : σ) : Outcome σ Unit :=
  match State.ofName? text with
  | none => ⟨.error (.unknownWatchState text), rule, store, []⟩
  | some state =>
    if state = rule.record.state then ⟨.ok (), rule, store, []⟩
    else
      let (allowed, dispatched) := rule.actions around.progress state
      if allowed then
        let rule := { rule with record := { rule.record with state := state } }
        let saved := rule.save around.clock store
        { saved with dispatched := dispatched }
      else ⟨.ok (), rule, store, dispatched⟩

def delete (rule : Rule) (store : σ) : Except Failure Bool × σ :=
  let (result, store) := WatchStore.deleteRule rule.record.name store
  (result.mapError .store, store)

/-- Evaluates records one after the other; one that fails is skipped.  Gives how many did not fail,
the store afterwards, and the actions in order. -/
def evaluateEach (around : Surroundings) (now : Instant) :
    List Record → σ → Nat × σ × List Dispatch
  | [], store => (0, store, [])
  | record :: rest, store =>
    let outcome := Rule.evaluate around now ⟨record, true⟩ store
    let (checked, store, dispatched) := evaluateEach around now rest outcome.store
    let checked := match outcome.result with
      | .ok _ => checked + 1
      | .error _ => checked
    (checked, store, outcome.dispatched ++ dispatched)

def evaluateAll (around : Surroundings) (now : Instant) (store : σ) :
    Except Failure Nat × σ × List Dispatch :=
  match WatchStore.listRules none store with
  | .error e => (.error (.store e), store, [])
  | .ok records =>
    let (checked, store, dispatched) := evaluateEach around now records store
    (.ok checked, store, dispatched)

end Rule

end Orchestration.Watch
