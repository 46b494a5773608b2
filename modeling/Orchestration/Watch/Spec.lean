import Orchestration.Json.Raw
import Orchestration.Json.Write
import Orchestration.Text.Blank

/-! # Watch definitions and samples

A watch definition says which metric is aggregated how over which window, what the aggregate is
compared with, and which actions belong to each state.  Numbers may be written as strings.
-/

set_option autoImplicit false

namespace Orchestration.Watch

inductive Statistic where
  | minimum
  | maximum
  | average
  | sum
  | sampleCount
  deriving DecidableEq

namespace Statistic

def name : Statistic → String
  | .minimum => "Minimum"
  | .maximum => "Maximum"
  | .average => "Average"
  | .sum => "Sum"
  | .sampleCount => "SampleCount"

def all : List Statistic := [.minimum, .maximum, .average, .sum, .sampleCount]

def ofName? (name : String) : Option Statistic :=
  all.find? fun statistic => statistic.name == name

theorem ofName?_name (statistic : Statistic) : ofName? statistic.name = some statistic := by
  cases statistic <;> decide

end Statistic

def comparisonNames : List String :=
  ["GreaterThanThreshold", "GreaterThanOrEqualToThreshold", "LessThanThreshold",
    "LessThanOrEqualToThreshold"]

/-- How the aggregate is compared with the threshold.  An unknown comparison keeps its name and
never holds. -/
inductive Comparison where
  | greaterThan
  | greaterOrEqual
  | lessThan
  | lessOrEqual
  | unsupported (name : String) (unknown : name ∉ comparisonNames)
  deriving DecidableEq

namespace Comparison

def name : Comparison → String
  | .greaterThan => "GreaterThanThreshold"
  | .greaterOrEqual => "GreaterThanOrEqualToThreshold"
  | .lessThan => "LessThanThreshold"
  | .lessOrEqual => "LessThanOrEqualToThreshold"
  | .unsupported name _ => name

def ofName (name : String) : Comparison :=
  if unknown : name ∉ comparisonNames then .unsupported name unknown
  else if name = "GreaterThanThreshold" then .greaterThan
  else if name = "GreaterThanOrEqualToThreshold" then .greaterOrEqual
  else if name = "LessThanThreshold" then .lessThan
  else .lessOrEqual

theorem ofName_name (comparison : Comparison) : ofName comparison.name = comparison := by
  cases comparison with
  | unsupported name unknown => exact dif_pos unknown
  | _ => decide

def isSupported : Comparison → Bool
  | .unsupported _ _ => false
  | _ => true

def holds : Comparison → Binary64 → Binary64 → Bool
  | .greaterThan, value, threshold => threshold.lt value
  | .greaterOrEqual, value, threshold => threshold.le value
  | .lessThan, value, threshold => value.lt threshold
  | .lessOrEqual, value, threshold => value.le threshold
  | .unsupported _ _, _, _ => false

end Comparison

inductive State where
  | alarm
  | normal
  | noData
  deriving DecidableEq

namespace State

def name : State → String
  | .alarm => "ALARM"
  | .normal => "NORMAL"
  | .noData => "NODATA"

def all : List State := [.alarm, .normal, .noData]

def ofName? (name : String) : Option State :=
  all.find? fun state => state.name == name

theorem ofName?_name (state : State) : ofName? state.name = some state := by
  cases state <;> decide

end State

/-- The definition of a watch rule.  Periods are in seconds. -/
structure Spec where
  metricName : String
  statistic : Statistic
  comparison : Comparison
  threshold : Binary64
  period : Nat
  evaluationPeriods : Option Nat
  alarmActions : Option (List String)
  okActions : Option (List String)
  insufficientDataActions : Option (List String)
  deriving DecidableEq

def numberOrText? : Raw → Option Binary64
  | .number (some n) => some n.toBinary64
  | .string (some s) => Binary64.ofText? (Text.trim s.toList)
  | _ => none

def greatestSeconds : Nat := 18446744073709551615

/-- A whole number of seconds; what is greater than the greatest counts as that. -/
def seconds? (raw : Raw) : Option Nat := do
  let value ← numberOrText? raw
  let n ← value.natural?
  some (min n greatestSeconds)

namespace Spec

def actionsFor (spec : Spec) : State → Option (List String)
  | .alarm => spec.alarmActions
  | .normal => spec.okActions
  | .noData => spec.insufficientDataActions

def fieldNames : List String :=
  ["MetricName", "Statistic", "ComparisonOperator", "Threshold", "Period", "EvaluationPeriods",
   "AlarmActions", "OKActions", "InsufficientDataActions"]

/-- A list of action names, or null for none; a missing field counts as null. -/
def actions? (raw : Option Raw) : Option (Option (List String)) :=
  match raw with
  | none => some none
  | some raw => raw.optional? (Raw.listOf? Raw.text?)

def ofRaw? (raw : Raw) : Option Spec :=
  match raw.fields? fieldNames with
  | some [some metric, some statistic, some comparison, some threshold, some period, evaluation,
      alarm, ok, insufficient] => do
    some {
      metricName := ← metric.text?
      statistic := ← statistic.name?.bind Statistic.ofName?
      comparison := ← comparison.text?.map Comparison.ofName
      threshold := ← numberOrText? threshold
      period := ← seconds? period
      evaluationPeriods := ← match evaluation with
        | none => some none
        | some raw => (seconds? raw).map some
      alarmActions := ← actions? alarm
      okActions := ← actions? ok
      insufficientDataActions := ← actions? insufficient }
  | _ => none

def ofText? (text : String) : Option Spec := do
  let raw ← Raw.ofText? text
  ofRaw? raw

def field (name : String) : Option Json → Object
  | some value => [(name, value)]
  | none => []

def toJson (spec : Spec) : Json :=
  .object (
    [("MetricName", .string spec.metricName),
     ("Statistic", .string spec.statistic.name),
     ("ComparisonOperator", .string spec.comparison.name),
     ("Threshold", .ofBinary64 spec.threshold),
     ("Period", .ofInt spec.period)] ++
    field "EvaluationPeriods" (spec.evaluationPeriods.map fun n => .ofInt n) ++
    field "AlarmActions" (spec.alarmActions.map Json.ofTexts) ++
    field "OKActions" (spec.okActions.map Json.ofTexts) ++
    field "InsufficientDataActions" (spec.insufficientDataActions.map Json.ofTexts))

/-- Equal definitions; thresholds are compared as numbers. -/
def same (a b : Spec) : Bool :=
  a.threshold.same b.threshold && { a with threshold := b.threshold } == b

end Spec

structure Sample where
  value : Binary64
  unit : Option String
  deriving DecidableEq

namespace Sample

def ofRaw? (raw : Raw) : Option Sample :=
  match raw.fields? ["Value", "Unit"] with
  | some [some value, unit] => do
    some {
      value := ← numberOrText? value
      unit := ← match unit with
        | none => some none
        | some raw => raw.optional? Raw.text? }
  | _ => none

def toJson (sample : Sample) : Json :=
  .object (("Value", .ofBinary64 sample.value) :: Spec.field "Unit" (sample.unit.map .string))

end Sample

structure Samples where
  entries : Entries Sample
  sorted : Entries.Sorted entries
  deriving DecidableEq

namespace Samples

def empty : Samples := ⟨[], Entries.sorted_nil⟩

def insert (samples : Samples) (name : String) (sample : Sample) : Samples :=
  ⟨Entries.insert samples.entries name sample, Entries.sorted_insert samples.sorted name sample⟩

def ofEntries? : Samples → List (Option String × Raw) → Option Samples
  | before, [] => some before
  | before, (name, raw) :: rest => do
    let name ← name
    let sample ← Sample.ofRaw? raw
    ofEntries? (before.insert name sample) rest

def ofRaw? : Raw → Option Samples
  | .object entries => ofEntries? empty entries
  | _ => none

def toJson (samples : Samples) : Json :=
  .object (Entries.mapValues Sample.toJson samples.entries)

end Samples

end Orchestration.Watch
