import Orchestration.Watch.Record

/-! # The window of a watch rule

The samples in the last period up to an instant, both ends included, are aggregated, and the
aggregate is compared with the threshold.
-/

set_option autoImplicit false

namespace Orchestration.Watch

namespace Spec

def span (spec : Spec) : Span :=
  Span.ofSeconds spec.period

/-- The point lies in the window that ends at an instant.  A window that would begin before the
first instant has no beginning. -/
def inWindow (spec : Spec) (now : Instant) (point : Point) : Bool :=
  point.createdAt.le now &&
    match now.sub? spec.span with
    | some start => start.le point.createdAt
    | none => true

def values (spec : Spec) (points : List Point) : List Binary64 :=
  points.filterMap fun point => (Entries.get? point.samples.entries spec.metricName).map Sample.value

end Spec

def reduce (combine : Binary64 → Binary64 → Binary64) : List Binary64 → Option Binary64
  | [] => none
  | first :: rest => some (rest.foldl combine first)

/-- The aggregate of the values of the metric, given also how many points there are.  There is none
for an average or an extreme of no values. -/
def aggregate (statistic : Statistic) (count : Nat) (values : List Binary64) : Option Binary64 :=
  match statistic with
  | .sampleCount => some (.ofInt count)
  | .sum => some (Binary64.sum values)
  | .average =>
    if values.isEmpty then none else some ((Binary64.sum values).div (.ofInt values.length))
  | .minimum => reduce Binary64.least values
  | .maximum => reduce Binary64.greatest values

namespace Spec

def alarmState (spec : Spec) (now : Instant) (points : List Point) : State :=
  let window := points.filter (spec.inWindow now)
  match aggregate spec.statistic window.length (spec.values window) with
  | none => .noData
  | some value => if spec.comparison.holds value spec.threshold then .alarm else .normal

end Spec

end Orchestration.Watch
