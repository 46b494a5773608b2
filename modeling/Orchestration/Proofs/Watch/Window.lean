import Orchestration.Proofs.Time.Nanoseconds
import Orchestration.Watch.Window

/-!
# The window of a watch rule is exact

Which points count is decided with spans that end at a greatest one and a subtraction that may have
no result.  It comes out as with whole numbers: the points that count are those of the last period
up to now, with both ends.
-/

set_option autoImplicit false

namespace Orchestration.Watch

def Point.Carries (point : Point) (metric : String) : Prop :=
  Entries.get? point.samples.entries metric ≠ none

instance (point : Point) (metric : String) : Decidable (point.Carries metric) :=
  inferInstanceAs (Decidable (_ ≠ _))

namespace Spec

/-- The point is in the last period up to now, in nanoseconds.  These are any whole numbers: a period
may be longer than every span, and may begin before every instant. -/
def Covers (spec : Spec) (now : Instant) (point : Point) : Prop :=
  now.nanos - spec.period * nanosPerSecond ≤ point.createdAt.nanos ∧
    point.createdAt.nanos ≤ now.nanos

instance (spec : Spec) (now : Instant) (point : Point) : Decidable (spec.Covers now point) :=
  inferInstanceAs (Decidable (_ ∧ _))

/-! ## The points that count -/

/-- No instant is as early as a period that was cut to the greatest span, so the cut shows nowhere. -/
theorem span_reaches_iff (spec : Spec) {now : Instant} (ordinary : now.IsOrdinary)
    (earlier : Instant) :
    now.nanos - spec.span.length ≤ earlier.nanos ↔
      now.nanos - spec.period * nanosPerSecond ≤ earlier.nanos := by
  have near := Instant.apart_lt ordinary earlier
  rw [span, Span.length_ofSeconds]
  omega

theorem notBefore_iff (spec : Spec) {now created : Instant} (ordinary : now.IsOrdinary)
    (ordinary' : created.IsOrdinary) :
    (match now.sub? spec.span with
      | some start => start.le created
      | none => true) = true ↔
      now.nanos - spec.period * nanosPerSecond ≤ created.nanos := by
  rw [← spec.span_reaches_iff ordinary created]
  have small : spec.span.nanos < nanosPerSecond := Span.nanos_ofSeconds spec.period
  cases earlier : now.sub? spec.span with
  | some start =>
    obtain ⟨startOrdinary, exactly⟩ := Instant.sub?_eq_some ordinary small earlier
    rw [← exactly]
    exact Instant.le_iff_nanos startOrdinary ordinary'
  | none =>
    have before := Instant.sub?_eq_none ordinary small earlier
    have first := created.first_le_nanos
    exact iff_of_true rfl (by omega)

theorem inWindow_iff (spec : Spec) {now : Instant} {point : Point} (ordinary : now.IsOrdinary)
    (ordinary' : point.createdAt.IsOrdinary) :
    spec.inWindow now point = true ↔ spec.Covers now point := by
  rw [inWindow, Bool.and_eq_true, Covers, and_comm]
  exact and_congr (spec.notBefore_iff ordinary ordinary') (Instant.le_iff_nanos ordinary' ordinary)

theorem filter_inWindow (spec : Spec) {now : Instant} {points : List Point}
    (ordinary : now.IsOrdinary) (ordinaryPoints : ∀ point ∈ points, point.createdAt.IsOrdinary) :
    points.filter (spec.inWindow now) = points.filter (spec.Covers now ·) := by
  refine List.filter_congr fun point member => ?_
  rw [Bool.eq_iff_iff, decide_eq_true_iff]
  exact spec.inWindow_iff ordinary (ordinaryPoints point member)

/-! ## What they come to -/

def judge (spec : Spec) (window : List Point) : State :=
  match aggregate spec.statistic window.length (spec.values window) with
  | none => .noData
  | some value => if spec.comparison.holds value spec.threshold then .alarm else .normal

theorem alarmState_eq (spec : Spec) (now : Instant) (points : List Point) :
    spec.alarmState now points = spec.judge (points.filter (spec.inWindow now)) := rfl

theorem judge_eq_noData_iff (spec : Spec) (window : List Point) :
    spec.judge window = .noData ↔
      aggregate spec.statistic window.length (spec.values window) = none := by
  rw [judge]
  split
  · rename_i missing
    simp [missing]
  · rename_i value found
    rw [found]
    split <;> simp

theorem judge_ne_alarm (spec : Spec) (window : List Point)
    (unsupported : spec.comparison.isSupported = false) : spec.judge window ≠ .alarm := by
  have never (value : Binary64) : spec.comparison.holds value spec.threshold = false := by
    cases comparison : spec.comparison with
    | unsupported => rfl
    | _ => simp [comparison, Comparison.isSupported] at unsupported
  rw [judge]
  split
  · simp
  · simp [never]

theorem values_eq_nil_iff (spec : Spec) (window : List Point) :
    spec.values window = [] ↔ ∀ point ∈ window, ¬ point.Carries spec.metricName := by
  simp [values, Point.Carries]

end Spec

theorem reduce_eq_none_iff (combine : Binary64 → Binary64 → Binary64) (values : List Binary64) :
    reduce combine values = none ↔ values = [] := by
  cases values <;> simp [reduce]

theorem aggregate_eq_none_iff (statistic : Statistic) (count : Nat) (values : List Binary64) :
    aggregate statistic count values = none ↔
      statistic ≠ .sum ∧ statistic ≠ .sampleCount ∧ values = [] := by
  cases statistic with
  | minimum => simp [aggregate, reduce_eq_none_iff]
  | maximum => simp [aggregate, reduce_eq_none_iff]
  | average => simp [aggregate]
  | sum => simp [aggregate]
  | sampleCount => simp [aggregate]

namespace Spec

section Judged

variable (spec : Spec) {now : Instant} {points : List Point} (ordinary : now.IsOrdinary)
  (ordinaryPoints : ∀ point ∈ points, point.createdAt.IsOrdinary)

include ordinary ordinaryPoints

theorem alarmState_eq_judge :
    spec.alarmState now points = spec.judge (points.filter (spec.Covers now ·)) := by
  rw [alarmState_eq, spec.filter_inWindow ordinary ordinaryPoints]

theorem alarmState_eq_noData_iff :
    spec.alarmState now points = .noData ↔
      spec.statistic ≠ .sum ∧ spec.statistic ≠ .sampleCount ∧
        ¬ ∃ point ∈ points, spec.Covers now point ∧ point.Carries spec.metricName := by
  rw [spec.alarmState_eq_judge ordinary ordinaryPoints, judge_eq_noData_iff, aggregate_eq_none_iff,
    values_eq_nil_iff]
  simp

end Judged

/-- The state comes from the points of the last period alone, whatever the period.  Without a reading
of the metric among them an average or an extreme has no data; a count or a sum always has, and an
unknown comparison raises no alarm. -/
theorem alarmState_window_exact (spec : Spec) (now : Instant) (points : List Point)
    (ordinary : now.IsOrdinary) (ordinaryPoints : ∀ point ∈ points, point.createdAt.IsOrdinary) :
    spec.alarmState now points = spec.judge (points.filter (spec.Covers now ·)) ∧
      (∀ others : List Point, (∀ point ∈ others, point.createdAt.IsOrdinary) →
        others.filter (spec.Covers now ·) = points.filter (spec.Covers now ·) →
        spec.alarmState now others = spec.alarmState now points) ∧
      (spec.statistic = .average ∨ spec.statistic = .minimum ∨ spec.statistic = .maximum →
        (spec.alarmState now points = .noData ↔
          ¬ ∃ point ∈ points, spec.Covers now point ∧ point.Carries spec.metricName)) ∧
      (spec.statistic = .sum ∨ spec.statistic = .sampleCount →
        spec.alarmState now points ≠ .noData) ∧
      (spec.comparison.isSupported = false → spec.alarmState now points ≠ .alarm) := by
  have judged := spec.alarmState_eq_judge ordinary ordinaryPoints
  have noData := spec.alarmState_eq_noData_iff ordinary ordinaryPoints
  refine ⟨judged, ?sameWindow, ?needsReading, ?alwaysData, ?neverAlarm⟩
  case sameWindow =>
    intro others ordinaryOthers same
    rw [judged, ← same]
    exact spec.alarmState_eq_judge ordinary ordinaryOthers
  case needsReading =>
    intro isKind
    have notSum : spec.statistic ≠ .sum := by
      rcases isKind with is | is | is <;> rw [is] <;> decide
    have notCount : spec.statistic ≠ .sampleCount := by
      rcases isKind with is | is | is <;> rw [is] <;> decide
    rw [noData, and_iff_right notSum, and_iff_right notCount]
  case alwaysData =>
    intro isKind missing
    obtain ⟨notSum, notCount, _⟩ := noData.mp missing
    exact isKind.elim notSum notCount
  case neverAlarm =>
    intro unsupported
    rw [judged]
    exact spec.judge_ne_alarm _ unsupported

def peakSpec (period : Nat) : Spec :=
  ⟨"load", .maximum, .greaterThan, .ofInt 10, period, none, none, none, none⟩

def loadAt (created : Instant) (load : Int) : Point :=
  ⟨created, Samples.empty.insert "load" ⟨.ofInt load, none⟩⟩

/-- An instant given by its second and the nanoseconds after it; without such an instant, the epoch. -/
def instantAt (second : Int) (nano : Nat) : Instant :=
  (Instant.of? second nano).getD .epoch

def noon : Instant := instantAt 43200 0

def minuteToNoon : Instant := instantAt 43140 0

def firstInstant : Instant := instantAt firstSecond 0

/-- The high loads are a nanosecond outside the last minute before noon, one at each end. -/
def loadsAroundNoon : List Point :=
  [loadAt (instantAt 43139 999999999) 50, loadAt minuteToNoon 5, loadAt noon 7,
    loadAt (instantAt 43200 1) 99]

theorem alarmState_window_exact_atNoon :
    (peakSpec 60).alarmState noon loadsAroundNoon =
        (peakSpec 60).judge [loadAt minuteToNoon 5, loadAt noon 7] ∧
      (peakSpec greatestSeconds).alarmState noon [loadAt firstInstant 50] ≠ .noData := by
  obtain ⟨judged, -⟩ := alarmState_window_exact (peakSpec 60) noon loadsAroundNoon (by decide)
    (by decide)
  obtain ⟨-, -, needsReading, -⟩ := alarmState_window_exact (peakSpec greatestSeconds) noon
    [loadAt firstInstant 50] (by decide) (by decide)
  refine ⟨judged.trans (congrArg _ (by decide)), fun missing => ?_⟩
  exact (needsReading (.inr (.inr rfl))).mp missing
    ⟨loadAt firstInstant 50, by decide, by decide, by decide⟩

end Spec

end Orchestration.Watch
