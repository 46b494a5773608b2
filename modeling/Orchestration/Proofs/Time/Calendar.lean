import Orchestration.Time.Calendar

/-!
# The calendar in both directions

Every day number has a valid date, and that date has the day number.  An era is 400 years that begin
in March, so that all its centuries but the last have 36524 days.
-/

set_option autoImplicit false

namespace Orchestration.Time

/-- The years of one century of an era: each has 365 days, and 366 only if it is a fourth one and not
the last. -/
theorem yearOfEra_in_century (century dayOfEra year : Int) (first : 36524 * century ≤ dayOfEra)
    (last : dayOfEra < 36524 * (century + 1)) (low : 0 ≤ century) (high : century ≤ 3)
    (isYear : year = (dayOfEra - dayOfEra / 1460 + century) / 365) :
    let dayOfYear := dayOfEra - (365 * year + year / 4 - year / 100)
    year / 100 = century ∧ 0 ≤ dayOfYear ∧ dayOfYear ≤ 365 ∧
      (dayOfYear = 365 → year % 4 = 3 ∧ year % 100 ≠ 99) := by
  intro dayOfYear
  have sameCentury : year / 100 = century := by omega
  refine ⟨sameCentury, by omega, by omega, fun full => ⟨?_, by omega⟩⟩
  have rest : year % 4 = 0 ∨ year % 4 = 1 ∨ year % 4 = 2 ∨ year % 4 = 3 := by omega
  rcases rest with rest | rest | rest | rest <;> omega

/-- The years of an era: the day after February of a leap year is the last one of the year. -/
theorem yearOfEra_spec (dayOfEra year dayOfYear : Int) (low : 0 ≤ dayOfEra)
    (high : dayOfEra < 146097)
    (isYear : year = (dayOfEra - dayOfEra / 1460 + dayOfEra / 36524 - dayOfEra / 146096) / 365)
    (isDay : dayOfYear = dayOfEra - (365 * year + year / 4 - year / 100)) :
    0 ≤ year ∧ year ≤ 399 ∧ 0 ≤ dayOfYear ∧ dayOfYear ≤ 365 ∧
      (dayOfYear = 365 → year % 4 = 3 ∧ (year % 100 = 99 → year = 399)) := by
  by_cases leapDay : dayOfEra = 146096
  · have last : year = 399 := by omega
    omega
  · obtain ⟨sameCentury, spec⟩ := yearOfEra_in_century (dayOfEra / 36524) dayOfEra year (by omega)
      (by omega) (by omega) (by omega) (by omega)
    omega

namespace Date

/-- The date of a day as its year that begins in March, the month from March and the day of it. -/
theorem ofDays_parts (days : Int) :
    ∃ era year dayOfYear month : Int, days + 719468 =
        era * 146097 + (365 * year + year / 4 - year / 100 + dayOfYear) ∧
      0 ≤ year ∧ year ≤ 399 ∧ 0 ≤ dayOfYear ∧ dayOfYear ≤ 365 ∧
      (dayOfYear = 365 → year % 4 = 3 ∧ (year % 100 = 99 → year = 399)) ∧
      month = (5 * dayOfYear + 2) / 153 ∧
      (ofDays days).year = (if month < 10 then year else year + 1) + era * 400 ∧
      ((ofDays days).month : Int) = (if month < 10 then month + 3 else month - 9) ∧
      ((ofDays days).day : Int) = dayOfYear - (153 * month + 2) / 5 + 1 := by
  have low := Int.emod_nonneg (days + 719468) (show (146097 : Int) ≠ 0 by decide)
  have high := Int.emod_lt_of_pos (days + 719468) (show (0 : Int) < 146097 by decide)
  have whole := Int.emod_add_mul_ediv (days + 719468) 146097
  simp only [ofDays]
  generalize (days + 719468) / 146097 = era at *
  have inEra : days + 719468 - era * 146097 = (days + 719468) % 146097 := by omega
  rw [inEra]
  generalize (days + 719468) % 146097 = dayOfEra at *
  generalize isYear :
    (dayOfEra - dayOfEra / 1460 + dayOfEra / 36524 - dayOfEra / 146096) / 365 = year
  generalize isDay : dayOfEra - (365 * year + year / 4 - year / 100) = dayOfYear
  obtain ⟨yearLow, yearHigh, dayLow, dayHigh, leap⟩ :=
    yearOfEra_spec dayOfEra year dayOfYear low high isYear.symm isDay.symm
  refine ⟨era, year, dayOfYear, (5 * dayOfYear + 2) / 153, by omega, yearLow, yearHigh, dayLow,
    dayHigh, leap, rfl, ?_, ?_, ?_⟩
  · split <;> split <;> omega
  · split <;> omega
  · omega

theorem toDays_ofDays (days : Int) : (ofDays days).toDays = days := by
  obtain ⟨era, year, dayOfYear, month, whole, yearLow, yearHigh, dayLow, dayHigh, _, isMonth, isYear,
    monthOf, dayOf⟩ := ofDays_parts days
  generalize ofDays days = date at *
  have marchYear : (if date.month ≤ 2 then date.year - 1 else date.year) = year + era * 400 := by
    split <;> split at isYear <;> omega
  have marchMonth : (((date.month + 9) % 12 : Nat) : Int) = month := by
    split at monthOf <;> omega
  have sameEra : (year + era * 400) / 400 = era := by omega
  simp only [toDays, marchYear, sameEra]
  have sameYear : year + era * 400 - era * 400 = year := by omega
  rw [sameYear]
  generalize (date.month + 9) % 12 = fromMarch at *
  have sameDay : (((153 * fromMarch + 2) / 5 + date.day : Nat) : Int) - 1 = dayOfYear := by
    omega
  rw [sameDay]
  omega

theorem isValid_ofDays (days : Int) : (ofDays days).isValid = true := by
  obtain ⟨era, year, dayOfYear, month, whole, yearLow, yearHigh, dayLow, dayHigh, leap, isMonth,
    isYear, monthOf, dayOf⟩ := ofDays_parts days
  generalize ofDays days = date at *
  have inYear : 1 ≤ date.month ∧ date.month ≤ 12 := by
    split at monthOf <;> omega
  have leapYear : month = 11 → dayOfYear = 365 → isLeapYear date.year = true := by
    intro february full
    obtain ⟨fourth, century⟩ := leap full
    rw [if_neg (by omega)] at isYear
    simp only [isLeapYear, Bool.and_eq_true, Bool.or_eq_true, beq_iff_eq, bne_iff_ne]
    omega
  have inMonth : date.day ≤ daysInMonth date.year date.month := by
    have months : date.month = 1 ∨ date.month = 2 ∨ date.month = 3 ∨ date.month = 4 ∨
        date.month = 5 ∨ date.month = 6 ∨ date.month = 7 ∨ date.month = 8 ∨ date.month = 9 ∨
        date.month = 10 ∨ date.month = 11 ∨ date.month = 12 := by omega
    rcases months with is | is | is | is | is | is | is | is | is | is | is | is
    case inr.inl =>
      simp only [is, daysInMonth]
      have february : month = 11 := by split at monthOf <;> omega
      split
      · omega
      · rename_i common
        have short : dayOfYear ≠ 365 := fun full => common (leapYear february full)
        omega
    all_goals
      simp only [is, daysInMonth]
      split at monthOf <;> omega
  have begun : 1 ≤ date.day := by omega
  simp [isValid, inYear, begun, inMonth]

end Date

end Orchestration.Time
