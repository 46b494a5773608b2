import Orchestration.Proofs.Results
import Orchestration.Proofs.Text.Digits
import Orchestration.Proofs.Time.Calendar
import Orchestration.Time.Rfc3339

/-!
# Instants read back

The text of an instant reads back as that instant, leap seconds and years of any sign and length
included.
-/

set_option autoImplicit false

namespace Orchestration.Time

open Text (NoDigitAhead)

/-! ## Padded numbers -/

theorem padded_digits {width n : Nat} {c : Char} (member : c ∈ padded width n) :
    Text.isDigit c = true := by
  rcases List.mem_append.mp member with zero | digit
  · rw [List.eq_of_mem_replicate zero]
    rfl
  · exact Text.isDigit_of_mem_digits digit

theorem padded_ne_nil (width n : Nat) : padded width n ≠ [] :=
  List.append_ne_nil_of_right_ne_nil _ (Text.digits_ne_nil n)

theorem ofDigits_padded (width n : Nat) : Text.ofDigits (padded width n) = n :=
  Text.ofDigits_zeros _ n

theorem length_padded {width n : Nat} (some : 0 < width) (fits : n < Nat.pow 10 width) :
    (padded width n).length = width := by
  have short : (Text.digits n).length ≤ width :=
    (Nat.length_toDigits_le_iff (by decide) some).mpr fits
  simp only [padded, List.length_append, List.length_replicate]
  omega

/-! ## Reading the parts -/

theorem year?_minus (text : List Char) :
    year? ('-' :: text) = (digits? text.length text).map fun (n, rest) => (-(n : Int), rest) :=
  rfl

theorem year?_plus (text : List Char) :
    year? ('+' :: text) = (digits? text.length text).map fun (n, rest) => ((n : Int), rest) :=
  rfl

section Parts

variable {rest : List Char} (ends : NoDigitAhead rest)

include ends

theorem digits?_row {most : Nat} {row : List Char} (digits : ∀ c ∈ row, Text.isDigit c = true)
    (some : row ≠ []) (short : row.length ≤ most) :
    digits? most (row ++ rest) = .some (Text.ofDigits row, rest) := by
  rw [digits?, Text.takeWhile_row digits ends, List.take_of_length_le short]
  obtain ⟨c, more, rfl⟩ := List.exists_cons_of_ne_nil some
  simp

theorem digits?_padded {most width n : Nat} (short : (padded width n).length ≤ most) :
    digits? most (padded width n ++ rest) = some (n, rest) := by
  rw [digits?_row ends (fun _ => padded_digits) (padded_ne_nil width n) short, ofDigits_padded]

theorem field?_padded {n : Nat} (fits : n < 100) :
    field? 2 (padded 2 n ++ rest) = some (n, rest) := by
  rw [field?, Text.trimStart_row _ _ (fun _ => padded_digits) (padded_ne_nil 2 n)]
  exact digits?_padded ends (Nat.le_of_eq (length_padded (by decide) fits))

theorem year?_padded {n : Nat} (fits : n < 10000) :
    year? (padded 4 n ++ rest) = some ((n : Int), rest) := by
  have read : digits? 4 (padded 4 n ++ rest) = some (n, rest) :=
    digits?_padded ends (Nat.le_of_eq (length_padded (by decide) fits))
  rw [year?, Text.trimStart_row _ _ (fun _ => padded_digits) (padded_ne_nil 4 n)]
  obtain ⟨c, more, row⟩ := List.exists_cons_of_ne_nil (padded_ne_nil 4 n)
  have digit : Text.isDigit c = true := padded_digits (row ▸ List.mem_cons_self ..)
  rw [row, List.cons_append] at read ⊢
  split
  · rename_i same
    cases same
    exact absurd digit (by decide)
  · rename_i same
    cases same
    exact absurd digit (by decide)
  · rw [read]
    rfl

theorem year?_yearText (year : Int) : year? (yearText year ++ rest) = some (year, rest) := by
  have read : digits? (padded 4 year.natAbs ++ rest).length (padded 4 year.natAbs ++ rest) =
      some (year.natAbs, rest) :=
    digits?_padded ends (by simp)
  rw [yearText]
  split
  · rename_i plain
    have fits : year.natAbs < 10000 := by omega
    rw [year?_padded ends fits, Int.natAbs_of_nonneg plain.1]
  · by_cases below : year < 0
    · have negative : -(year.natAbs : Int) = year := by omega
      rw [if_pos below, List.cons_append, year?_minus, read]
      exact congrArg some (Prod.ext negative rfl)
    · have positive : (year.natAbs : Int) = year := by omega
      rw [if_neg below, List.cons_append, year?_plus, read]
      exact congrArg some (Prod.ext positive rfl)

theorem places?_padded {width n nano : Nat} (some : 0 < width) (short : width ≤ 9)
    (fits : n < Nat.pow 10 width) (counts : n * Nat.pow 10 (9 - width) = nano) :
    places? ('.' :: padded width n ++ rest) = .some (nano, rest) := by
  have size := length_padded some fits
  have read : digits? 9 (padded width n ++ rest) = .some (n, rest) :=
    digits?_padded ends (size.symm ▸ short)
  have skipped : rest.dropWhile Text.isDigit = rest := by
    simpa using @Text.dropWhile_row [] rest (by simp) ends
  simp only [places?, List.cons_append, read, bind, Option.bind, skipped, List.length_append, size,
    Nat.add_sub_cancel]
  exact congrArg Option.some (Prod.ext counts rfl)

end Parts

theorem places?_placesText (nano : Nat) (small : nano < nanosPerSecond) :
    places? (placesText nano ++ ['Z']) = some (nano, ['Z']) := by
  rw [nanosPerSecond] at small
  have ends : NoDigitAhead ['Z'] := Text.noDigitAhead_cons _ _ rfl
  rw [placesText]
  split
  · rename_i none
    rw [none]
    rfl
  · split
    · apply places?_padded ends (by decide) (by decide)
      · change nano / 1000000 < 1000
        omega
      · change nano / 1000000 * 1000000 = nano
        omega
    · split
      · apply places?_padded ends (by decide) (by decide)
        · change nano / 1000 < 1000000
          omega
        · change nano / 1000 * 1000 = nano
          omega
      · apply places?_padded ends (by decide) (by decide)
        · change nano < 1000000000
          exact small
        · exact Nat.mul_one nano

theorem noDigitAhead_placesText (nano : Nat) : NoDigitAhead (placesText nano ++ ['Z']) := by
  rw [placesText]
  repeat' split
  all_goals exact Text.noDigitAhead_cons _ _ rfl

end Orchestration.Time

namespace Orchestration.Instant

open Time

theorem of?_eq (t : Instant) : of? t.second t.nano = some t := by
  rw [of?, dif_pos ⟨t.nano_lt, t.leap⟩, dif_pos t.inRange]

theorem daysInMonth_le (year : Int) (month : Nat) : daysInMonth year month ≤ 31 := by
  unfold daysInMonth
  repeat' split
  all_goals decide

/-- The text of a valid date and a time reads as the instant that they make up. -/
theorem read?_written (t : Instant) (date : Date) (hour minute second nano : Nat)
    (valid : date.isValid = true) (inDay : hour < 24) (inHour : minute < 60) (inMinute : second ≤ 60)
    (small : nano < nanosPerSecond)
    (isSecond : t.second =
      date.toDays * 86400 + (hour * 3600 + minute * 60 + min second 59 : Nat))
    (isNano : t.nano = if second = 60 then nano + nanosPerSecond else nano) :
    read? (yearText date.year ++ '-' :: (padded 2 date.month ++ '-' :: (padded 2 date.day ++ 'T' ::
      (padded 2 hour ++ ':' :: (padded 2 minute ++ ':' :: (padded 2 second ++
        (placesText nano ++ ['Z']))))))) = some t := by
  have ends (c : Char) (rest : List Char) (other : Text.isDigit c = false) :=
    Text.noDigitAhead_cons c rest other
  have inYear : date.month < 100 ∧ date.day < 100 := by
    simp only [Date.isValid, Bool.and_eq_true, decide_eq_true_eq] at valid
    have longest := daysInMonth_le date.year date.month
    omega
  have afterSecond := noDigitAhead_placesText nano
  have dash (rest : List Char) : mark? '-' ('-' :: rest) = some rest := rfl
  have colon (rest : List Char) : mark? ':' (':' :: rest) = some rest := rfl
  rw [read?]
  apply (bind_of_some (year?_yearText (ends _ _ rfl) date.year)).trans
  apply (bind_of_some (dash _)).trans
  apply (bind_of_some (field?_padded (ends _ _ rfl) inYear.1)).trans
  apply (bind_of_some (dash _)).trans
  apply (bind_of_some (field?_padded (ends _ _ rfl) inYear.2)).trans
  apply (bind_of_some rfl).trans
  apply (bind_of_some (field?_padded (ends _ _ rfl) (Nat.lt_trans inDay (by decide)))).trans
  apply (bind_of_some (colon _)).trans
  apply (bind_of_some (field?_padded (ends _ _ rfl) (Nat.lt_trans inHour (by decide)))).trans
  apply (bind_of_some (colon _)).trans
  apply (bind_of_some (field?_padded afterSecond (Nat.lt_of_le_of_lt inMinute (by decide)))).trans
  apply (bind_of_some (places?_placesText nano small)).trans
  apply (bind_of_some (rfl : offset? (Text.trimStart ['Z']) = some (0, []))).trans
  have fits : ¬ (!(Text.trimStart []).isEmpty || !date.isValid || decide (24 ≤ hour) ||
      decide (60 ≤ minute) || decide (61 ≤ second)) = true := by
    rw [valid]
    simp only [Text.trimStart, List.dropWhile_nil, List.isEmpty_nil, Bool.not_true, Bool.or_self,
      Bool.false_or, Bool.or_eq_true, decide_eq_true_eq]
    omega
  have leap : (if second = 60 then (59, nano + nanosPerSecond) else (second, nano)) =
      (min second 59, t.nano) := by
    rw [isNano]
    split
    · rename_i sixty
      rw [sixty]
      rfl
    · rw [Nat.min_eq_left (by omega)]
  apply (if_neg fits).trans
  rw [leap]
  have local? : of? (date.toDays * 86400 + (hour * 3600 + minute * 60 + min second 59 : Nat)) t.nano =
      some t := by
    rw [← isSecond]
    exact of?_eq t
  apply (bind_of_some local?).trans
  rw [Int.sub_zero]
  exact of?_eq t

theorem ofText?_text (t : Instant) : ofText? t.text = some t := by
  have inDay : t.second / 86400 * 86400 + (t.second % 86400).toNat = t.second := by omega
  have ofDay : (t.second % 86400).toNat < 86400 := by omega
  have lastSecond := t.leap
  have small := t.nano_lt
  simp only [ofText?, text, String.toList_ofList, List.append_assoc, List.cons_append]
  have sameMinute : (t.second % 86400).toNat % 60 = (t.second % 60).toNat := by omega
  generalize (t.second % 86400).toNat = time at *
  by_cases leap : nanosPerSecond ≤ t.nano
  · rw [if_pos leap]
    have sixty : time % 60 + 1 = 60 := by omega
    refine read?_written t _ (time / 3600) (time / 60 % 60) (time % 60 + 1) (t.nano - nanosPerSecond)
      (Date.isValid_ofDays _) (by omega) (by omega) (by omega) (by omega) ?_ ?_
    · rw [Date.toDays_ofDays, sixty]
      omega
    · rw [if_pos sixty]
      omega
  · rw [if_neg leap]
    refine read?_written t _ (time / 3600) (time / 60 % 60) (time % 60) t.nano
      (Date.isValid_ofDays _) (by omega) (by omega) (by omega) (by omega) ?_ ?_
    · rw [Date.toDays_ofDays, Nat.min_eq_left (by omega)]
      omega
    · rw [if_neg (by omega)]

end Orchestration.Instant
