import Orchestration.Text.Blank
import Orchestration.Text.Integer

/-!
# Rows of digits

The digits of a number stand for it again.  A row of digits is found whole in front of a text that
does not go on with a digit.
-/

set_option autoImplicit false

namespace Orchestration.Text

def NoDigitAhead (text : List Char) : Prop :=
  ∀ c ∈ text.head?, isDigit c = false

theorem noDigitAhead_nil : NoDigitAhead [] := by
  intro c ahead
  cases ahead

theorem noDigitAhead_cons (c : Char) (rest : List Char) (other : isDigit c = false) :
    NoDigitAhead (c :: rest) := by
  intro first ahead
  cases ahead
  exact other

/-! ## Finding a row -/

theorem dropWhile_run {p : Char → Bool} {run rest : List Char} (all : ∀ c ∈ run, p c = true)
    (ends : ∀ c ∈ rest.head?, p c = false) : (run ++ rest).dropWhile p = rest := by
  rw [List.dropWhile_append_of_pos all]
  cases rest with
  | nil => rfl
  | cons c rest => simp [ends c rfl]

section Row

variable {row rest : List Char} (digits : ∀ c ∈ row, isDigit c = true) (ends : NoDigitAhead rest)

include digits ends

theorem takeWhile_row : (row ++ rest).takeWhile isDigit = row := by
  rw [List.takeWhile_append_of_pos digits]
  cases rest with
  | nil => simp
  | cons c rest => simp [ends c rfl]

theorem dropWhile_row : (row ++ rest).dropWhile isDigit = rest :=
  dropWhile_run digits ends

end Row

theorem not_isBlank_of_isDigit {c : Char} (digit : isDigit c = true) : isBlank c = false := by
  have range : 48 ≤ c.toNat ∧ c.toNat ≤ 57 := by
    simpa [isDigit, Char.le_def, UInt32.le_iff_toNat_le] using digit
  simp only [isBlank, Bool.or_eq_false_iff, Bool.and_eq_false_iff, decide_eq_false_iff_not,
    beq_eq_false_iff_ne]
  omega

theorem trimStart_row (row rest : List Char) (digits : ∀ c ∈ row, isDigit c = true)
    (some : row ≠ []) : trimStart (row ++ rest) = row ++ rest := by
  obtain ⟨c, more, rfl⟩ := List.exists_cons_of_ne_nil some
  have visible := not_isBlank_of_isDigit (digits c (List.mem_cons_self ..))
  simp [trimStart, visible]

/-! ## The digits of a number -/

theorem isDigit_of_mem_digits {n : Nat} {c : Char} (member : c ∈ digits n) : isDigit c = true :=
  Nat.isDigit_of_mem_toDigits (by decide) (by decide) member

theorem digits_ne_nil (n : Nat) : digits n ≠ [] :=
  Nat.toDigits_ne_nil

theorem ofDigits_eq (row : List Char) : ofDigits row = Nat.ofDigitChars 10 row 0 := by
  rw [Nat.ofDigitChars_eq_foldl]
  rfl

theorem ofDigits_zeros (count n : Nat) :
    ofDigits (List.replicate count '0' ++ digits n) = n := by
  rw [ofDigits_eq, Nat.ofDigitChars_append, Nat.ofDigitChars_replicate_zero, Nat.mul_zero]
  exact Nat.ofDigitChars_ten_toDigits

theorem ofDigits_digits (n : Nat) : ofDigits (digits n) = n :=
  ofDigits_zeros 0 n

theorem head?_digits (n : Nat) (positive : 0 < n) : (digits n).head? ≠ some '0' := by
  induction n using Nat.strongRecOn with
  | ind n ih =>
    rw [digits, Nat.toDigits_eq_if (by decide)]
    by_cases single : n < 10
    · have digit : n = 1 ∨ n = 2 ∨ n = 3 ∨ n = 4 ∨ n = 5 ∨ n = 6 ∨ n = 7 ∨ n = 8 ∨ n = 9 := by
        omega
      rcases digit with rfl | rfl | rfl | rfl | rfl | rfl | rfl | rfl | rfl <;> decide
    · rw [if_neg single, List.head?_append]
      have more := ih (n / 10) (by omega) (by omega)
      obtain ⟨c, rest, parts⟩ := List.exists_cons_of_ne_nil (digits_ne_nil (n / 10))
      rw [digits] at parts more
      rwa [parts] at more ⊢

end Orchestration.Text
