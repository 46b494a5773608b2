import Orchestration.Proofs.Text.Digits

/-!
# Signed numbers in text

The text of a whole number is a row of digits, with a sign in front or without one.  Blanks around
it do not count.
-/

set_option autoImplicit false

namespace Orchestration.Text

theorem trimStart_blanks (blanks text : List Char) (blank : ∀ c ∈ blanks, isBlank c = true)
    (ends : ∀ c ∈ text.head?, isBlank c = false) : trimStart (blanks ++ text) = text :=
  dropWhile_run blank ends

theorem trim_blanks (before text after : List Char) (some : text ≠ [])
    (first : ∀ c ∈ before, isBlank c = true) (last : ∀ c ∈ after, isBlank c = true)
    (visible : ∀ c ∈ text, isBlank c = false) : trim (before ++ (text ++ after)) = text := by
  obtain ⟨c, more, rfl⟩ := List.exists_cons_of_ne_nil some
  have ahead : ∀ d ∈ (c :: more ++ after).head?, isBlank d = false := by
    rintro d ⟨⟩
    exact visible c (List.mem_cons_self ..)
  have behind : ∀ d ∈ (c :: more).reverse.head?, isBlank d = false := fun d member =>
    visible d (List.mem_reverse.mp (List.mem_of_mem_head? member))
  rw [trim, trimStart_blanks before _ first ahead, List.reverse_append,
    trimStart_blanks after.reverse _ (fun d member => last d (List.mem_reverse.mp member)) behind,
    List.reverse_reverse]

/-- A row of digits, with a sign or without one, and the number that it stands for. -/
inductive Spells : List Char → Int → Prop where
  | plain (row : List Char) (some : row ≠ []) (digits : ∀ c ∈ row, isDigit c = true) :
    Spells row (Nat.ofDigitChars 10 row 0)
  | plus (row : List Char) (some : row ≠ []) (digits : ∀ c ∈ row, isDigit c = true) :
    Spells ('+' :: row) (Nat.ofDigitChars 10 row 0)
  | minus (row : List Char) (some : row ≠ []) (digits : ∀ c ∈ row, isDigit c = true) :
    Spells ('-' :: row) (-Nat.ofDigitChars 10 row 0)

theorem natural?_row {row : List Char} (some : row ≠ [])
    (digits : ∀ c ∈ row, isDigit c = true) :
    natural? row = .some (Nat.ofDigitChars 10 row 0) := by
  have all : row.all isDigit = true := List.all_eq_true.mpr digits
  rw [natural?, List.isEmpty_eq_false_iff.mpr some, all, ofDigits_eq]
  rfl

def fitting? (i : Int) : Option Int :=
  if -9223372036854775808 ≤ i ∧ i < 9223372036854775808 then some i else none

theorem fitting?_of_fits (i : Int) (low : -9223372036854775808 ≤ i)
    (high : i < 9223372036854775808) : fitting? i = some i :=
  if_pos ⟨low, high⟩

theorem signed64?_plus (row : List Char) :
    signed64? ('+' :: row) = (natural? row).bind fun n => fitting? n := by
  rw [signed64?]
  cases natural? row <;> rfl

theorem signed64?_minus (row : List Char) :
    signed64? ('-' :: row) = (natural? row).bind fun n => fitting? (-n) := by
  rw [signed64?]
  cases natural? row <;> rfl

theorem signed64?_unsigned (row : List Char) (digits : ∀ c ∈ row, isDigit c = true) :
    signed64? row = (natural? row).bind fun n => fitting? n := by
  unfold signed64?
  split
  · exact absurd (digits '-' (List.mem_cons_self ..)) (by decide)
  · exact absurd (digits '+' (List.mem_cons_self ..)) (by decide)
  · cases natural? row <;> rfl

namespace Spells

variable {text : List Char} {i : Int}

theorem ne_nil (spells : Spells text i) : text ≠ [] := by
  cases spells with
  | plain _ some => exact some
  | plus | minus => exact List.cons_ne_nil _ _

theorem visible (spells : Spells text i) : ∀ c ∈ text, isBlank c = false := by
  cases spells with
  | plain _ _ digits => exact fun c member => not_isBlank_of_isDigit (digits c member)
  | plus _ _ digits | minus _ _ digits =>
    refine List.forall_mem_cons.mpr ⟨by decide, fun c member => ?_⟩
    exact not_isBlank_of_isDigit (digits c member)

theorem signed64?_eq (spells : Spells text i) (low : -9223372036854775808 ≤ i)
    (high : i < 9223372036854775808) : signed64? text = some i := by
  rw [← fitting?_of_fits i low high]
  cases spells with
  | plus row some digits =>
    rw [signed64?_plus, natural?_row some digits, Option.bind_some]
  | minus row some digits =>
    rw [signed64?_minus, natural?_row some digits, Option.bind_some]
  | plain row some digits =>
    rw [signed64?_unsigned text digits, natural?_row some digits, Option.bind_some]

theorem ofInt (i : Int) : Spells (Text.ofInt i) i := by
  have digits : ∀ c ∈ Text.digits i.natAbs, isDigit c = true := fun c => isDigit_of_mem_digits
  have value : Nat.ofDigitChars 10 (Text.digits i.natAbs) 0 = i.natAbs :=
    Nat.ofDigitChars_ten_toDigits
  rw [Text.ofInt]
  split
  · have spells := Spells.minus _ (digits_ne_nil i.natAbs) digits
    rwa [value, show -(i.natAbs : Int) = i by omega] at spells
  · have spells := Spells.plain _ (digits_ne_nil i.natAbs) digits
    rwa [value, show (i.natAbs : Int) = i by omega] at spells

end Spells

end Orchestration.Text
