import Mathlib.Data.List.TakeWhile
import Orchestration.Json.Token
import Orchestration.Json.Write
import Orchestration.Proofs.Text.Digits

/-!
# Numbers and strings read back

The text of a whole number of 64 bits and the quoted form of any string read back, and so does what
is written of a floating-point number whose decimal reads back by itself.  In front of other text
both are found whole.
-/

set_option autoImplicit false

namespace Orchestration

open Text (NoDigitAhead)

/-! ## Numbers in front of a text -/

/-- The text cannot go on with the number in front of it. -/
def NumberEnds (text : List Char) : Prop :=
  ∀ c ∈ text.head?, Text.isDigit c = false ∧ c ≠ '.' ∧ c ≠ 'e' ∧ c ≠ 'E'

theorem numberEnds_nil : NumberEnds [] := by
  intro c ahead
  cases ahead

theorem numberEnds_cons (c : Char) (rest : List Char)
    (other : Text.isDigit c = false ∧ c ≠ '.' ∧ c ≠ 'e' ∧ c ≠ 'E') : NumberEnds (c :: rest) := by
  intro first ahead
  cases ahead
  exact other

theorem NumberEnds.noDigitAhead {text : List Char} (ends : NumberEnds text) : NoDigitAhead text :=
  fun c ahead => (ends c ahead).1

namespace NumberText

variable {text rest after : List Char}

theorem places?_none (noPoint : ∀ c ∈ text.head?, c ≠ '.') : places? text = some (none, text) := by
  unfold places?
  split
  · exact absurd rfl (noPoint '.' rfl)
  · rfl

theorem exponent?_none (noMark : ∀ c ∈ text.head?, c ≠ 'e' ∧ c ≠ 'E') :
    exponent? text = some (none, text) := by
  unfold exponent?
  split
  · exact absurd rfl (noMark 'e' rfl).1
  · exact absurd rfl (noMark 'E' rfl).2
  · rfl

theorem exponent?_mark (mark : Char) (isMark : mark = 'e' ∨ mark = 'E') :
    exponent? (mark :: text) = (digits? (Binary64.signed text).2).map fun (found, rest) =>
      (some ((Binary64.signed text).1, found), rest) := by
  rcases isMark with rfl | rfl <;> rfl

theorem signed_append (some : text ≠ []) : Binary64.signed (text ++ rest) =
    ((Binary64.signed text).1, (Binary64.signed text).2 ++ rest) := by
  obtain ⟨c, more, rfl⟩ := List.exists_cons_of_ne_nil some
  by_cases minus : c = '-'
  · cases minus
    rfl
  · by_cases plus : c = '+'
    · cases plus
      rfl
    · have plain (tail : List Char) : Binary64.signed (c :: tail) = (false, c :: tail) := by
        unfold Binary64.signed
        split
        · rename_i same
          cases same
          exact absurd rfl minus
        · rename_i same
          cases same
          exact absurd rfl plus
        · rfl
      rw [List.cons_append, plain, plain]
      rfl

theorem whole?_digits (noZero : text.head? ≠ some '0') : whole? text = digits? text := by
  unfold whole?
  split
  · exact absurd rfl noZero
  · rfl

theorem read?_plain (plain : text.head? ≠ some '-') : read? text = magnitude? false text := by
  unfold read?
  split
  · exact absurd rfl plain
  · rfl

section Append

variable (ends : NumberEnds rest)

include ends

theorem digits?_append {found : List Char} (read : digits? text = some (found, after)) :
    digits? (text ++ rest) = some (found, after ++ rest) := by
  have whole : text.takeWhile Text.isDigit ++ text.dropWhile Text.isDigit = text :=
    List.takeWhile_append_dropWhile
  have row : ∀ c ∈ text.takeWhile Text.isDigit, Text.isDigit c = true :=
    fun c => List.mem_takeWhile_imp
  have stops : NoDigitAhead (text.dropWhile Text.isDigit ++ rest) := by
    cases left : text.dropWhile Text.isDigit with
    | nil => exact ends.noDigitAhead
    | cons c more =>
      have first := List.head?_dropWhile_not Text.isDigit text
      rw [left] at first
      exact Text.noDigitAhead_cons c _ (by simpa using first)
  rw [digits?] at read ⊢
  rw [← whole, List.append_assoc, Text.takeWhile_row row stops, Text.dropWhile_row row stops]
  split at read
  · cases read
  · rename_i found some
    cases read
    rfl

theorem places?_append {places : Option (List Char)} (read : places? text = some (places, after)) :
    places? (text ++ rest) = some (places, after ++ rest) := by
  by_cases point : text.head? = some '.'
  · obtain ⟨text, rfl⟩ := List.head?_eq_some_iff.mp point
    obtain ⟨⟨found, after'⟩, first, same⟩ := Option.map_eq_some_iff.mp read
    cases same
    exact Option.map_eq_some_iff.mpr ⟨_, digits?_append ends first, rfl⟩
  · have noPoint : ∀ c ∈ (text ++ rest).head?, c ≠ '.' := by
      rintro c ahead rfl
      rw [List.head?_append] at ahead
      cases text with
      | nil => exact (ends '.' ahead).2.1 rfl
      | cons c text => exact point ahead
    have noPoint' : ∀ c ∈ text.head?, c ≠ '.' := by
      rintro c ahead rfl
      exact point ahead
    rw [places?_none noPoint'] at read
    cases read
    exact places?_none noPoint

theorem exponent?_append {exponent : Option (Bool × List Char)}
    (read : exponent? text = some (exponent, after)) :
    exponent? (text ++ rest) = some (exponent, after ++ rest) := by
  by_cases mark : text.head? = some 'e' ∨ text.head? = some 'E'
  · obtain ⟨c, text, rfl, isMark⟩ : ∃ c more, text = c :: more ∧ (c = 'e' ∨ c = 'E') := by
      rcases mark with mark | mark
      · obtain ⟨more, same⟩ := List.head?_eq_some_iff.mp mark
        exact ⟨_, more, same, .inl rfl⟩
      · obtain ⟨more, same⟩ := List.head?_eq_some_iff.mp mark
        exact ⟨_, more, same, .inr rfl⟩
    rw [exponent?_mark c isMark] at read
    obtain ⟨⟨found, after'⟩, first, same⟩ := Option.map_eq_some_iff.mp read
    cases same
    have some : text ≠ [] := by
      rintro rfl
      cases first
    rw [List.cons_append, exponent?_mark c isMark, signed_append some]
    exact Option.map_eq_some_iff.mpr ⟨_, digits?_append ends first, rfl⟩
  · have noMark : ∀ c ∈ (text ++ rest).head?, c ≠ 'e' ∧ c ≠ 'E' := by
      intro c ahead
      rw [List.head?_append] at ahead
      cases text with
      | nil => exact (ends c ahead).2.2
      | cons c text =>
        cases ahead
        exact ⟨fun same => mark (.inl (same ▸ rfl)), fun same => mark (.inr (same ▸ rfl))⟩
    have noMark' : ∀ c ∈ text.head?, c ≠ 'e' ∧ c ≠ 'E' := by
      intro c ahead
      exact ⟨fun same => mark (.inl (same ▸ ahead)), fun same => mark (.inr (same ▸ ahead))⟩
    rw [exponent?_none noMark'] at read
    cases read
    exact exponent?_none noMark

theorem whole?_append {whole : List Char} (read : whole? text = some (whole, after)) :
    whole? (text ++ rest) = some (whole, after ++ rest) := by
  have some : text ≠ [] := by
    rintro rfl
    cases read
  obtain ⟨c, more, rfl⟩ := List.exists_cons_of_ne_nil some
  by_cases zero : c = '0'
  · subst zero
    cases read
    rfl
  · rw [whole?_digits (by simpa using zero)] at read
    rw [whole?_digits (by simpa using zero)]
    exact digits?_append ends read

theorem magnitude?_append {negative : Bool} {written : NumberText}
    (read : magnitude? negative text = some (written, after)) :
    magnitude? negative (text ++ rest) = some (written, after ++ rest) := by
  obtain ⟨⟨whole, text₁⟩, readWhole, read⟩ := Option.bind_eq_some_iff.mp read
  obtain ⟨⟨places, text₂⟩, readPlaces, read⟩ := Option.bind_eq_some_iff.mp read
  obtain ⟨⟨exponent, text₃⟩, readExponent, read⟩ := Option.bind_eq_some_iff.mp read
  cases read
  simp only [magnitude?, whole?_append ends readWhole, places?_append ends readPlaces,
    exponent?_append ends readExponent, Option.bind_eq_bind, Option.bind_some]

theorem read?_append {written : NumberText} (read : read? text = some (written, [])) :
    read? (text ++ rest) = some (written, rest) := by
  have some : text ≠ [] := by
    rintro rfl
    cases read
  obtain ⟨c, more, rfl⟩ := List.exists_cons_of_ne_nil some
  by_cases minus : c = '-'
  · subst minus
    exact magnitude?_append ends read
  · rw [read?_plain (by simpa using minus)] at read ⊢
    exact magnitude?_append ends read

end Append

theorem digits?_row (digits : ∀ c ∈ text, Text.isDigit c = true) (some : text ≠ []) :
    digits? text = .some (text, []) := by
  have whole := Text.takeWhile_row digits Text.noDigitAhead_nil
  have none := Text.dropWhile_row digits Text.noDigitAhead_nil
  rw [List.append_nil] at whole none
  rw [digits?, whole, none]
  split
  · exact absurd rfl some
  · rfl

theorem first_of_read? {written : NumberText} (read : read? text = some (written, after)) :
    ∃ c more, text = c :: more ∧ (c = '-' ∨ Text.isDigit c = true) := by
  obtain ⟨c, more, parts⟩ := List.exists_cons_of_ne_nil (l := text) (by rintro rfl; cases read)
  refine ⟨c, more, parts, ?_⟩
  subst parts
  by_cases minus : c = '-'
  · exact .inl minus
  · rw [read?_plain (by simpa using minus)] at read
    obtain ⟨⟨whole, rest⟩, readWhole, -⟩ := Option.bind_eq_some_iff.mp read
    by_cases zero : c = '0'
    · exact .inr (zero ▸ rfl)
    · rw [whole?_digits (by simpa using zero), digits?, List.takeWhile_cons] at readWhole
      cases digit : Text.isDigit c with
      | true => exact .inr rfl
      | false =>
        rw [digit] at readWhole
        cases readWhole

end NumberText

namespace Number

/-- What is written of the number reads as the number. -/
def ReadsBack (n : Number) : Prop :=
  ∃ written, NumberText.read? n.text = some (written, []) ∧ written.value? = some n

end Number

namespace NumberText

theorem magnitude?_digits (negative : Bool) (n : Nat) :
    magnitude? negative (Text.digits n) = some (⟨negative, Text.digits n, none, none⟩, []) := by
  have whole : whole? (Text.digits n) = some (Text.digits n, []) := by
    rcases Nat.eq_zero_or_pos n with rfl | positive
    · rfl
    · rw [whole?_digits (Text.head?_digits n positive)]
      exact digits?_row (fun _ => Text.isDigit_of_mem_digits) (Text.digits_ne_nil n)
  rw [magnitude?, whole]
  rfl

theorem read?_ofInt (n : Int) :
    read? (Text.ofInt n) = some (⟨n < 0, Text.digits n.natAbs, none, none⟩, []) := by
  rw [Text.ofInt]
  by_cases below : n < 0
  · rw [if_pos below, decide_eq_true below]
    exact magnitude?_digits true n.natAbs
  · rw [if_neg below]
    have plain : (Text.digits n.natAbs).head? ≠ some '-' := by
      intro minus
      have digit := Text.isDigit_of_mem_digits (List.mem_of_mem_head? minus)
      exact absurd digit (by decide)
    rw [read?_plain plain, decide_eq_false below]
    exact magnitude?_digits false n.natAbs

end NumberText

theorem Number.readsBack_integer (n : Int) (inRange : (Number.integer n).InRange) :
    (Number.integer n).ReadsBack := by
  refine ⟨_, NumberText.read?_ofInt n, ?_⟩
  simp only [InRange] at inRange
  simp only [NumberText.value?, Text.ofDigits_digits, Option.isSome_none, Bool.or_self,
    Bool.false_eq_true, if_false, Bool.and_eq_true, Bool.not_eq_true', decide_eq_false_iff_not,
    decide_eq_true_eq]
  by_cases below : n < 0
  · have value : -(n.natAbs : Int) = n := by omega
    rw [if_neg (by omega), if_pos (by omega), value]
  · have value : (n.natAbs : Int) = n := by omega
    rw [if_pos (by omega), value]

/-! ## Strings -/

namespace Json

open Token

def writtenPiece (c : Char) : Piece :=
  if c.toNat < 32 ∧ c ∉ ['\x08', '\x0c', '\n', '\r', '\t'] then .unit c.toNat else .char c

theorem hexValue?_hexDigit (n : Nat) (small : n < 16) :
    Text.hexValue? (Text.hexDigit n) = some n := by
  revert n
  decide

theorem hexUnit?_control (n : Nat) (small : n < 32) :
    hexUnit? '0' '0' (Text.hexDigit (n / 16)) (Text.hexDigit (n % 16)) = some n := by
  have zero : Text.hexValue? '0' = some 0 := rfl
  simp only [hexUnit?, zero, hexValue?_hexDigit _ (show n / 16 < 16 by omega),
    hexValue?_hexDigit _ (show n % 16 < 16 by omega), Option.bind_eq_bind, Option.bind_some]
  congr 1
  omega

theorem pieces?_letter (letter c : Char) (rest : List Char) (stands : escaped? letter = some c)
    (noUnit : letter ≠ 'u') : pieces? ('\\' :: letter :: rest) =
      (pieces? rest).map fun (parts, after) => (.char c :: parts, after) := by
  rw [pieces?, stands]
  · cases pieces? rest <;> rfl
  · rintro _ _ _ _ _ rfl
    exact fun _ => noUnit rfl

theorem pieces?_unit (a b c d : Char) (n : Nat) (rest : List Char)
    (stands : hexUnit? a b c d = some n) : pieces? ('\\' :: 'u' :: a :: b :: c :: d :: rest) =
      (pieces? rest).map fun (parts, after) => (.unit n :: parts, after) := by
  rw [pieces?, stands]
  cases pieces? rest <;> rfl

theorem pieces?_plain (c : Char) (rest : List Char) (noQuote : c ≠ '"') (noEscape : c ≠ '\\')
    (visible : ¬ c.toNat < 32) : pieces? (c :: rest) =
      (pieces? rest).map fun (parts, after) => (.char c :: parts, after) := by
  rw [pieces?, if_neg visible]
  · cases pieces? rest <;> rfl
  · exact noQuote
  · exact fun _ _ _ _ _ same => absurd same noEscape
  · exact fun _ _ same => absurd same noEscape

theorem pieces?_escape (c : Char) (rest : List Char) :
    pieces? (escape c ++ rest) =
      (pieces? rest).map fun (parts, after) => (writtenPiece c :: parts, after) := by
  by_cases short : c ∈ ['"', '\\', '\x08', '\x0c', '\n', '\r', '\t']
  · simp only [List.mem_cons, List.not_mem_nil, or_false] at short
    rcases short with rfl | rfl | rfl | rfl | rfl | rfl | rfl <;>
      exact pieces?_letter _ _ rest (by decide) (by decide)
  · simp only [List.mem_cons, List.not_mem_nil, or_false, not_or] at short
    obtain ⟨noQuote, noEscape, others⟩ := short
    by_cases control : c.toNat < 32
    · simp only [escape, noQuote, noEscape, others, control, if_false, if_true]
      rw [writtenPiece, if_pos ⟨control, by simp [others]⟩]
      exact pieces?_unit _ _ _ _ _ rest (hexUnit?_control _ control)
    · simp only [escape, noQuote, noEscape, others, control, if_false]
      rw [writtenPiece, if_neg fun both => control both.1]
      exact pieces?_plain c rest noQuote noEscape control

theorem pieces?_written (chars rest : List Char) :
    pieces? (chars.flatMap escape ++ '"' :: rest) = some (chars.map writtenPiece, rest) := by
  induction chars with
  | nil => rfl
  | cons c chars ih =>
    rw [List.flatMap_cons, List.append_assoc, pieces?_escape, ih]
    rfl

theorem content?_char (c : Char) (rest : List Piece) :
    content? (.char c :: rest) = (content? rest).map (c :: ·) :=
  rfl

theorem content?_unit (n : Nat) (rest : List Piece) (low : n < 0xD800) :
    content? (.unit n :: rest) = (content? rest).map (Char.ofNat n :: ·) := by
  have plain : ¬ (0xD800 ≤ n ∧ n < 0xE000) := by omega
  match rest with
  | .unit m :: more => rw [content?, if_neg (by omega), if_neg (by omega)]
  | [] => simp only [content?, plain, if_false]
  | .char c :: more => simp only [content?, plain, if_false]

theorem content?_written (chars : List Char) : content? (chars.map writtenPiece) = some chars := by
  induction chars with
  | nil => rfl
  | cons c chars ih =>
    rw [List.map_cons, writtenPiece]
    split
    · rename_i control
      rw [content?_unit _ _ (by omega), ih, Char.ofNat_toNat]
      rfl
    · rw [content?_char, ih]
      rfl

end Json

end Orchestration
