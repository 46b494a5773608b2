import Orchestration.Json.Write
import Orchestration.Proofs.Json
import Orchestration.Proofs.Text.Digits
import Orchestration.Text.Pieces

/-!
# Values on lines

The compact text of a value holds no new line: numbers and brackets have none, and strings escape
theirs.  So such texts, each with a new line behind it, are the lines of the text that they make.
-/

set_option autoImplicit false

namespace Orchestration

/-! ## Lines -/

namespace Text

theorem newline_not_mem_digits (n : Nat) : '\n' ∉ digits n := by
  intro member
  have digit := isDigit_of_mem_digits member
  exact absurd digit (by decide)

theorem pieces_newline (rest : List Char) :
    pieces ['\n'] ('\n' :: rest) = [] :: pieces ['\n'] rest := by
  have ends : ['\n'].isPrefixOf ('\n' :: rest) = true := by simp
  rw [pieces, piecesFrom, if_pos ends]
  rfl

theorem pieces_cons (c : Char) (rest : List Char) (other : c ≠ '\n') :
    pieces ['\n'] (c :: rest) = extendFirst c (pieces ['\n'] rest) := by
  have goesOn : ¬ ['\n'].isPrefixOf (c :: rest) = true := by
    simpa using Ne.symm other
  rw [pieces, piecesFrom, if_neg goesOn, pieces]

theorem pieces_break (before rest : List Char) :
    pieces ['\n'] (before ++ '\n' :: rest) = pieces ['\n'] before ++ pieces ['\n'] rest := by
  induction before with
  | nil => exact pieces_newline rest
  | cons c before ih =>
    by_cases newline : c = '\n'
    · rw [newline, List.cons_append, pieces_newline, pieces_newline, ih, List.cons_append]
    · have some : pieces ['\n'] before ≠ [] := piecesFrom_ne_nil _ _ _
      obtain ⟨piece, others, first⟩ := List.exists_cons_of_ne_nil some
      rw [List.cons_append, pieces_cons c _ newline, pieces_cons c _ newline, ih, first]
      rfl

theorem pieces_whole (line : List Char) (noBreak : '\n' ∉ line) : pieces ['\n'] line = [line] := by
  induction line with
  | nil => rfl
  | cons c line ih =>
    obtain ⟨other, noBreak⟩ : '\n' ≠ c ∧ '\n' ∉ line := by simpa using noBreak
    rw [pieces_cons c _ (Ne.symm other), ih noBreak, extendFirst]

theorem pieces_line (line rest : List Char) (noBreak : '\n' ∉ line) :
    pieces ['\n'] (line ++ '\n' :: rest) = line :: pieces ['\n'] rest := by
  rw [pieces_break, pieces_whole line noBreak, List.singleton_append]

/-- The lines of a text in which each one ends in a new line, and the empty piece at its end. -/
theorem pieces_lines (lines : List (List Char)) (noBreak : ∀ line ∈ lines, '\n' ∉ line) :
    pieces ['\n'] (lines.flatMap fun line => line ++ ['\n']) = lines ++ [[]] := by
  induction lines with
  | nil => rfl
  | cons line lines ih =>
    have more := ih fun other member => noBreak other (List.mem_cons_of_mem _ member)
    rw [List.flatMap_cons, List.append_assoc, List.singleton_append,
      pieces_line line _ (noBreak line (List.mem_cons_self ..)), more, List.cons_append]

end Text

/-! ## Numbers -/

namespace DecimalNotation

theorem newline_not_mem_positional (digits : List Char) (first : Int) (noBreak : '\n' ∉ digits) :
    '\n' ∉ positional digits first := by
  have taken : '\n' ∉ digits.take (first.toNat + 1) := fun member =>
    noBreak (List.mem_of_mem_take member)
  have dropped : '\n' ∉ digits.drop (first.toNat + 1) := fun member =>
    noBreak (List.mem_of_mem_drop member)
  rw [positional]
  split
  · simp [noBreak]
  · dsimp only
    split <;> simp [taken, dropped]

theorem newline_not_mem_scientific (digits : List Char) (first : Int) (noBreak : '\n' ∉ digits) :
    '\n' ∉ scientific digits first := by
  have exponent := Text.newline_not_mem_digits first.natAbs
  have sign : '\n' ≠ if first < 0 then '-' else '+' := by
    split <;> decide
  match digits with
  | [] => simp [scientific, exponent, sign]
  | [d] =>
    have other : '\n' ≠ d := by simpa using noBreak
    simp [scientific, exponent, sign, other]
  | d :: e :: places =>
    have others : '\n' ≠ d ∧ '\n' ≠ e ∧ '\n' ∉ places := by simpa using noBreak
    simp [scientific, exponent, sign, others]

theorem newline_not_mem_write (style : DecimalNotation) (d : Decimal) : '\n' ∉ style.write d := by
  have digits := Text.newline_not_mem_digits d.coefficient
  rw [write]
  split
  · exact newline_not_mem_positional _ _ digits
  · exact newline_not_mem_scientific _ _ digits

end DecimalNotation

theorem Finite64.newline_not_mem_text (x : Finite64) : '\n' ∉ x.text := by
  have magnitude : '\n' ∉ if x.significand = 0 then ['0', '.', '0']
      else plainNotation.write (Decimal.shortest x.significand x.exponent) := by
    split
    · decide
    · exact plainNotation.newline_not_mem_write _
  rw [text]
  split
  · simpa using magnitude
  · exact magnitude

theorem Number.newline_not_mem_text (n : Number) : '\n' ∉ n.text := by
  cases n with
  | integer n =>
    have digits := Text.newline_not_mem_digits n.natAbs
    rw [text, Text.ofInt]
    split
    · simpa using digits
    · exact digits
  | float x => exact x.newline_not_mem_text

/-! ## Values -/

namespace Json

theorem newline_not_mem_escape (c : Char) : '\n' ∉ escape c := by
  have hexDigit (n : Nat) (small : n < 16) : '\n' ≠ Text.hexDigit n := by
    have all : ∀ n < 16, '\n' ≠ Text.hexDigit n := by decide
    exact all n small
  by_cases short : c ∈ ['"', '\\', '\x08', '\x0c', '\n', '\r', '\t']
  · simp only [List.mem_cons, List.not_mem_nil, or_false] at short
    rcases short with rfl | rfl | rfl | rfl | rfl | rfl | rfl <;> decide
  · simp only [List.mem_cons, List.not_mem_nil, or_false, not_or] at short
    obtain ⟨noQuote, noEscape, back, feed, newline, others⟩ := short
    by_cases control : c.toNat < 32
    · simp only [escape, noQuote, noEscape, back, feed, newline, others, control, if_false, if_true]
      simp [hexDigit (c.toNat / 16) (by omega), hexDigit (c.toNat % 16) (by omega)]
    · simp only [escape, noQuote, noEscape, back, feed, newline, others, control, if_false]
      simpa using Ne.symm newline

theorem newline_not_mem_quote (s : String) : '\n' ∉ (quote s).toList := by
  rw [quote, String.toList_ofList]
  simp [newline_not_mem_escape]

section Containers

variable (depth : Nat)

theorem newline_not_mem_items (items : List Json)
    (each : ∀ x ∈ items, '\n' ∉ (write .compact depth x).toList) :
    '\n' ∉ (writeItems .compact depth items).toList := by
  induction items with
  | nil => simp [writeItems]
  | cons x items ih =>
    have first := each x (List.mem_cons_self ..)
    have more := ih fun y member => each y (List.mem_cons_of_mem _ member)
    simp [writeItems, Layout.separator, first, more]

theorem newline_not_mem_entries (entries : Object)
    (each : ∀ x ∈ entries.map Prod.snd, '\n' ∉ (write .compact depth x).toList) :
    '\n' ∉ (writeEntries .compact depth entries).toList := by
  induction entries with
  | nil => simp [writeEntries]
  | cons entry entries ih =>
    obtain ⟨key, value⟩ := entry
    have first := each value (List.mem_cons_self ..)
    have more := ih fun y member => each y (List.mem_cons_of_mem _ member)
    simp [writeEntries, Layout.separator, Layout.colon, newline_not_mem_quote, first, more]

end Containers

theorem newline_not_mem_compact (value : Json) : '\n' ∉ value.compact.toList := by
  have any (depth : Nat) : '\n' ∉ (write .compact depth value).toList := by
    induction value using parts_induction generalizing depth with
    | null => simp [write]
    | bool b => cases b <;> simp [write]
    | number n => simpa [write] using n.newline_not_mem_text
    | string s => simpa [write] using newline_not_mem_quote s
    | list items ih =>
      cases items with
      | nil => simp [write]
      | cons x items =>
        have first := ih x (List.mem_cons_self ..) (depth + 1)
        have more := newline_not_mem_items (depth + 1) items fun y member =>
          ih y (List.mem_cons_of_mem _ member) (depth + 1)
        simp [write, Layout.border, first, more]
    | object entries ih =>
      cases entries with
      | nil => simp [write]
      | cons entry entries =>
        obtain ⟨key, x⟩ := entry
        have first := ih x (List.mem_cons_self ..) (depth + 1)
        have more := newline_not_mem_entries (depth + 1) entries fun y member =>
          ih y (List.mem_cons_of_mem _ member) (depth + 1)
        simp [write, Layout.border, Layout.colon, newline_not_mem_quote, first, more]
  exact any 0

end Json

end Orchestration
