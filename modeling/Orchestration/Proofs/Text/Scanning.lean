import Mathlib.Data.List.Infix
import Orchestration.Text.Pieces

/-!
# Searching a text from left to right

`Scanned` says where a search from left to right finds a word that does not overlap itself: each
piece of the text ends where the word begins for the first time, and the search goes on behind it.
Cutting a text at a separator is such a search.
-/

set_option autoImplicit false

namespace Orchestration.Text

/-- A search for a word from left to right leaves these pieces of a text between its occurrences. -/
inductive Scanned (word : List Char) : List Char → List (List Char) → Prop where
  | last (text : List Char) (never : ¬ word <:+: text) : Scanned word text [text]
  | next (piece rest : List Char) (pieces : List (List Char))
    (first : ∀ front back, piece ++ (word ++ rest) = front ++ (word ++ back) →
      piece.length ≤ front.length)
    (more : Scanned word rest pieces) : Scanned word (piece ++ (word ++ rest)) (piece :: pieces)

variable {word text : List Char} {parts : List (List Char)}

/-! ## The pieces of a text -/

theorem piecesFrom_skip (word text : List Char) (skip : Nat) :
    piecesFrom word skip text = pieces word (text.drop skip) := by
  induction text generalizing skip with
  | nil => cases skip <;> rfl
  | cons c rest ih =>
    cases skip with
    | zero => rfl
    | succ skip => exact ih skip

theorem pieces_hit (nonempty : word ≠ []) (rest : List Char) :
    pieces word (word ++ rest) = [] :: pieces word rest := by
  obtain ⟨c, others, rfl⟩ := List.exists_cons_of_ne_nil nonempty
  have here : (c :: others).isPrefixOf (c :: (others ++ rest)) = true :=
    List.isPrefixOf_iff_prefix.mpr (List.prefix_append _ _)
  rw [pieces, List.cons_append, piecesFrom, if_pos here, piecesFrom_skip]
  simp

theorem pieces_miss (c : Char) (rest : List Char) (miss : ¬ word <+: c :: rest) :
    pieces word (c :: rest) = extendFirst c (pieces word rest) := by
  rw [← List.isPrefixOf_iff_prefix] at miss
  rw [pieces, piecesFrom, if_neg miss, pieces]

theorem join_cons (separator piece : List Char) {pieces : List (List Char)} (some : pieces ≠ []) :
    join separator (piece :: pieces) = piece ++ separator ++ join separator pieces := by
  obtain ⟨next, rest, rfl⟩ := List.exists_cons_of_ne_nil some
  rfl

theorem pieces_ne_nil (word text : List Char) : pieces word text ≠ [] :=
  piecesFrom_ne_nil word 0 text

/-! ## A search finds the pieces -/

theorem Scanned.miss {c : Char} {rest : List Char} (miss : ¬ word <+: c :: rest)
    (scanned : Scanned word rest parts) : Scanned word (c :: rest) (extendFirst c parts) := by
  cases scanned with
  | last _ never =>
    refine .last (c :: rest) fun found => ?_
    rcases List.infix_cons_iff.mp found with here | later
    · exact miss here
    · exact never later
  | next piece rest pieces first more =>
    refine .next (c :: piece) rest pieces (fun front back same => ?_) more
    cases front with
    | nil => exact absurd ⟨back, same.symm⟩ miss
    | cons d front =>
      have shorter := first front back (List.cons.inj same).2
      exact Nat.succ_le_succ shorter

theorem scanned_pieces (nonempty : word ≠ []) (text : List Char) :
    Scanned word text (pieces word text) := by
  induction size : text.length using Nat.strong_induction_on generalizing text with
  | _ n ih =>
    cases text with
    | nil => exact .last [] fun found => nonempty (List.infix_nil.mp found)
    | cons c rest =>
      by_cases here : word <+: c :: rest
      · obtain ⟨behind, same⟩ := here
        have shorter : behind.length < n := by
          have lengths := congrArg List.length same
          have some := List.length_pos_iff.mpr nonempty
          rw [List.length_append] at lengths
          omega
        rw [← same, pieces_hit nonempty]
        exact .next [] behind _ (fun _ _ _ => Nat.zero_le _) (ih _ shorter behind rfl)
      · have shorter : rest.length < n := by
          rw [← size, List.length_cons]
          omega
        rw [pieces_miss c rest here]
        exact (ih _ shorter rest rfl).miss here

namespace Scanned

theorem ne_nil (scanned : Scanned word text parts) : parts ≠ [] := by
  cases scanned <;> simp

theorem eq_pieces (nonempty : word ≠ []) (scanned : Scanned word text parts) :
    parts = pieces word text := by
  induction scanned with
  | last text never =>
    induction text with
    | nil => rfl
    | cons c rest ih =>
      have later : ¬ word <:+: rest := fun found =>
        never (found.trans (List.suffix_cons c rest).isInfix)
      have miss : ¬ word <+: c :: rest := fun found => never found.isInfix
      rw [pieces_miss c rest miss, ← ih later]
      rfl
  | next piece rest pieces first more ih =>
    rw [ih]
    clear more ih
    induction piece with
    | nil => exact (pieces_hit nonempty rest).symm
    | cons c piece ih =>
      have miss : ¬ word <+: c :: (piece ++ (word ++ rest)) := by
        rintro ⟨back, same⟩
        exact absurd (first [] back same.symm) (by simp)
      have shorter := ih fun front back same =>
        Nat.le_of_succ_le_succ (first (c :: front) back (congrArg (c :: ·) same))
      rw [List.cons_append, pieces_miss c _ miss, ← shorter]
      rfl

theorem join_eq (scanned : Scanned word text parts) : join word parts = text := by
  induction scanned with
  | last text never => rfl
  | next piece rest pieces first more ih =>
    rw [join_cons word piece more.ne_nil, ih, List.append_assoc]

theorem not_infix (nonempty : word ≠ []) (scanned : Scanned word text parts) :
    ∀ piece ∈ parts, ¬ word <:+: piece := by
  induction scanned with
  | last text never =>
    intro piece member
    rwa [List.mem_singleton.mp member]
  | next piece rest pieces first more ih =>
    refine List.forall_mem_cons.mpr ⟨?_, ih⟩
    rintro ⟨front, back, rfl⟩
    have some := List.length_pos_iff.mpr nonempty
    have found := first front (back ++ (word ++ rest)) (by simp)
    simp only [List.length_append] at found
    omega

end Scanned

/-! ## One character between the pieces -/

theorem scanned_join (c : Char) (parts : List (List Char)) (some : parts ≠ [])
    (without : ∀ part ∈ parts, c ∉ part) : Scanned [c] (join [c] parts) parts := by
  induction parts with
  | nil => exact absurd rfl some
  | cons piece rest ih =>
    obtain ⟨here, later⟩ := List.forall_mem_cons.mp without
    cases rest with
    | nil =>
      refine .last piece fun found => here ?_
      exact found.subset (List.mem_singleton_self c)
    | cons second others =>
      rw [join, List.append_assoc]
      refine .next piece _ _ (fun front back same => ?_) (ih (by simp) later)
      rcases List.append_eq_append_iff.mp same with ⟨more, rfl, -⟩ | ⟨more, rfl, found⟩
      · rw [List.length_append]
        exact Nat.le_add_right ..
      · cases more with
        | nil => rw [List.append_nil]
        | cons d more =>
          obtain rfl : c = d := (List.cons.inj found).1
          exact absurd (List.mem_append_right _ (List.mem_cons_self ..)) here

end Orchestration.Text
