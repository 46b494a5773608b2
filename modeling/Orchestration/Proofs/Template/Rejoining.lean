import Orchestration.Proofs.Template.Calls
import Orchestration.Proofs.Text.Scanning
import Orchestration.Proofs.Text.Signed

/-!
# Splitting and joining

The pieces of a text, joined with the delimiter, are the text again.  The other way round this needs
a delimiter of one character: texts without a longer delimiter can make one with their ends.
-/

set_option autoImplicit false

namespace Orchestration.Functions

/-! ## Texts -/

section Texts

variable {delimiter : String} (nonempty : delimiter ≠ "")

include nonempty

theorem joinTexts_splitText (text : String) :
    joinTexts delimiter (splitText delimiter text) = text := by
  have some : delimiter.toList ≠ [] := mt String.toList_eq_nil_iff.mp nonempty
  have pieces : (splitText delimiter text).map String.toList =
      Text.pieces delimiter.toList text.toList := by
    simp [splitText, Function.comp_def]
  rw [joinTexts, pieces, (Text.scanned_pieces some text.toList).join_eq, String.ofList_toList]

theorem not_infix_of_mem_splitText (text : String) :
    ∀ piece ∈ splitText delimiter text, ¬ delimiter.toList <:+: piece.toList := by
  have some : delimiter.toList ≠ [] := mt String.toList_eq_nil_iff.mp nonempty
  intro piece member
  obtain ⟨chars, among, rfl⟩ := List.mem_map.mp member
  rw [String.toList_ofList]
  exact Text.Scanned.not_infix some (Text.scanned_pieces some text.toList) chars among

end Texts

theorem length_splitText_pos (delimiter text : String) : 0 < (splitText delimiter text).length := by
  rw [splitText, List.length_map]
  exact List.length_pos_iff.mpr (Text.pieces_ne_nil delimiter.toList text.toList)

theorem splitText_joinTexts (c : Char) (texts : List String) (some : texts ≠ [])
    (without : ∀ text ∈ texts, c ∉ text.toList) :
    splitText (String.singleton c) (joinTexts (String.singleton c) texts) = texts := by
  have scanned := Text.scanned_join c (texts.map String.toList) (mt List.map_eq_nil_iff.mp some)
    (List.forall_mem_map.mpr without)
  rw [splitText, joinTexts, String.toList_ofList, String.toList_singleton,
    ← scanned.eq_pieces (List.cons_ne_nil c []), List.map_map]
  simp [Function.comp_def]

/-! ## Values -/

theorem mapM_plainItem_texts (texts : List String) :
    (texts.map Json.string).mapM plainItem = .ok texts := by
  induction texts with
  | nil => rfl
  | cons text rest ih =>
    rw [List.map_cons, List.mapM_cons, ih]
    rfl

theorem join_ofTexts (rendering : Bool) (delimiter : String) (texts : List String) :
    join rendering delimiter [Json.ofTexts texts] = .ok (.string (joinTexts delimiter texts)) := by
  have items : joinedItems [Json.ofTexts texts] = .ok (texts.map .string) := by
    simp [joinedItems, Json.ofTexts, Except.map]
  cases rendering with
  | true =>
    simp [join, items, bind, Except.bind, Function.comp_def, Json.inlineText, Json.scalarText?]
  | false =>
    simp only [join, items, bind, Except.bind, Bool.false_eq_true, if_false, mapM_plainItem_texts]

theorem strSplit_whole {delimiter : String} (nonempty : delimiter ≠ "") (text : String) :
    strSplit (.list [.string delimiter, .string text]) =
      .ok (Json.ofTexts (splitText delimiter text)) := by
  have some : ¬ delimiter.isEmpty = true := by simpa using nonempty
  simp only [strSplit, bind, Except.bind, if_neg some]

/-- A whole number as an argument: as a number, or its digits in a text, with blanks around them. -/
inductive GivesIndex (i : Int) : Json → Prop where
  | number : GivesIndex i (.number (.integer i))
  | text (before digits after : List Char) (first : ∀ c ∈ before, Text.isBlank c = true)
    (spells : Text.Spells digits i) (last : ∀ c ∈ after, Text.isBlank c = true) :
    GivesIndex i (.string (String.ofList (before ++ (digits ++ after))))

def decimal (i : Int) : Json :=
  .string (String.ofList (Text.ofInt i))

theorem givesIndex_decimal (i : Int) : GivesIndex i (decimal i) := by
  have gives := GivesIndex.text [] (Text.ofInt i) [] (by simp) (.ofInt i) (by simp)
  rwa [List.append_nil, List.nil_append] at gives

theorem GivesIndex.pieceIndex?_eq {i : Int} {index : Json} (gives : GivesIndex i index)
    (low : -9223372036854775808 ≤ i) (high : i < 9223372036854775808) :
    pieceIndex? index = some i := by
  cases gives with
  | number => exact if_pos high
  | text before digits after first spells last =>
    rw [pieceIndex?, String.toList_ofList,
      Text.trim_blanks before digits after spells.ne_nil first last spells.visible]
    exact spells.signed64?_eq low high

theorem strSplit_index {delimiter : String} (nonempty : delimiter ≠ "") (text : String)
    {index : Json} {i : Int} (found : pieceIndex? index = some i) :
    strSplit (.list [.string delimiter, .string text, index]) =
      pieceAt (splitText delimiter text) i := by
  have some : ¬ delimiter.isEmpty = true := by simpa using nonempty
  simp only [strSplit, bind, Except.bind, if_neg some, found]

/-! ## One piece -/

/-- The answer for an index: the piece at the index from the front, or from the end below zero, and
an error that names the bounds for an index without a piece. -/
structure PieceAnswer (name : String) (pieces : List String) (i : Int)
    (answer : Except TemplateError Json) : Prop where
  front : ∀ (k : Nat) piece, pieces[k]? = some piece → i = k → answer = .ok (.string piece)
  back : ∀ (k : Nat) piece, pieces[k]? = some piece → i = k - pieces.length →
    answer = .ok (.string piece)
  outside : i < -pieces.length ∨ pieces.length ≤ i →
    ∃ last e, pieces.length = last + 1 ∧ answer = .error e ∧
      e = .invalid name (.splitIndexRange last) ∧
      e.message = name ++ ": " ++ ("incorrect index, should be between 0 and " ++ toString last)

theorem pieceAnswer (name : String) (pieces : List String) (i : Int) (some : 0 < pieces.length) :
    PieceAnswer name pieces i ((Scope.immediate name (pieceAt pieces i)).map Prod.fst) where
  front k piece found here := by
    have inside := (List.getElem?_eq_some_iff.mp found).1
    have natural : ¬ i < 0 := by omega
    have position : i.toNat = k := by omega
    simp only [pieceAt, natural, if_false, position, found]
    rfl
  back k piece found here := by
    have inside := (List.getElem?_eq_some_iff.mp found).1
    have negative : i < 0 := by omega
    have natural : ¬ (pieces.length + i : Int) < 0 := by omega
    have position : (pieces.length + i : Int).toNat = k := by omega
    simp only [pieceAt, negative, if_true, natural, if_false, position, found]
    rfl
  outside beyond := by
    refine ⟨pieces.length - 1, _, by omega, ?_, rfl, rfl⟩
    rcases beyond with below | above
    · have negative : i < 0 := by omega
      have still : (pieces.length + i : Int) < 0 := by omega
      simp only [pieceAt, negative, if_true, still]
      rfl
    · have natural : ¬ i < 0 := by omega
      have none : pieces[i.toNat]? = none := List.getElem?_eq_none (by omega)
      simp only [pieceAt, natural, if_false, none]
      rfl

/-! ## Calls -/

inductive Joins : Intrinsic → Prop where
  | older : Joins .join
  | newer : Joins .joinMultiple

variable (scope : Scope) (name : String)

theorem gives_join {function : Intrinsic} (joins : Joins function) {x y : Node}
    {delimiter : String} {texts : List String} (first : Node.Gives scope x (.string delimiter))
    (second : Node.Gives scope y (Json.ofTexts texts)) :
    Node.Gives scope (.call function name (.list [x, y]) none)
      (.string (joinTexts delimiter texts)) := by
  have accepted : ∀ i value, [Json.string delimiter, Json.ofTexts texts][i]? = some value →
      scope.accept function name i value = .ok () := by
    intro i value found
    cases joins <;>
      · match i, found with
        | 0, rfl => rfl
        | 1, rfl => rfl
  have operands : Node.operands? function (.list [x, y]) = some [x, y] := by
    cases joins <;> rfl
  rw [Node.Gives, Node.value_call scope function name _ _ _ operands
    (.cons first (.cons second .nil)) accepted]
  cases joins <;>
    · rw [Scope.finish, join_ofTexts]
      rfl

theorem value_strSplit {args : Node} {value : Json} (given : Node.Gives scope args value) :
    (Node.resolve scope (.call .strSplit name args none)).value =
      (Scope.immediate name (strSplit value)).map Prod.fst :=
  Node.value_call scope .strSplit name args [args] [value] rfl (.cons given .nil) fun _ _ _ => rfl

/-- Splitting a text and joining its pieces gives the text, and no piece has the delimiter in it; a
call with an index gives one of the same pieces.  Joining texts without a delimiter of one character
and splitting what they make gives the texts. -/
theorem split_and_join_undo (joinName : String) :
    (∀ delimiter text : String, delimiter ≠ "" → ∃ pieces : List String,
      (∀ piece ∈ pieces, ¬ delimiter.toList <:+: piece.toList) ∧
      (∀ args, Node.Gives scope args (.list [.string delimiter, .string text]) →
        Node.Gives scope (.call .strSplit name args none) (Json.ofTexts pieces)) ∧
      (∀ function x y, Joins function → Node.Gives scope x (.string delimiter) →
        Node.Gives scope y (Json.ofTexts pieces) →
        Node.Gives scope (.call function joinName (.list [x, y]) none) (.string text)) ∧
      ∀ args index i, Node.Gives scope args (.list [.string delimiter, .string text, index]) →
        GivesIndex i index → -9223372036854775808 ≤ i → i < 9223372036854775808 →
        PieceAnswer name pieces i (Node.resolve scope (.call .strSplit name args none)).value) ∧
    ∀ (c : Char) (texts : List String), texts ≠ [] → (∀ text ∈ texts, c ∉ text.toList) →
      ∃ joined : String,
        (∀ function x y, Joins function → Node.Gives scope x (.string (String.singleton c)) →
          Node.Gives scope y (Json.ofTexts texts) →
          Node.Gives scope (.call function joinName (.list [x, y]) none) (.string joined)) ∧
        ∀ args, Node.Gives scope args (.list [.string (String.singleton c), .string joined]) →
          Node.Gives scope (.call .strSplit name args none) (Json.ofTexts texts) := by
  constructor
  · intro delimiter text nonempty
    refine ⟨splitText delimiter text, not_infix_of_mem_splitText nonempty text, ?_, ?_, ?_⟩
    · intro args given
      rw [Node.Gives, value_strSplit scope name given, strSplit_whole nonempty]
      rfl
    · intro function x y joins first second
      have joined := gives_join scope joinName joins first second
      rwa [joinTexts_splitText nonempty text] at joined
    · intro args index i given gives low high
      rw [value_strSplit scope name given,
        strSplit_index nonempty text (gives.pieceIndex?_eq low high)]
      exact pieceAnswer name _ i (length_splitText_pos delimiter text)
  · intro c texts some without
    refine ⟨joinTexts (String.singleton c) texts, ?_, ?_⟩
    · exact fun function x y joins => gives_join scope joinName joins
    · intro args given
      rw [Node.Gives, value_strSplit scope name given, strSplit_whole (by simp),
        splitText_joinTexts c texts some without]
      rfl

def overlapping (index : List Json) : Node :=
  .literal (.list (.string "aa" :: .string "aaabaa" :: index))

def splitOverlapping (index : List Json) : Node :=
  .call .strSplit "str_split" (overlapping index) none

def joinOverlapping : Node :=
  .call .joinMultiple "list_join" (.list [.literal (.string "aa"), splitOverlapping []]) none

theorem split_and_join_undo_overlapping :
    Node.Gives ⟨[], ⟨[], [], [], none⟩⟩ (splitOverlapping [])
      (Json.ofTexts ["", "ab", ""]) ∧
    Node.Gives ⟨[], ⟨[], [], [], none⟩⟩ joinOverlapping (.string "aaabaa") ∧
    Node.Gives ⟨[], ⟨[], [], [], none⟩⟩ (splitOverlapping [.string " -2"]) (.string "ab") ∧
    (Node.resolve ⟨[], ⟨[], [], [], none⟩⟩
        (splitOverlapping [decimal (-9223372036854775808)])).value =
      .error (.invalid "str_split" (.splitIndexRange 2)) := by
  obtain ⟨pieces, -, whole, rejoined, indexed⟩ :=
    (split_and_join_undo ⟨[], ⟨[], [], [], none⟩⟩ "str_split" "list_join").1 "aa" "aaabaa"
      (by decide)
  have split : Node.Gives ⟨[], ⟨[], [], [], none⟩⟩ (splitOverlapping [])
      (Json.ofTexts ["", "ab", ""]) := rfl
  obtain rfl : pieces = ["", "ab", ""] := by
    have same := Except.ok.inj ((whole (overlapping []) rfl).symm.trans split)
    exact List.map_injective_iff.mpr (fun _ _ => Json.string.inj) (Json.list.inj same)
  have spelled : GivesIndex (-2) (.string " -2") :=
    .text [' '] ['-', '2'] [] (List.forall_mem_singleton.mpr rfl)
      (.minus ['2'] (by decide) (List.forall_mem_singleton.mpr rfl)) (List.forall_mem_nil _)
  refine ⟨split, rejoined _ _ _ .newer rfl split, ?_, ?_⟩
  · exact (indexed (overlapping [.string " -2"]) _ (-2) rfl spelled (by decide) (by decide)).back
      1 "ab" rfl rfl
  · obtain ⟨last, e, length, answer, is, -⟩ :=
      (indexed (overlapping [decimal (-9223372036854775808)]) _ _ rfl (givesIndex_decimal _)
        (by decide) (by decide)).outside (by decide)
    cases length
    exact answer.trans (congrArg _ is)

end Orchestration.Functions
