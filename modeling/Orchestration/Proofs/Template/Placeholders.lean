import Mathlib.Data.List.Basic
import Mathlib.Data.List.Dedup
import Orchestration.Proofs.Template.Operands
import Orchestration.Proofs.Text.Scanning

/-!
# Placeholders are replaced all at once

A text is split into literal pieces and occurrences of names.  `Splitting` says which occurrences
count: each name is searched for from left to right in what the names before it leave over, longer
names first.  Replacing placeholders writes the value of each occurrence in its place and copies the
literal pieces, so what was put in is not searched.
-/

set_option autoImplicit false

namespace Orchestration.Substitution

open Text (Scanned)

/-! ## Parts of a text -/

/-- A part of a text: a literal piece, or an occurrence of a name. -/
inductive Part where
  | piece (text : List Char)
  | occurrence (name : String)
  deriving DecidableEq

namespace Part

def filled (value : String → List Char) : Part → List Char
  | .piece text => text
  | .occurrence name => value name

def names (property : String → Prop) [DecidablePred property] : Part → Bool
  | .piece _ => false
  | .occurrence name => decide (property name)

end Part

/-- The text of the parts with values in place of the names. -/
def fill (value : String → List Char) (parts : List Part) : List Char :=
  parts.flatMap (Part.filled value)

def written (parts : List Part) : List Char :=
  fill String.toList parts

/-- A name is searched for before another one: it is longer in bytes, or as long and lexically
smaller. -/
def Precedes (name other : String) : Prop :=
  other.utf8ByteSize < name.utf8ByteSize ∨
    other.utf8ByteSize = name.utf8ByteSize ∧ name < other

instance (name other : String) : Decidable (Precedes name other) :=
  inferInstanceAs (Decidable (_ ∨ _))

def leftover (name : String) (parts : List Part) : List (List Part) :=
  parts.splitOnP (Part.names fun other => Precedes other name)

/-- The parts split a text at the occurrences of names.  No literal piece has a name in it, and the
occurrences of each name are those that a search from left to right finds in what is left over by
the names before it. -/
structure Splitting (names : List String) (text : List Char) (parts : List Part) : Prop where
  whole : written parts = text
  known : ∀ name, .occurrence name ∈ parts → name ∈ names
  literal : ∀ piece, .piece piece ∈ parts → ∀ name ∈ names, ¬ name.toList <:+: piece
  searched : ∀ name ∈ names, ∀ run ∈ leftover name parts,
    Scanned name.toList (written run) ((run.splitOn (.occurrence name)).map written)

/-! ## Splitting lists -/

section Lists

variable {α : Type} {p q : α → Bool}

theorem first_split (p : α → Bool) (xs : List α) : (∀ x ∈ xs, p x = false) ∨
    ∃ front sep back, xs = front ++ sep :: back ∧ (∀ x ∈ front, p x = false) ∧ p sep = true := by
  cases found : xs.find? p with
  | none =>
    rw [List.find?_eq_none] at found
    exact .inl fun x member => Bool.not_eq_true _ ▸ found x member
  | some sep =>
    obtain ⟨here, front, back, same, clear⟩ := List.find?_eq_some_iff_append.mp found
    exact .inr ⟨front, sep, back, same, by simpa using clear, here⟩

theorem splitOnP_first {front : List α} (clear : ∀ x ∈ front, p x = false) {sep : α}
    (here : p sep = true) (back : List α) :
    (front ++ sep :: back).splitOnP p = front :: back.splitOnP p := by
  rw [List.splitOnP_append_cons _ _ here, List.splitOnP_eq_singleton clear, List.singleton_append]

theorem splitOnP_induction (p : α → Bool) {motive : List α → Prop}
    (whole : ∀ xs, (∀ x ∈ xs, p x = false) → motive xs)
    (first : ∀ front sep back, (∀ x ∈ front, p x = false) → p sep = true → motive back →
      motive (front ++ sep :: back)) (xs : List α) : motive xs := by
  induction size : xs.length using Nat.strong_induction_on generalizing xs with
  | _ n ih =>
    rcases first_split p xs with clear | ⟨front, sep, back, rfl, clear, here⟩
    · exact whole xs clear
    · refine first front sep back clear here (ih back.length ?_ back rfl)
      rw [← size, List.length_append, List.length_cons]
      omega

theorem mem_of_splitOnP {xs run : List α} (member : run ∈ xs.splitOnP p) :
    ∀ x ∈ run, x ∈ xs ∧ p x = false := by
  induction xs using splitOnP_induction p with
  | whole xs clear =>
    rw [List.splitOnP_eq_singleton clear, List.mem_singleton] at member
    subst member
    exact fun x inside => ⟨inside, clear x inside⟩
  | first front sep back clear here ih =>
    rw [splitOnP_first clear here] at member
    intro x inside
    rcases List.mem_cons.mp member with rfl | later
    · exact ⟨List.mem_append_left _ inside, clear x inside⟩
    · exact (ih later x inside).imp_left fun among =>
        List.mem_append_right _ (List.mem_cons_of_mem _ among)

theorem mem_splitOnP_of_run (finer : ∀ x, q x = true → p x = true) {xs run inner : List α}
    (member : run ∈ xs.splitOnP q) (inside : inner ∈ run.splitOnP p) : inner ∈ xs.splitOnP p := by
  induction xs using splitOnP_induction q with
  | whole xs clear =>
    rw [List.splitOnP_eq_singleton clear, List.mem_singleton] at member
    exact member ▸ inside
  | first front sep back clear here ih =>
    rw [List.splitOnP_append_cons _ _ (finer sep here)]
    rw [splitOnP_first clear here] at member
    rcases List.mem_cons.mp member with rfl | later
    · exact List.mem_append_left _ inside
    · exact List.mem_append_right _ (ih later)

theorem splitOnP_intercalate {sep : α} (here : p sep = true) (runs : List (List α))
    (nonempty : runs ≠ []) :
    ([sep].intercalate runs).splitOnP p = runs.flatMap (List.splitOnP p) := by
  match runs with
  | [run] => simp
  | run :: next :: rest =>
    rw [List.intercalate_cons_cons, List.append_assoc, List.singleton_append,
      List.splitOnP_append_cons _ _ here, splitOnP_intercalate here (next :: rest) (by simp)]
    rfl

theorem mem_intercalate {sep x : α} {runs : List (List α)} (member : x ∈ [sep].intercalate runs) :
    x = sep ∨ ∃ run ∈ runs, x ∈ run := by
  match runs with
  | [] => simp at member
  | [run] => exact .inr ⟨run, by simp, by simpa using member⟩
  | run :: next :: rest =>
    rw [List.intercalate_cons_cons, List.append_assoc, List.singleton_append] at member
    rcases List.mem_append.mp member with here | later
    · exact .inr ⟨run, List.mem_cons_self .., here⟩
    · rcases List.mem_cons.mp later with rfl | later
      · exact .inl rfl
      · exact (mem_intercalate later).imp_right fun ⟨run, among, inside⟩ =>
          ⟨run, List.mem_cons_of_mem _ among, inside⟩

end Lists

/-! ## Filling parts -/

variable {names : List String} {text : List Char} {parts : List Part}

theorem fill_intercalate (value : String → List Char) (name : String) (runs : List (List Part)) :
    fill value ([.occurrence name].intercalate runs) =
      Text.join (value name) (runs.map (fill value)) := by
  match runs with
  | [] => rfl
  | [run] => simp [Text.join]
  | run :: next :: rest =>
    have below := fill_intercalate value name (next :: rest)
    rw [List.intercalate_cons_cons, List.map_cons, List.map_cons, Text.join, ← List.map_cons,
      ← below]
    simp [fill, Part.filled]

theorem written_intercalate (name : String) (runs : List (List Part)) :
    written ([.occurrence name].intercalate runs) =
      Text.join name.toList (runs.map written) :=
  fill_intercalate String.toList name runs

theorem fill_splitOn (value : String → List Char) (name : String) (parts : List Part) :
    Text.join (value name) ((parts.splitOn (.occurrence name)).map (fill value)) =
      fill value parts := by
  rw [← fill_intercalate, List.intercalate_splitOn]

theorem fill_literal (value other : String → List Char)
    (literal : ∀ name, .occurrence name ∉ parts) : fill value parts = fill other parts := by
  refine List.flatMap_congr fun part member => ?_
  cases part with
  | piece text => rfl
  | occurrence name => exact absurd member (literal name)

/-! ## The order of the names -/

namespace Precedes

theorem irrefl (name : String) : ¬ Precedes name name := by
  rintro (shorter | ⟨-, smaller⟩)
  · exact Nat.lt_irrefl _ shorter
  · exact String.lt_irrefl name smaller

theorem asymm {name other : String} (first : Precedes name other) : ¬ Precedes other name := by
  rintro (shorter | ⟨same, smaller⟩) <;> rcases first with longer | ⟨same', before⟩
  · omega
  · omega
  · omega
  · exact String.lt_asymm before smaller

end Precedes

theorem before_iff (name other : String) :
    before name other = true ↔ Precedes name other ∨ name = other := by
  rw [before, Precedes]
  by_cases same : name = other
  · subst same
    simp
  · have smaller : ¬ other < name ↔ name < other :=
      ⟨fun le => Std.lt_of_le_of_ne le same, String.lt_asymm⟩
    rw [or_iff_left same, eq_comm (a := other.utf8ByteSize)]
    simp only [Bool.or_eq_true, Bool.and_eq_true, Bool.not_eq_true', decide_eq_true_eq,
      decide_eq_false_iff_not, beq_iff_eq, smaller]

theorem before_trans (a b c : String) (first : before a b = true) (second : before b c = true) :
    before a c = true := by
  rw [before_iff] at *
  rcases first with first | rfl
  · rcases second with second | rfl
    · refine .inl ?_
      rcases first with longer | ⟨size, smaller⟩ <;> rcases second with longer' | ⟨size', smaller'⟩
      · exact .inl (by omega)
      · exact .inl (by omega)
      · exact .inl (by omega)
      · exact .inr ⟨by omega, String.lt_trans smaller smaller'⟩
    · exact .inl first
  · exact second

theorem before_total (a b : String) : (before a b || before b a) = true := by
  rw [Bool.or_eq_true, before_iff, before_iff]
  rcases Nat.lt_trichotomy a.utf8ByteSize b.utf8ByteSize with shorter | same | longer
  · exact .inr (.inl (.inl shorter))
  · by_cases smaller : a < b
    · exact .inl (.inl (.inr ⟨same.symm, smaller⟩))
    · by_cases equal : a = b
      · exact .inl (.inr equal)
      · exact .inr (.inl (.inr ⟨same, Std.lt_of_le_of_ne smaller (Ne.symm equal)⟩))
  · exact .inl (.inl (.inl longer))

theorem ordered_perm (names : List String) : (ordered names).Perm names :=
  List.mergeSort_perm names before

theorem ordered_pairwise (distinct : names.Nodup) : (ordered names).Pairwise Precedes := by
  have sorted := List.pairwise_mergeSort before_trans before_total names
  have apart : (ordered names).Pairwise (· ≠ ·) := (ordered_perm names).nodup_iff.mpr distinct
  refine (List.pairwise_and_iff.mpr ⟨sorted, apart⟩).imp fun ⟨le, different⟩ => ?_
  exact ((before_iff _ _).mp le).resolve_right different

/-! ## A splitting below its first name -/

section First

variable {name : String} {rest : List String}

theorem leftover_first (sorted : (name :: rest).Pairwise Precedes)
    (known : ∀ other, .occurrence other ∈ parts → other ∈ name :: rest) :
    leftover name parts = [parts] := by
  refine List.splitOnP_eq_singleton fun part member => ?_
  cases part with
  | piece text => rfl
  | occurrence other =>
    have later : ¬ Precedes other name := by
      rcases List.mem_cons.mp (known other member) with rfl | among
      · exact Precedes.irrefl other
      · exact (List.rel_of_pairwise_cons sorted among).asymm
    simpa [Part.names] using later

theorem names_of_first {other : String} (first : Precedes name other) (part : Part)
    (here : (part == .occurrence name) = true) :
    part.names (fun earlier => Precedes earlier other) = true := by
  rw [eq_of_beq here]
  simpa [Part.names] using first

theorem Splitting.run (sorted : (name :: rest).Pairwise Precedes)
    (splitting : Splitting (name :: rest) text parts) {run : List Part}
    (member : run ∈ parts.splitOn (.occurrence name)) : Splitting rest (written run) run where
  whole := rfl
  known other inside := by
    obtain ⟨among, apart⟩ := mem_of_splitOnP member _ inside
    refine (List.mem_cons.mp (splitting.known other among)).resolve_left fun same => ?_
    simp [same] at apart
  literal piece inside other among :=
    splitting.literal piece (mem_of_splitOnP member _ inside).1 other (List.mem_cons_of_mem _ among)
  searched other among inner inside :=
    splitting.searched other (List.mem_cons_of_mem _ among) inner
      (mem_splitOnP_of_run (names_of_first (List.rel_of_pairwise_cons sorted among)) member inside)

end First

/-! ## Replacing by a splitting -/

/-- Whatever the values are, replacing the names fills a splitting in. -/
theorem replaceTogether_eq_fill (value : String → List Char) (names : List String)
    (sorted : names.Pairwise Precedes) (nonempty : ∀ name ∈ names, name ≠ "")
    (text : List Char) (parts : List Part) (splitting : Splitting names text parts) :
    replaceTogether (names.map fun name => (name.toList, value name)) text = fill value parts := by
  induction names generalizing text parts with
  | nil =>
    rw [← splitting.whole]
    exact fill_literal _ _ fun name member => by cases splitting.known name member
  | cons name rest ih =>
    obtain ⟨here, others⟩ := List.forall_mem_cons.mp nonempty
    have found := splitting.searched name (List.mem_cons_self ..) parts
      (by rw [leftover_first sorted splitting.known]; exact List.mem_singleton_self parts)
    rw [splitting.whole] at found
    have below : ∀ run ∈ parts.splitOn (.occurrence name),
        replaceTogether (rest.map fun name => (name.toList, value name)) (written run) =
          fill value run := fun run member =>
      ih sorted.of_cons others _ run (splitting.run sorted member)
    rw [List.map_cons, replaceTogether,
      ← found.eq_pieces (mt String.toList_eq_nil_iff.mp here), List.map_map, ← fill_splitOn]
    exact congrArg (Text.join (value name)) (List.map_congr_left below)

/-! ## There is a splitting -/

def cut : List String → List Char → List Part
  | [], text => [.piece text]
  | name :: rest, text =>
    [.occurrence name].intercalate ((Text.pieces name.toList text).map (cut rest))

theorem infix_written {part : Part} (member : part ∈ parts) :
    part.filled String.toList <:+: written parts := by
  rw [written, fill, List.flatMap_def]
  exact List.infix_of_mem_flatten (List.mem_map_of_mem member)

theorem splitting_cut (names : List String) (sorted : names.Pairwise Precedes)
    (nonempty : ∀ name ∈ names, name ≠ "") (text : List Char) :
    Splitting names text (cut names text) := by
  induction names generalizing text with
  | nil => exact ⟨by simp [cut, written, fill, Part.filled], by simp [cut], by simp, by simp⟩
  | cons name rest ih =>
    obtain ⟨here, others⟩ := List.forall_mem_cons.mp nonempty
    have below (piece : List Char) : Splitting rest piece (cut rest piece) :=
      ih sorted.of_cons others piece
    have scanned := Text.scanned_pieces (mt String.toList_eq_nil_iff.mp here) text
    have runs : ((Text.pieces name.toList text).map (cut rest)).map written =
        Text.pieces name.toList text := by
      rw [List.map_map]
      exact List.map_id'' (fun piece => (below piece).whole) _
    have known : ∀ other, .occurrence other ∈ cut (name :: rest) text → other ∈ name :: rest := by
      intro other member
      rcases mem_intercalate member with same | ⟨run, among, inside⟩
      · cases same
        exact List.mem_cons_self ..
      · obtain ⟨piece, -, rfl⟩ := List.mem_map.mp among
        exact List.mem_cons_of_mem _ ((below piece).known other inside)
    refine ⟨?_, known, ?_, ?_⟩
    · rw [cut, written_intercalate, runs, scanned.join_eq]
    · intro literal member
      rcases mem_intercalate member with same | ⟨run, among, inside⟩
      · cases same
      · obtain ⟨piece, taken, rfl⟩ := List.mem_map.mp among
        refine List.forall_mem_cons.mpr ⟨fun found => ?_, (below piece).literal literal inside⟩
        have within := infix_written inside
        rw [(below piece).whole] at within
        exact scanned.not_infix (mt String.toList_eq_nil_iff.mp here) piece taken
          (found.trans within)
    · refine List.forall_mem_cons.mpr ⟨fun run member => ?_, fun other among run member => ?_⟩
      · rw [leftover_first sorted known, List.mem_singleton] at member
        rw [member, cut, List.splitOn_intercalate, written_intercalate, runs, scanned.join_eq]
        · exact scanned
        · intro run among inside
          obtain ⟨piece, -, rfl⟩ := List.mem_map.mp among
          exact Precedes.irrefl name
            (List.rel_of_pairwise_cons sorted ((below piece).known name inside))
        · simpa using Text.pieces_ne_nil _ _
      · have first := List.rel_of_pairwise_cons sorted among
        rw [leftover, cut, splitOnP_intercalate (by simpa [Part.names] using first)] at member
        · obtain ⟨_, taken, inside⟩ := List.mem_flatMap.mp member
          obtain ⟨piece, -, rfl⟩ := List.mem_map.mp taken
          exact (below piece).searched other among run inside
        · simpa using Text.pieces_ne_nil _ _

/-! ## The functions that replace placeholders -/

inductive Replaces : Intrinsic → Bool → Prop where
  | scalars : Replaces .replace false
  | documents : Replaces .replaceJson true

def placed (params : Object) (name : String) : List Char :=
  ((Entries.get? params name).getD .null).inlineText.toList

theorem placeholderText_eq (rendering : Bool) (value : Json) (text : String)
    (renders : Functions.placeholderText rendering value = .ok text) : text = value.inlineText := by
  rw [Functions.placeholderText] at renders
  rw [Json.inlineText]
  cases scalar : value.scalarText? with
  | some found =>
    rw [scalar] at renders
    exact (Except.ok.inj renders).symm
  | none =>
    rw [scalar] at renders
    cases rendering with
    | true => exact (Except.ok.inj renders).symm
    | false => cases renders

theorem placeholders_eq (rendering : Bool) (params : Object) (names : List String)
    (nonempty : ∀ name ∈ names, name ≠ "")
    (renders : ∀ name ∈ names, ∃ text,
      Functions.placeholderText rendering ((Entries.get? params name).getD .null) = .ok text) :
    Functions.placeholders rendering params names =
      .ok (names.map fun name => (name.toList, placed params name)) := by
  induction names with
  | nil => rfl
  | cons name rest ih =>
    obtain ⟨some, others⟩ := List.forall_mem_cons.mp nonempty
    obtain ⟨⟨text, here⟩, later⟩ := List.forall_mem_cons.mp renders
    have same := placeholderText_eq rendering _ text here
    have filled : ¬ name.isEmpty = true := by simpa using some
    simp only [Functions.placeholders, if_neg filled, here, ih others later, bind, Except.bind]
    rw [List.map_cons, placed, ← same]

theorem splitting_congr {other : List String} (same : ∀ name, name ∈ names ↔ name ∈ other)
    (splitting : Splitting names text parts) : Splitting other text parts where
  whole := splitting.whole
  known name member := (same name).mp (splitting.known name member)
  literal piece member name among := splitting.literal piece member name ((same name).mpr among)
  searched name among := splitting.searched name ((same name).mpr among)

/-- A text and a set of names have a splitting, and whatever the parameters of these names are, a
call that replaces them fills it in. -/
theorem replaced_at_once (text : String) (names : List String)
    (nonempty : ∀ name ∈ names, name ≠ "") :
    (∃ parts, Splitting names text.toList parts) ∧
      ∀ parts, Splitting names text.toList parts →
        ∀ (function : Intrinsic) (rendering : Bool), Replaces function rendering →
        ∀ (scope : Scope) (name : String) (args : Node) (params : Object),
          (Node.operandsOutcome scope function name args).2 =
            .ok [.string text, .object params] →
          Entries.Distinct params → (∀ key, key ∈ Entries.keys params ↔ key ∈ names) →
          (∀ key value, Entries.get? params key = some value →
            ∃ rendered, Functions.placeholderText rendering value = .ok rendered) →
          (Node.resolve scope (.call function name args none)).value =
            .ok (.string (String.ofList (fill (placed params) parts))) := by
  constructor
  · have perm := ordered_perm names.dedup
    have same : ∀ name, name ∈ ordered names.dedup ↔ name ∈ names := fun name =>
      perm.mem_iff.trans List.mem_dedup
    exact ⟨_, splitting_congr same (splitting_cut _ (ordered_pairwise (List.nodup_dedup names))
      (fun name member => nonempty name ((same name).mp member)) text.toList)⟩
  · intro parts splitting function rendering replaces scope name args params operands distinct keys
      renders
    have same : ∀ key, key ∈ names ↔ key ∈ ordered (Entries.keys params) := fun key =>
      (keys key).symm.trans (ordered_perm _).mem_iff.symm
    have some : ∀ key ∈ ordered (Entries.keys params), key ≠ "" := fun key member =>
      nonempty key ((same key).mpr member)
    have pairs := placeholders_eq rendering params (ordered (Entries.keys params)) some (by
      intro key member
      have present := (keys key).mpr ((same key).mpr member)
      obtain ⟨value, found⟩ := Option.ne_none_iff_exists'.mp fun absent =>
        (Entries.get?_eq_none_iff params key).mp absent present
      rw [found]
      exact renders key value found)
    have whole := replaceTogether_eq_fill (placed params) _ (ordered_pairwise distinct) some
      text.toList parts (splitting_congr same splitting)
    have replaced : Functions.replace rendering text params =
        .ok (.string (String.ofList (fill (placed params) parts))) := by
      simp only [Functions.replace, pairs, whole, bind, Except.bind]
    have outcome := congrArg Prod.snd (Node.outcome_call scope function name args)
    generalize Node.operandsOutcome scope function name args = resolved at operands outcome
    obtain ⟨ready, answer⟩ := resolved
    subst operands
    refine outcome.trans ?_
    cases replaces <;> simp only [Scope.finish, replaced, Scope.immediate]

theorem replaced_at_once_overlapping :
    (Node.resolve ⟨[], ⟨[], [], [], none⟩⟩ (.call .replace "str_replace"
      (.map [("template", .literal (.string "abb cab")),
        ("params", .literal (.object [("b", .string "ab"), ("ab", .string "b")]))]) none)).value =
      .ok (.string "bab cb") := by
  have nonempty : ∀ name ∈ ["ab", "b"], name ≠ "" := by decide
  have splitting := splitting_cut ["ab", "b"] (by decide) nonempty "abb cab".toList
  refine ((replaced_at_once "abb cab" ["ab", "b"] nonempty).2 _ splitting .replace false .scalars
    ⟨[], ⟨[], [], [], none⟩⟩ "str_replace" _ [("b", .string "ab"), ("ab", .string "b")] rfl
    (by unfold Entries.Distinct; decide) ?_ ?_).trans rfl
  · intro key
    simp [Entries.keys, or_comm]
  · intro key value found
    have member := Entries.mem_of_get? _ key value found
    simp only [List.mem_cons, List.not_mem_nil, or_false, Prod.mk.injEq] at member
    obtain ⟨-, rfl⟩ | ⟨-, rfl⟩ := member <;> exact ⟨_, rfl⟩

end Orchestration.Substitution
