import Orchestration.Proofs.Json.Nesting
import Orchestration.Proofs.Template.Calls
import Orchestration.Proofs.Template.Placeholders

/-!
# Values spliced into text

The newer join and the newer replacement put lists and maps into text as the text of the value with
blanks between its parts, and that text reads as the value.
-/

set_option autoImplicit false

namespace Orchestration.Functions

open Substitution (Splitting fill placed)

/-! ## Joining -/

theorem isList_of_joinedItems {lists items : List Json} (joined : joinedItems lists = .ok items) :
    ∀ value ∈ lists, value = .null ∨ ∃ xs, value = .list xs := by
  induction lists generalizing items with
  | nil => simp
  | cons first rest ih =>
    cases first with
    | null => exact List.forall_mem_cons.mpr ⟨.inl rfl, ih joined⟩
    | list xs =>
      obtain ⟨more, later, -⟩ := (map_eq_ok_iff ..).mp joined
      exact List.forall_mem_cons.mpr ⟨.inr ⟨xs, rfl⟩, ih later⟩
    | _ => cases joined

theorem gives_joinMultiple (scope : Scope) (name : String) {x : Node} {ys : List Node}
    {delimiter : String} {lists items : List Json} (first : Node.Gives scope x (.string delimiter))
    (others : List.Forall₂ (Node.Gives scope) ys lists) (joined : joinedItems lists = .ok items) :
    Node.Gives scope (.call .joinMultiple name (.list (x :: ys)) none)
      (.string (joinTexts delimiter (items.map Json.inlineText))) := by
  have accepted : ∀ i value, (Json.string delimiter :: lists)[i]? = some value →
      scope.accept .joinMultiple name i value = .ok () := by
    intro i value found
    cases i with
    | zero =>
      cases found
      rfl
    | succ i =>
      rcases isList_of_joinedItems joined value (List.mem_of_getElem? found) with
        rfl | ⟨xs, rfl⟩ <;> rfl
  rw [Node.Gives, Node.value_call scope .joinMultiple name (.list (x :: ys)) (x :: ys) _ rfl
    (.cons first others) accepted]
  simp only [Scope.finish, join, joined, bind, Except.bind, if_true]
  rfl

/-! ## Replacing -/

theorem replace_documents (template : String) (params : Object)
    (distinct : Entries.Distinct params) (nonempty : ∀ key ∈ Entries.keys params, key ≠ "") :
    ∃ parts, Splitting (Entries.keys params) template.toList parts ∧
      replace true template params = .ok (.string (String.ofList (fill (placed params) parts))) := by
  have same : ∀ key, key ∈ Substitution.ordered (Entries.keys params) ↔
      key ∈ Entries.keys params := fun key => (Substitution.ordered_perm _).mem_iff
  have some : ∀ key ∈ Substitution.ordered (Entries.keys params), key ≠ "" :=
    fun key member => nonempty key ((same key).mp member)
  have sorted := Substitution.ordered_pairwise distinct
  have splitting := Substitution.splitting_cut _ sorted some template.toList
  have renders (value : Json) : ∃ text, placeholderText true value = .ok text := by
    unfold placeholderText
    split <;> exact ⟨_, rfl⟩
  have pairs := Substitution.placeholders_eq true params _ some fun key _ => renders _
  have filled := Substitution.replaceTogether_eq_fill (placed params) _ sorted some _ _ splitting
  refine ⟨_, Substitution.splitting_congr same splitting, ?_⟩
  simp only [replace, pairs, filled, bind, Except.bind]

theorem gives_replaceJson (scope : Scope) (name : String) {entries : List (String × Node)}
    {x y : Node} {template : String} {params : Object} {replaced : Json}
    (first : Entries.get? entries "template" = some x)
    (second : Entries.get? entries "params" = some y)
    (given : Node.Gives scope x (.string template)) (given' : Node.Gives scope y (.object params))
    (run : replace true template params = .ok replaced) :
    Node.Gives scope (.call .replaceJson name (.map entries) none) replaced := by
  have found : Node.operands? .replaceJson (.map entries) = some [x, y] := by
    simp only [Node.operands?, Intrinsic.operands, first, second]
  have accepted : ∀ i value, [Json.string template, .object params][i]? = some value →
      scope.accept .replaceJson name i value = .ok () := by
    intro i value there
    match i, there with
    | 0, rfl => rfl
    | 1, rfl => rfl
  rw [Node.Gives, Node.value_call scope .replaceJson name _ [x, y] _ found
    (.cons given (.cons given' .nil)) accepted, Scope.finish, run]
  rfl

/-- The text of a list or a map reads as it, down to the depth of the reader, so no two have one
text; and it is this text that the newer join and the newer replacement put into text. -/
theorem spliced_documents_readable :
    (∀ value : Json, value.IsDocument → value.depth ≤ 127 →
      Json.ofText value.inlineText = some value) ∧
    (∀ value other : Json, value.IsDocument → other.IsDocument →
      value.inlineText = other.inlineText → value = other) ∧
    (∀ (scope : Scope) (name : String) (x : Node) (ys : List Node) (delimiter : String)
      (lists items : List Json), Node.Gives scope x (.string delimiter) →
      List.Forall₂ (Node.Gives scope) ys lists → joinedItems lists = .ok items →
      Node.Gives scope (.call .joinMultiple name (.list (x :: ys)) none)
        (.string (joinTexts delimiter (items.map Json.inlineText)))) ∧
    ∀ (scope : Scope) (name : String) (entries : List (String × Node)) (x y : Node)
      (template : String) (params : Object), Entries.get? entries "template" = some x →
      Entries.get? entries "params" = some y → Node.Gives scope x (.string template) →
      Node.Gives scope y (.object params) → Entries.Distinct params →
      (∀ key ∈ Entries.keys params, key ≠ "") →
      ∃ parts, Splitting (Entries.keys params) template.toList parts ∧
        Node.Gives scope (.call .replaceJson name (.map entries) none)
          (.string (String.ofList (fill (placed params) parts))) := by
  refine ⟨fun value => Json.IsDocument.ofText_inlineText,
    fun value other => Json.IsDocument.eq_of_inlineText_eq,
    fun scope name x ys delimiter lists items => gives_joinMultiple scope name, ?_⟩
  intro scope name entries x y template params first second given given' distinct nonempty
  obtain ⟨parts, splitting, run⟩ := replace_documents template params distinct nonempty
  exact ⟨parts, splitting, gives_replaceJson scope name first second given given' run⟩

def listenSettings : Json :=
  .object [("ports", .list [.ofInt 80, .ofInt (-1)]), ("a \"b\": ", .string "x, \n"),
    ("none", .list [.object [], .list []]), ("load", .number (.float (.zero true)))]

theorem readsBack_negativeZero : (Number.float (.zero true)).ReadsBack := by
  refine ⟨⟨true, ['0'], some ['0'], none⟩, rfl, ?_⟩
  decide +kernel

theorem isDocument_listenSettings : listenSettings.IsDocument where
  container := .object _
  wellFormed := by
    simp [listenSettings, Json.WellFormed, Json.WellFormedEntries, Json.WellFormedItems, Json.ofInt,
      Number.InRange, Entries.Distinct, Entries.keys]
  floats := by
    refine .object _ ?_
    simp only [List.map_cons, List.map_nil, List.forall_mem_cons, List.not_mem_nil,
      false_implies, implies_true, and_true]
    refine ⟨.list _ ?_, .string _, .list _ ?_, .float _ readsBack_negativeZero⟩
    · simp only [List.forall_mem_cons, List.not_mem_nil, false_implies, implies_true, and_true]
      exact ⟨.integer 80, .integer (-1)⟩
    · simp only [List.forall_mem_cons, List.not_mem_nil, false_implies, implies_true, and_true]
      exact ⟨.object [] (by simp), .list [] (by simp)⟩

theorem isDocument_ofTexts (texts : List String) : (Json.ofTexts texts).IsDocument where
  container := .list _
  wellFormed := (Json.wellFormed_list_iff _).mpr (List.forall_mem_map.mpr fun _ _ => trivial)
  floats := .list _ (List.forall_mem_map.mpr fun text _ => .string text)

theorem spliced_documents_readable_listenSettings :
    Json.ofText listenSettings.inlineText = some listenSettings ∧
      (Json.ofTexts ["a\", \"b"]).inlineText ≠ (Json.ofTexts ["a", "b"]).inlineText ∧
      Node.Gives ⟨[], ⟨[], [], [], none⟩⟩ (.call .joinMultiple "list_join" (.list
          [.literal (.string ", "), .literal (.list [listenSettings, .null])]) none)
        (.string (joinTexts ", " [listenSettings.inlineText, ""])) ∧
      ∃ parts, Splitting ["%s"] "<%s>".toList parts ∧
        Node.Gives ⟨[], ⟨[], [], [], none⟩⟩ (.call .replaceJson "str_replace" (.map
            [("params", .literal (.object [("%s", listenSettings)])),
              ("template", .literal (.string "<%s>"))]) none)
          (.string (String.ofList (fill (placed [("%s", listenSettings)]) parts))) := by
  obtain ⟨reads, apart, joins, replaces⟩ := spliced_documents_readable
  refine ⟨reads _ isDocument_listenSettings (by decide), fun same => ?_, ?_, ?_⟩
  · have both := apart _ _ (isDocument_ofTexts ["a\", \"b"]) (isDocument_ofTexts ["a", "b"]) same
    simp [Json.ofTexts] at both
  · exact joins _ "list_join" _ _ ", " _ [listenSettings, .null] rfl (.cons rfl .nil) rfl
  · exact replaces _ "str_replace" _ _ _ "<%s>" [("%s", listenSettings)] rfl rfl rfl rfl
      (by unfold Entries.Distinct; decide) (by decide)

end Orchestration.Functions
