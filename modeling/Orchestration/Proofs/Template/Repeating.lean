import Mathlib.Data.Multiset.Sections
import Orchestration.Proofs.Json
import Orchestration.Proofs.Template.Placeholders

/-!
# Repeating a template

The variables of a repeated template are replaced one after the other, in text that already holds
the items of the variables before.  `Undisturbed` says that each variable is found at its own
occurrences all the same.  The order of the variables does not matter then: the same items give the
same value, and the values come in another order only.
-/

set_option autoImplicit false

namespace Orchestration

inductive Json.TextIn (text : String) : Json → Prop where
  | string : TextIn text (.string text)
  | item (items : List Json) (x : Json) (member : x ∈ items) (inside : TextIn text x) :
    TextIn text (.list items)
  | key (entries : Object) (x : Json) (member : (text, x) ∈ entries) : TextIn text (.object entries)
  | value (entries : Object) (key : String) (x : Json) (member : (key, x) ∈ entries)
    (inside : TextIn text x) : TextIn text (.object entries)

namespace Substitution

open Text (Scanned)

/-! ## One variable after the other -/

def Part.bind (name : String) (value : List Char) : Part → Part
  | .piece text => .piece text
  | .occurrence other => if other = name then .piece value else .occurrence other

/-- Each variable in turn is found at its own occurrences and nowhere else, in the text that has the
items of the variables before it. -/
def Undisturbed : List (String × Json) → List Part → Prop
  | [], parts => ∀ name, .occurrence name ∉ parts
  | (name, item) :: rest, parts =>
    Scanned name.toList (written parts) ((parts.splitOn (.occurrence name)).map written) ∧
      Undisturbed rest (parts.map (Part.bind name item.inlineText.toList))

/-- Without this, what a variable is replaced by can be taken for another variable. -/
example :
    Functions.repeatTemplate false [("a", .list [.string "b"]), ("b", .list [.string "x"])]
        (.string "a b") = .ok (.list [.string "x x"]) ∧
      Functions.repeatTemplate false [("b", .list [.string "x"]), ("a", .list [.string "b"])]
        (.string "a b") = .ok (.list [.string "b x"]) := ⟨rfl, rfl⟩

variable {parts : List Part}

theorem fill_bind (values : String → List Char) (name : String) (value : List Char)
    (parts : List Part) :
    fill values (parts.map (Part.bind name value)) =
      fill (Function.update values name value) parts := by
  rw [fill, List.flatMap_map, fill]
  refine List.flatMap_congr fun part _ => ?_
  cases part with
  | piece text => rfl
  | occurrence other =>
    by_cases same : other = name
    · simp [Part.bind, Part.filled, same]
    · simp [Part.bind, Part.filled, same]

theorem replaceAll_written (name : String) (value : List Char) (nonempty : name ≠ "")
    (found : Scanned name.toList (written parts)
      ((parts.splitOn (.occurrence name)).map written)) :
    Text.replaceAll name.toList value (written parts) =
      written (parts.map (Part.bind name value)) := by
  have some : name.toList ≠ [] := mt String.toList_eq_nil_iff.mp nonempty
  have whole : Text.replaceAll name.toList value (written parts) =
      Text.join value (Text.pieces name.toList (written parts)) := by
    cases spelled : name.toList with
    | nil => exact absurd spelled some
    | cons c rest => rfl
  have runs : (parts.splitOn (.occurrence name)).map written =
      (parts.splitOn (.occurrence name)).map
        (fill (Function.update String.toList name value)) := by
    refine List.map_congr_left fun run member => List.flatMap_congr fun part inside => ?_
    cases part with
    | piece text => rfl
    | occurrence other =>
      have apart : other ≠ name := by
        simpa using (mem_of_splitOnP member _ inside).2
      exact (Function.update_of_ne apart value String.toList).symm
  have here := fill_splitOn (Function.update String.toList name value) name parts
  rw [Function.update_self] at here
  rw [whole, ← found.eq_pieces some, runs, here, written, fill_bind]

theorem placed_cons (name : String) (item : Json) (rest : List (String × Json)) :
    placed ((name, item) :: rest) =
      Function.update (placed rest) name item.inlineText.toList := by
  funext other
  by_cases same : other = name
  · subst same
    simp [placed, Entries.get?_cons]
  · simp [placed, Entries.get?_cons, same, Ne.symm same]

theorem replaceInTurn_eq_fill (bindings : List (String × Json))
    (nonempty : ∀ binding ∈ bindings, binding.1 ≠ "") (parts : List Part)
    (undisturbed : Undisturbed bindings parts) :
    replaceInTurn bindings (String.ofList (written parts)) =
      String.ofList (fill (placed bindings) parts) := by
  induction bindings generalizing parts with
  | nil =>
    rw [replaceInTurn, List.foldl_nil, String.toList_ofList]
    exact congrArg String.ofList (fill_literal _ _ undisturbed)
  | cons binding rest ih =>
    obtain ⟨name, item⟩ := binding
    obtain ⟨found, later⟩ := undisturbed
    obtain ⟨here, others⟩ := List.forall_mem_cons.mp nonempty
    have first := replaceAll_written name item.inlineText.toList here found
    have step : replaceInTurn ((name, item) :: rest) (String.ofList (written parts)) =
        replaceInTurn rest
          (String.ofList (written (parts.map (Part.bind name item.inlineText.toList)))) := by
      rw [replaceInTurn, List.foldl_cons, replaceInTurn, String.toList_ofList,
        String.toList_ofList, ← first]
    rw [step, ih others _ later, fill_bind, placed_cons]

/-! ## Every string and key of a template -/

theorem inEntries_congr (first second : List (String × Json)) (done entries : Object)
    (keys : ∀ key x, (key, x) ∈ entries → replaceInTurn first key = replaceInTurn second key)
    (values : ∀ key x, (key, x) ∈ entries → inValue first x = inValue second x) :
    inEntries first done entries = inEntries second done entries := by
  induction entries generalizing done with
  | nil => rfl
  | cons entry rest ih =>
    obtain ⟨key, x⟩ := entry
    rw [inEntries, inEntries, keys key x (List.mem_cons_self ..),
      values key x (List.mem_cons_self ..)]
    exact ih _ (fun key x member => keys key x (List.mem_cons_of_mem _ member))
      fun key x member => values key x (List.mem_cons_of_mem _ member)

theorem inItems_congr (first second : List (String × Json)) (items : List Json)
    (values : ∀ x ∈ items, inValue first x = inValue second x) :
    inItems first items = inItems second items := by
  induction items with
  | nil => rfl
  | cons x rest ih =>
    obtain ⟨here, later⟩ := List.forall_mem_cons.mp values
    rw [inItems, inItems, here, ih later]

theorem inValue_congr (first second : List (String × Json)) (template : Json)
    (texts : ∀ text, Json.TextIn text template →
      replaceInTurn first text = replaceInTurn second text) :
    inValue first template = inValue second template := by
  induction template using Json.parts_induction with
  | null | bool | number => rfl
  | string s => exact congrArg Json.string (texts s .string)
  | list items ih =>
    have each : ∀ x ∈ items, inValue first x = inValue second x := fun x member =>
      ih x member fun text inside => texts text (.item items x member inside)
    exact congrArg Json.list (inItems_congr first second items each)
  | object entries ih =>
    refine congrArg Json.object (inEntries_congr first second [] entries ?_ ?_)
    · exact fun key x member => texts key (.key entries x member)
    · exact fun key x member => ih x (List.mem_map_of_mem member)
        fun text inside => texts text (.value entries key x member inside)

/-! ## Combinations of items -/

def choices (takesMaps : Bool) (entry : String × Json) : List (String × Json) :=
  match Functions.repeatItems takesMaps entry.2 with
  | .ok items => items.map (entry.1, ·)
  | .error _ => []

def combinations (takesMaps : Bool) : Object → List (List (String × Json))
  | [] => [[]]
  | entry :: rest =>
    (choices takesMaps entry).flatMap fun binding =>
      (combinations takesMaps rest).map (binding :: ·)

theorem combinations_eq (takesMaps : Bool) (forEach : Object) (lists : List (List Json))
    (taken : Functions.repeatLists takesMaps forEach = .ok lists) :
    (product lists).map (fun choice => (Entries.keys forEach).zip choice) =
      combinations takesMaps forEach := by
  induction forEach generalizing lists with
  | nil =>
    cases taken
    rfl
  | cons entry rest ih =>
    obtain ⟨name, value⟩ := entry
    rw [Functions.repeatLists, List.mapM_cons] at taken
    obtain ⟨items, here, taken⟩ := (bind_eq_ok_iff ..).mp taken
    obtain ⟨others, later, same⟩ := (bind_eq_ok_iff ..).mp taken
    cases same
    have chosen : choices takesMaps (name, value) = items.map (name, ·) := by
      change Functions.repeatItems takesMaps value = .ok items at here
      rw [choices, here]
    rw [combinations, ← ih others later, product, List.map_flatMap, chosen]
    simp [List.flatMap_map, Entries.keys, Function.comp_def]

theorem names_of_combination (takesMaps : Bool) (forEach : Object)
    (combination : List (String × Json)) (member : combination ∈ combinations takesMaps forEach) :
    Entries.keys combination = Entries.keys forEach := by
  induction forEach generalizing combination with
  | nil =>
    rw [combinations, List.mem_singleton] at member
    rw [member]
  | cons entry rest ih =>
    obtain ⟨binding, chosen, inside⟩ := List.mem_flatMap.mp member
    obtain ⟨others, later, rfl⟩ := List.mem_map.mp inside
    have name : binding.1 = entry.1 := by
      rw [choices] at chosen
      split at chosen
      · obtain ⟨item, -, rfl⟩ := List.mem_map.mp chosen
        rfl
      · cases chosen
    exact congrArg₂ List.cons name (ih others later)

theorem binding_of_combination (takesMaps : Bool) (forEach : Object)
    {combination : List (String × Json)} (member : combination ∈ combinations takesMaps forEach)
    {binding : String × Json} (among : binding ∈ combination) :
    ∃ entry ∈ forEach, binding ∈ choices takesMaps entry := by
  induction forEach generalizing combination with
  | nil =>
    rw [combinations, List.mem_singleton] at member
    simp [member] at among
  | cons entry rest ih =>
    obtain ⟨first, chosen, inside⟩ := List.mem_flatMap.mp member
    obtain ⟨others, later, rfl⟩ := List.mem_map.mp inside
    rcases List.mem_cons.mp among with rfl | further
    · exact ⟨entry, List.mem_cons_self .., chosen⟩
    · obtain ⟨other, listed, its⟩ := ih later further
      exact ⟨other, List.mem_cons_of_mem _ listed, its⟩

theorem combinations_sections (takesMaps : Bool) (forEach : Object) :
    Multiset.ofList ((combinations takesMaps forEach).map Multiset.ofList) =
      Multiset.Sections
        (Multiset.ofList (forEach.map fun entry => Multiset.ofList (choices takesMaps entry))) := by
  induction forEach with
  | nil => rfl
  | cons entry rest ih =>
    rw [List.map_cons, ← Multiset.cons_coe, Multiset.sections_cons, ← ih, combinations]
    simp only [Multiset.map_coe, Multiset.coe_bind]
    simp [List.map_flatMap, Function.comp_def]

theorem combinations_perm (takesMaps : Bool) (first second : Object) (perm : first.Perm second) :
    ((combinations takesMaps first).map Multiset.ofList).Perm
      ((combinations takesMaps second).map Multiset.ofList) := by
  rw [← Multiset.coe_eq_coe, combinations_sections, combinations_sections]
  exact congrArg Multiset.Sections (Multiset.coe_eq_coe.mpr (perm.map _))

theorem perm_map_of_perm {α β γ : Type} {f : α → β} {g : α → γ} {xs ys : List α}
    (perm : (xs.map f).Perm (ys.map f)) (same : ∀ x ∈ xs, ∀ y ∈ ys, f x = f y → g x = g y) :
    (xs.map g).Perm (ys.map g) := by
  induction ys generalizing xs with
  | nil =>
    rw [List.map_nil, List.perm_nil, List.map_eq_nil_iff] at perm
    rw [perm]
  | cons y rest ih =>
    obtain ⟨x, member, equal⟩ := List.mem_map.mp (perm.mem_iff.mpr (List.mem_cons_self ..))
    obtain ⟨front, back, rfl⟩ := List.append_of_mem member
    have moved : (front ++ x :: back).Perm (x :: (front ++ back)) := List.perm_middle
    have others := ((moved.map f).symm.trans perm)
    rw [List.map_cons, List.map_cons, equal] at others
    refine (moved.map g).trans ?_
    rw [List.map_cons, List.map_cons, same x member y (List.mem_cons_self ..) equal]
    refine (ih others.cons_inv fun z inside w among => ?_).cons _
    exact same z (moved.mem_iff.mpr (List.mem_cons_of_mem _ inside)) w
      (List.mem_cons_of_mem _ among)

/-! ## Names in brackets -/

/-- A name between two characters that it does not hold otherwise. -/
def Bracketed (left right : Char) (name : String) : Prop :=
  ∃ inner, name.toList = left :: (inner ++ [right]) ∧ left ∉ inner ∧ right ∉ inner

section Bracketed

variable {left right : Char}

theorem takeWhile_bracketed {inner : List Char} (unclosed : right ∉ inner) (back : List Char) :
    (inner ++ right :: back).takeWhile (· != right) = inner := by
  rw [List.takeWhile_append_of_pos]
  · simp
  · intro c member
    simpa using ne_of_mem_of_not_mem member unclosed

theorem eq_of_bracketed {name other : String} (first : Bracketed left right name)
    (second : Bracketed left right other) {back behind : List Char}
    (same : name.toList ++ back = other.toList ++ behind) : name = other := by
  obtain ⟨inner, spelled, -, unclosed⟩ := first
  obtain ⟨inner', spelled', -, unclosed'⟩ := second
  rw [spelled, spelled'] at same
  simp only [List.cons_append, List.append_assoc, List.cons.injEq, true_and, List.nil_append]
    at same
  have equal : inner = inner' := by
    rw [← takeWhile_bracketed unclosed back, same, takeWhile_bracketed unclosed' behind]
  rw [← String.toList_inj, spelled, spelled', equal]

theorem opened_at_start (apart : left ≠ right) {part : Part}
    (name : ∀ other, part = .occurrence other → Bracketed left right other)
    (literal : ∀ text, part = .piece text → left ∉ text) {before more : List Char}
    (same : part.filled String.toList = before ++ left :: more) :
    before = [] ∧ ∃ other, part = .occurrence other := by
  cases part with
  | piece text =>
    refine absurd ?_ (literal text rfl)
    rw [show text = before ++ left :: more from same]
    exact List.mem_append_right _ (List.mem_cons_self ..)
  | occurrence other =>
    obtain ⟨inner, spelled, unopened, -⟩ := name other rfl
    refine ⟨?_, other, rfl⟩
    cases before with
    | nil => rfl
    | cons c before =>
      have whole : left :: (inner ++ [right]) = c :: (before ++ left :: more) :=
        spelled.symm.trans same
      have among : left ∈ inner ++ [right] := by
        rw [(List.cons.inj whole).2]
        exact List.mem_append_right _ (List.mem_cons_self ..)
      rcases List.mem_append.mp among with inside | last
      · exact absurd inside unopened
      · exact absurd (List.mem_singleton.mp last) apart

/-- A name in brackets begins only where another name does, so it is not found before parts in which
it does not occur end. -/
theorem found_behind {name : String} (bracketed : Bracketed left right name) (apart : left ≠ right)
    (front : List Part) (absent : .occurrence name ∉ front)
    (others : ∀ other, .occurrence other ∈ front → Bracketed left right other)
    (literal : ∀ text, .piece text ∈ front → left ∉ text) (rest before back : List Char)
    (found : written front ++ rest = before ++ (name.toList ++ back)) :
    (written front).length ≤ before.length := by
  induction front generalizing before with
  | nil => exact Nat.zero_le _
  | cons part front ih =>
    have later := ih (fun member => absent (List.mem_cons_of_mem _ member))
      (fun other member => others other (List.mem_cons_of_mem _ member))
      (fun text member => literal text (List.mem_cons_of_mem _ member))
    have spelled : written (part :: front) = part.filled String.toList ++ written front := rfl
    rw [spelled, List.append_assoc] at found
    rw [spelled, List.length_append]
    rcases List.append_eq_append_iff.mp found with ⟨more, rfl, same⟩ | ⟨more, same, behind⟩
    · have shorter := later more same
      rw [List.length_append]
      omega
    · cases more with
      | nil =>
        have shorter := later [] behind.symm
        rw [List.append_nil] at same
        rw [same]
        exact Nat.add_le_add_left shorter _
      | cons c more =>
        -- The name would begin inside this part; then it is this part, which is not so.
        obtain rfl : c = left := by
          obtain ⟨inner, whole, -, -⟩ := bracketed
          rw [whole] at behind
          exact (List.cons.inj behind).1.symm
        obtain ⟨rfl, other, rfl⟩ := opened_at_start apart
          (fun other is => others other (is ▸ List.mem_cons_self ..))
          (fun text is => literal text (is ▸ List.mem_cons_self ..)) same
        have here : other.toList = c :: more := same
        rw [← here] at behind
        have equal := eq_of_bracketed bracketed (others other (List.mem_cons_self ..)) behind
        exact absurd (equal ▸ List.mem_cons_self ..) absent

theorem scanned_of_bracketed {name : String} (bracketed : Bracketed left right name)
    (apart : left ≠ right) (parts : List Part)
    (others : ∀ other, .occurrence other ∈ parts → Bracketed left right other)
    (literal : ∀ text, .piece text ∈ parts → left ∉ text) :
    Scanned name.toList (written parts) ((parts.splitOn (.occurrence name)).map written) := by
  unfold List.splitOn
  induction parts using splitOnP_induction (· == Part.occurrence name) with
  | whole parts clear =>
    rw [List.splitOnP_eq_singleton clear]
    refine .last _ fun ⟨before, back, same⟩ => ?_
    have absent : .occurrence name ∉ parts := fun member => by simpa using clear _ member
    have shorter := found_behind bracketed apart parts absent others literal [] before back
      (by rw [List.append_nil, ← same, List.append_assoc])
    have lengths := congrArg List.length same
    obtain ⟨inner, whole, -, -⟩ := bracketed
    simp only [whole, List.length_append, List.length_cons] at lengths
    omega
  | first front sep back clear here ih =>
    obtain rfl : sep = .occurrence name := by simpa using here
    have absent : .occurrence name ∉ front := fun member => by simpa using clear _ member
    have spelled : written (front ++ .occurrence name :: back) =
        written front ++ (name.toList ++ written back) := by
      simp [written, fill, Part.filled]
    rw [splitOnP_first clear here, List.map_cons, spelled]
    refine .next _ _ _ (fun before behind same => ?_) (ih ?_ ?_)
    · exact found_behind bracketed apart front absent
        (fun other member => others other (List.mem_append_left _ member))
        (fun text member => literal text (List.mem_append_left _ member)) _ before behind same
    · exact fun other member =>
        others other (List.mem_append_right _ (List.mem_cons_of_mem _ member))
    · exact fun text member =>
        literal text (List.mem_append_right _ (List.mem_cons_of_mem _ member))

theorem undisturbed_of_bracketed (apart : left ≠ right) (bindings : List (String × Json))
    (bracketed : ∀ binding ∈ bindings, Bracketed left right binding.1)
    (items : ∀ binding ∈ bindings, left ∉ binding.2.inlineText.toList) (parts : List Part)
    (known : ∀ name, .occurrence name ∈ parts → name ∈ Entries.keys bindings)
    (literal : ∀ text, .piece text ∈ parts → left ∉ text) : Undisturbed bindings parts := by
  induction bindings generalizing parts with
  | nil => exact fun name member => by cases known name member
  | cons binding rest ih =>
    obtain ⟨name, item⟩ := binding
    have others : ∀ other, .occurrence other ∈ parts → Bracketed left right other := by
      intro other member
      obtain ⟨binding, among, rfl⟩ := List.mem_map.mp (known other member)
      exact bracketed binding among
    obtain ⟨here, later⟩ := List.forall_mem_cons.mp bracketed
    obtain ⟨text, texts⟩ := List.forall_mem_cons.mp items
    refine ⟨scanned_of_bracketed here apart parts others literal, ih later texts _ ?_ ?_⟩
    · intro other member
      obtain ⟨part, among, same⟩ := List.mem_map.mp member
      cases part with
      | piece text => cases same
      | occurrence old =>
        rw [Part.bind] at same
        split at same
        · cases same
        · rename_i different
          cases same
          exact (List.mem_cons.mp (known other among)).resolve_left different
    · intro piece member
      obtain ⟨part, among, same⟩ := List.mem_map.mp member
      cases part with
      | piece old =>
        cases same
        exact literal piece among
      | occurrence old =>
        rw [Part.bind] at same
        split at same
        · cases same
          exact text
        · cases same

end Bracketed

/-! ## The functions that repeat a template -/

inductive Repeats : Intrinsic → Bool → Prop where
  | lists : Repeats .repeatList false
  | maps : Repeats .repeatWithMap true

theorem resolve_repeat {function : Intrinsic} {takesMaps : Bool}
    (repeats : Repeats function takesMaps) (scope : Scope) (name : String) (args : Node)
    (forEach : Object) (template : Json)
    (operands : (Node.operandsOutcome scope function name args).2 =
      .ok [.object forEach, template]) :
    (Node.resolve scope (.call function name args none)).value =
      .ok (.list ((combinations takesMaps forEach).map fun combination =>
        inValue combination template)) := by
  have accepted : scope.accept function name 0 (.object forEach) = .ok () := by
    rw [Node.operandsOutcome] at operands
    split at operands
    · exact (Node.values_of_resolveFirst _ _ _ _ _ _ operands).1 0 _ rfl
    · cases operands
  have taken : ∃ lists, Functions.repeatLists takesMaps forEach = .ok lists := by
    cases repeats <;>
      · rw [Scope.accept] at accepted
        split at accepted
        · rename_i lists found
          exact ⟨lists, found⟩
        · cases accepted
  obtain ⟨lists, taken⟩ := taken
  have repeated : Functions.repeatTemplate takesMaps forEach template =
      .ok (.list ((combinations takesMaps forEach).map fun combination =>
        inValue combination template)) := by
    rw [← combinations_eq takesMaps forEach lists taken, List.map_map]
    simp only [Functions.repeatTemplate, taken, bind, Except.bind, Function.comp_def]
  have outcome := congrArg Prod.snd (Node.outcome_call scope function name args)
  generalize Node.operandsOutcome scope function name args = resolved at operands outcome
  obtain ⟨ready, answer⟩ := resolved
  subst operands
  refine outcome.trans ?_
  cases repeats <;> simp only [Scope.finish, repeated, Scope.immediate]

/-- The texts of a template are split so that in every combination of items the variables do not
disturb each other. -/
structure Separated (takesMaps : Bool) (forEach : Object) (template : Json)
    (split : String → List Part) : Prop where
  whole : ∀ text, Json.TextIn text template → written (split text) = text.toList
  undisturbed : ∀ combination ∈ combinations takesMaps forEach, ∀ text,
    Json.TextIn text template → Undisturbed combination (split text)

namespace Separated

variable {takesMaps : Bool} {forEach : Object} {template : Json} {split : String → List Part}

theorem of_bracketed {left right : Char} (apart : left ≠ right)
    (bracketed : ∀ name ∈ Entries.keys forEach, Bracketed left right name)
    (items : ∀ entry ∈ forEach, ∀ binding ∈ choices takesMaps entry,
      left ∉ binding.2.inlineText.toList)
    (whole : ∀ text, Json.TextIn text template → written (split text) = text.toList)
    (known : ∀ text, Json.TextIn text template → ∀ name, .occurrence name ∈ split text →
      name ∈ Entries.keys forEach)
    (literal : ∀ text, Json.TextIn text template → ∀ piece, .piece piece ∈ split text →
      left ∉ piece) : Separated takesMaps forEach template split where
  whole := whole
  undisturbed combination member text inside := by
    have names := names_of_combination takesMaps forEach combination member
    refine undisturbed_of_bracketed apart combination ?_ ?_ (split text) ?_ (literal text inside)
    · exact fun binding among => bracketed _ (names ▸ List.mem_map_of_mem among)
    · intro binding among
      obtain ⟨entry, listed, chosen⟩ := binding_of_combination takesMaps forEach member among
      exact items entry listed binding chosen
    · exact fun name among => names ▸ known text inside name among

theorem replaceInTurn_eq (separated : Separated takesMaps forEach template split)
    (nonempty : ∀ name ∈ Entries.keys forEach, name ≠ "") {combination : List (String × Json)}
    (member : combination ∈ combinations takesMaps forEach) (text : String)
    (inside : Json.TextIn text template) :
    replaceInTurn combination text = String.ofList (fill (placed combination) (split text)) := by
  have names : ∀ binding ∈ combination, binding.1 ≠ "" := fun binding among =>
    nonempty _ (names_of_combination takesMaps forEach combination member ▸
      List.mem_map_of_mem among)
  have replaced := replaceInTurn_eq_fill combination names (split text)
    (separated.undisturbed combination member text inside)
  rwa [separated.whole text inside, String.ofList_toList] at replaced

theorem same_value {reordered : Object} (separated : Separated takesMaps forEach template split)
    (also : Separated takesMaps reordered template split) (perm : reordered.Perm forEach)
    (distinct : Entries.Distinct forEach) (nonempty : ∀ name ∈ Entries.keys forEach, name ≠ "")
    (first : List (String × Json)) (chosen : first ∈ combinations takesMaps forEach)
    (second : List (String × Json)) (among : second ∈ combinations takesMaps reordered)
    (same : second.Perm first) : inValue second template = inValue first template := by
  have apart : Entries.Distinct first := by
    rwa [Entries.Distinct, names_of_combination takesMaps forEach first chosen]
  have placedSame : placed second = placed first := by
    funext name
    rw [placed, placed, Entries.get?_of_perm first second same.symm apart]
  have names : ∀ name ∈ Entries.keys reordered, name ≠ "" := fun name member =>
    nonempty name ((perm.map Prod.fst).mem_iff.mp member)
  refine inValue_congr second first template fun text inside => ?_
  rw [also.replaceInTurn_eq names among text inside,
    separated.replaceInTurn_eq nonempty chosen text inside, placedSame]

end Separated

/-- Calls that repeat a template over the same variables in another order give the same values, in
another order: the same items give the same value, and in every text of the template each variable
is replaced by its own item, where the variables do not disturb each other. -/
theorem repeated_in_any_order {function : Intrinsic} {takesMaps : Bool}
    (repeats : Repeats function takesMaps) (scope : Scope) (name : String) (args other : Node)
    (forEach reordered : Object) (template : Json) (split : String → List Part)
    (operands : (Node.operandsOutcome scope function name args).2 =
      .ok [.object forEach, template])
    (others : (Node.operandsOutcome scope function name other).2 =
      .ok [.object reordered, template])
    (perm : reordered.Perm forEach) (distinct : Entries.Distinct forEach)
    (nonempty : ∀ name ∈ Entries.keys forEach, name ≠ "")
    (separated : Separated takesMaps forEach template split)
    (also : Separated takesMaps reordered template split) :
    ∃ values more,
      (Node.resolve scope (.call function name args none)).value = .ok (.list values) ∧
      (Node.resolve scope (.call function name other none)).value = .ok (.list more) ∧
      more.Perm values ∧
      values = (combinations takesMaps forEach).map (inValue · template) ∧
      more = (combinations takesMaps reordered).map (inValue · template) ∧
      (∀ first ∈ combinations takesMaps forEach, ∀ second ∈ combinations takesMaps reordered,
        second.Perm first → inValue second template = inValue first template) ∧
      ∀ combination ∈ combinations takesMaps forEach, ∀ text, Json.TextIn text template →
        replaceInTurn combination text =
          String.ofList (fill (placed combination) (split text)) := by
  have same := separated.same_value also perm distinct nonempty
  refine ⟨_, _, resolve_repeat repeats scope name args forEach template operands,
    resolve_repeat repeats scope name other reordered template others, ?_, rfl, rfl, same, ?_⟩
  · refine perm_map_of_perm (combinations_perm takesMaps reordered forEach perm) ?_
    intro second among first chosen equal
    exact same first chosen second among (Multiset.coe_eq_coe.mp equal)
  · intro combination chosen text inside
    exact separated.replaceInTurn_eq nonempty chosen text inside

def portsOfHosts : Object :=
  [("<port>", .list [.string "80", .string "443"]),
    ("<host>", .list [.string "port", .string "b"])]

def repeatPorts (forEach : Object) : Node :=
  .map [("for_each", .literal (.object forEach)),
    ("template", .literal (.string "<port> of <host>"))]

theorem separated_portsOfHosts (forEach : Object) (perm : forEach.Perm portsOfHosts) :
    Separated false forEach (.string "<port> of <host>")
      fun text => cut ["<host>", "<port>"] text.toList := by
  have splitting (text : String) : Splitting ["<host>", "<port>"] text.toList
      (cut ["<host>", "<port>"] text.toList) :=
    splitting_cut _ (by decide) (by decide) text.toList
  have names : ∀ name, name ∈ Entries.keys forEach ↔ name ∈ ["<host>", "<port>"] := fun name =>
    (perm.map Prod.fst).mem_iff.trans (by simp [portsOfHosts, or_comm])
  have apart : '<' ≠ '>' := by decide
  refine .of_bracketed apart ?_ ?_ (fun text _ => (splitting text).whole)
    (fun text _ name member => (names name).mpr ((splitting text).known name member)) ?_
  · intro name member
    rw [names] at member
    simp only [List.mem_cons, List.not_mem_nil, or_false] at member
    rcases member with rfl | rfl
    · exact ⟨"host".toList, by decide, by decide, by decide⟩
    · exact ⟨"port".toList, by decide, by decide, by decide⟩
  · intro entry listed
    have items : ∀ entry ∈ portsOfHosts, ∀ binding ∈ choices false entry,
        '<' ∉ binding.2.inlineText.toList := by decide
    exact items entry (perm.mem_iff.mp listed)
  · rintro text ⟨⟩ piece member
    have parts : cut ["<host>", "<port>"] "<port> of <host>".toList =
        [.piece [], .occurrence "<port>", .piece " of ".toList, .occurrence "<host>",
          .piece []] := by decide
    rw [parts] at member
    simp only [List.mem_cons, Part.piece.injEq, reduceCtorEq, List.not_mem_nil, false_or,
      or_false] at member
    rcases member with rfl | rfl | rfl <;> decide

theorem repeated_in_any_order_portsOfHosts :
    (Node.resolve ⟨[], ⟨[], [], [], none⟩⟩
        (.call .repeatList "repeat" (repeatPorts portsOfHosts) none)).value =
      .ok (.list [.string "80 of port", .string "80 of b", .string "443 of port",
        .string "443 of b"]) ∧
    (Node.resolve ⟨[], ⟨[], [], [], none⟩⟩
        (.call .repeatList "repeat" (repeatPorts portsOfHosts.reverse) none)).value =
      .ok (.list [.string "80 of port", .string "443 of port", .string "80 of b",
        .string "443 of b"]) := by
  have perm : portsOfHosts.reverse.Perm portsOfHosts := List.reverse_perm _
  obtain ⟨_, _, values, more, -, rfl, rfl, -⟩ := repeated_in_any_order .lists
    ⟨[], ⟨[], [], [], none⟩⟩ "repeat" (repeatPorts portsOfHosts) (repeatPorts portsOfHosts.reverse)
    portsOfHosts portsOfHosts.reverse _ _ rfl rfl perm (by unfold Entries.Distinct; decide)
    (by decide) (separated_portsOfHosts portsOfHosts (.refl _)) (separated_portsOfHosts _ perm)
  exact ⟨values, more⟩

end Substitution

end Orchestration
