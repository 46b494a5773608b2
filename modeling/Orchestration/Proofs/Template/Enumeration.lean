import Orchestration.Proofs.Template.Calls
import Orchestration.Proofs.Template.Repeating

/-!
# The values of a repeated template

A template is repeated once for each choice of an item per variable.  The place of a choice among
the values is the number that the positions of its items spell, where the digit of a variable has
the number of its items as its base: the last variable varies fastest.  The value there is the
template, in which the variables gave way to the items of the choice.
-/

set_option autoImplicit false

namespace Orchestration.Substitution

/-! ## The place of a choice -/

/-- The place of a row of positions where the last one varies fastest. -/
def place : List Nat → List Nat → Nat
  | _ :: sizes, i :: positions => i * sizes.prod + place sizes positions
  | _, _ => 0

/-- One item of each list, and their positions. -/
inductive Chosen : List (List Json) → List Nat → List Json → Prop where
  | nil : Chosen [] [] []
  | cons (items : List Json) (i : Nat) (item : Json) (lists : List (List Json))
    (positions : List Nat) (choice : List Json) (here : items[i]? = some item)
    (more : Chosen lists positions choice) :
    Chosen (items :: lists) (i :: positions) (item :: choice)

theorem getElem?_flatMap {α β : Type} (xs : List α) (f : α → List β) (n : Nat)
    (uniform : ∀ x, (f x).length = n) (i j : Nat) (inside : j < n) :
    (xs.flatMap f)[i * n + j]? = xs[i]?.bind fun x => (f x)[j]? := by
  induction xs generalizing i with
  | nil => rfl
  | cons x rest ih =>
    rw [List.flatMap_cons]
    cases i with
    | zero =>
      rw [Nat.zero_mul, Nat.zero_add, List.getElem?_append_left (by rwa [uniform])]
      rfl
    | succ i =>
      have behind : (i + 1) * n + j = (f x).length + (i * n + j) := by
        rw [uniform, Nat.succ_mul]
        omega
      rw [behind, List.getElem?_append_right (Nat.le_add_right ..), Nat.add_sub_cancel_left, ih,
        List.getElem?_cons_succ]

theorem length_product (lists : List (List Json)) :
    (product lists).length = (lists.map List.length).prod := by
  induction lists with
  | nil => rfl
  | cons items lists ih => simp [product, List.length_flatMap, ih]

theorem getElem?_product {lists : List (List Json)} {positions : List Nat} {choice : List Json}
    (chosen : Chosen lists positions choice) :
    (product lists)[place (lists.map List.length) positions]? = some choice := by
  induction chosen with
  | nil => rfl
  | cons items i item lists positions choice here more ih =>
    have inside := (List.getElem?_eq_some_iff.mp ih).1
    rw [List.map_cons, place, ← length_product, product,
      getElem?_flatMap _ _ (product lists).length (fun _ => List.length_map _) i _ inside, here,
      Option.bind_some, List.getElem?_map, ih, Option.map_some]

theorem exists_chosen (lists : List (List Json)) (k : Nat)
    (inside : k < (lists.map List.length).prod) :
    ∃ positions choice, Chosen lists positions choice ∧
      place (lists.map List.length) positions = k := by
  induction lists generalizing k with
  | nil =>
    obtain rfl : k = 0 := by simpa using inside
    exact ⟨[], [], .nil, rfl⟩
  | cons items lists ih =>
    rw [List.map_cons, List.prod_cons] at inside
    have some : 0 < (lists.map List.length).prod := by
      refine Nat.pos_of_ne_zero fun none => ?_
      rw [none, Nat.mul_zero] at inside
      exact Nat.not_lt_zero k inside
    have front : k / (lists.map List.length).prod < items.length :=
      (Nat.div_lt_iff_lt_mul some).mpr inside
    obtain ⟨positions, choice, chosen, rest⟩ := ih _ (Nat.mod_lt k some)
    refine ⟨_, _, .cons items _ _ _ _ _ (List.getElem?_eq_getElem front) chosen, ?_⟩
    rw [List.map_cons, place, rest]
    exact Nat.div_add_mod' k _

/-! ## One text -/

open Text (Scanned)

/-- What a word leaves of a text, found from left to right.  The empty word stands before each
character and at the end. -/
inductive Cut (word text : List Char) : List (List Char) → Prop where
  | occurrences (nonempty : word ≠ []) (pieces : List (List Char))
    (scanned : Scanned word text pieces) : Cut word text pieces
  | characters (empty : word = []) : Cut word text ([] :: (text.map ([·]) ++ [[]]))

inductive ReplacedInTurn : List (String × Json) → List Char → List Char → Prop where
  | nil (text : List Char) : ReplacedInTurn [] text text
  | cons (name : String) (item : Json) (rest : List (String × Json)) (text : List Char)
    (pieces : List (List Char)) (result : List Char) (cut : Cut name.toList text pieces)
    (more : ReplacedInTurn rest (Text.join item.inlineText.toList pieces) result) :
    ReplacedInTurn ((name, item) :: rest) text result

theorem join_characters (value text : List Char) :
    Text.join value ([] :: (text.map ([·]) ++ [[]])) = Text.replaceAll [] value text := by
  have some (text : List Char) : text.map ([·]) ++ [[]] ≠ [] := by simp
  have behind : Text.join value (text.map ([·]) ++ [[]]) =
      text.flatMap fun c => c :: value := by
    induction text with
    | nil => rfl
    | cons c text ih =>
      rw [List.map_cons, List.cons_append, Text.join_cons value [c] (some text), ih]
      rfl
  rw [Text.join_cons value [] (some text), behind]
  rfl

theorem cut_replaceAll (word value text : List Char) :
    ∃ pieces, Cut word text pieces ∧ Text.join value pieces = Text.replaceAll word value text := by
  cases word with
  | nil => exact ⟨_, .characters rfl, join_characters value text⟩
  | cons c word =>
    have nonempty : c :: word ≠ [] := List.cons_ne_nil c word
    exact ⟨_, .occurrences nonempty _ (Text.scanned_pieces nonempty text), rfl⟩

theorem replacedInTurn_replaceInTurn (bindings : List (String × Json)) (text : String) :
    ReplacedInTurn bindings text.toList (replaceInTurn bindings text).toList := by
  rw [replaceInTurn, String.toList_ofList]
  generalize text.toList = chars
  induction bindings generalizing chars with
  | nil => exact .nil chars
  | cons binding rest ih =>
    obtain ⟨name, item⟩ := binding
    obtain ⟨pieces, cut, joined⟩ := cut_replaceAll name.toList item.inlineText.toList chars
    refine .cons name item rest chars pieces _ cut ?_
    rw [joined, List.foldl_cons]
    exact ih _

/-! ## A whole value -/

/-- A value in which the variables gave way to items, in every string and every key.  A map has all
its entries in their order; where new keys are the same, the entries are written over each other. -/
inductive Rewritten (bindings : List (String × Json)) : Json → Json → Prop where
  | null : Rewritten bindings .null .null
  | bool (b : Bool) : Rewritten bindings (.bool b) (.bool b)
  | number (n : Number) : Rewritten bindings (.number n) (.number n)
  | string (s t : String) (replaced : ReplacedInTurn bindings s.toList t.toList) :
    Rewritten bindings (.string s) (.string t)
  | list (items others : List Json) (each : List.Forall₂ (Rewritten bindings) items others) :
    Rewritten bindings (.list items) (.list others)
  | object (entries others : Object)
    (keys : List.Forall₂ (fun key new => ReplacedInTurn bindings key.toList new.toList)
      (Entries.keys entries) (Entries.keys others))
    (values : List.Forall₂ (Rewritten bindings) (entries.map Prod.snd) (others.map Prod.snd))
    (distinct : Entries.Distinct others) : Rewritten bindings (.object entries) (.object others)
  | collision (entries others : Object)
    (keys : List.Forall₂ (fun key new => ReplacedInTurn bindings key.toList new.toList)
      (Entries.keys entries) (Entries.keys others))
    (values : List.Forall₂ (Rewritten bindings) (entries.map Prod.snd) (others.map Prod.snd))
    (shared : ¬ Entries.Distinct others) :
    Rewritten bindings (.object entries) (.object (Entries.putAll [] others))

theorem inItems_eq_map (bindings : List (String × Json)) (items : List Json) :
    inItems bindings items = items.map (inValue bindings) := by
  induction items with
  | nil => rfl
  | cons x rest ih => rw [inItems, ih, List.map_cons]

def rewrittenEntry (bindings : List (String × Json)) (entry : String × Json) : String × Json :=
  (replaceInTurn bindings entry.1, inValue bindings entry.2)

theorem inEntries_eq_putAll (bindings : List (String × Json)) (done entries : Object) :
    inEntries bindings done entries =
      Entries.putAll done (entries.map (rewrittenEntry bindings)) := by
  induction entries generalizing done with
  | nil => rfl
  | cons entry rest ih =>
    obtain ⟨key, x⟩ := entry
    rw [inEntries, ih]
    rfl

theorem rewritten_inValue (bindings : List (String × Json)) (template : Json) :
    Rewritten bindings template (inValue bindings template) := by
  induction template using Json.parts_induction with
  | null => exact .null
  | bool b => exact .bool b
  | number n => exact .number n
  | string s => exact .string s _ (replacedInTurn_replaceInTurn bindings s)
  | list items ih =>
    rw [inValue, inItems_eq_map]
    refine .list items _ ?_
    rw [List.forall₂_map_right_iff, List.forall₂_same]
    exact ih
  | object entries ih =>
    rw [inValue, inEntries_eq_putAll]
    have keys : List.Forall₂ (fun key new => ReplacedInTurn bindings key.toList new.toList)
        (Entries.keys entries) (Entries.keys (entries.map (rewrittenEntry bindings))) := by
      rw [Entries.keys, Entries.keys, List.map_map, List.forall₂_map_left_iff,
        List.forall₂_map_right_iff, List.forall₂_same]
      exact fun entry _ => replacedInTurn_replaceInTurn bindings entry.1
    have values : List.Forall₂ (Rewritten bindings) (entries.map Prod.snd)
        ((entries.map (rewrittenEntry bindings)).map Prod.snd) := by
      rw [List.map_map, List.forall₂_map_left_iff, List.forall₂_map_right_iff, List.forall₂_same]
      exact fun entry member => ih entry.2 (List.mem_map_of_mem member)
    by_cases distinct : Entries.Distinct (entries.map (rewrittenEntry bindings))
    · rw [Entries.putAll_of_distinct [] _ distinct]
      exact .object entries _ keys values distinct
    · exact .collision entries _ keys values distinct

/-! ## The call -/

/-- The items that a variable runs over: those of a list, and in the newer version the keys of a
map. -/
inductive RunsOver (version : Version) : Json → List Json → Prop where
  | list (items : List Json) : RunsOver version (.list items) items
  | keys (entries : Object) (newer : version = .v20161014) :
    RunsOver version (.object entries) ((Entries.keys entries).map .string)

def runsOverMaps : Version → Bool
  | .v20150430 => false
  | .v20161014 => true

theorem repeats_of_named {version : Version} {function : Intrinsic}
    (named : version.function? "repeat" = some function) :
    Repeats function (runsOverMaps version) := by
  cases version with
  | v20150430 =>
    cases named
    exact .lists
  | v20161014 =>
    cases named
    exact .maps

theorem repeatItems_of_runsOver {version : Version} {value : Json} {items : List Json}
    (runs : RunsOver version value items) :
    Functions.repeatItems (runsOverMaps version) value = .ok items := by
  cases runs with
  | list => rfl
  | keys entries newer =>
    rw [newer]
    rfl

theorem repeatLists_of_runsOver {version : Version} {forEach : Object} {lists : List (List Json)}
    (run : List.Forall₂ (RunsOver version) (forEach.map Prod.snd) lists) :
    Functions.repeatLists (runsOverMaps version) forEach = .ok lists := by
  induction forEach generalizing lists with
  | nil =>
    cases run
    rfl
  | cons entry rest ih =>
    cases run with
    | cons here later =>
      have others := ih later
      rw [Functions.repeatLists] at others
      simp only [Functions.repeatLists, List.mapM_cons, repeatItems_of_runsOver here, others, bind,
        Except.bind, pure, Except.pure]

theorem gives_repeat (scope : Scope) {version : Version} {function : Intrinsic} (name : String)
    {entries : List (String × Node)} {x y : Node} {forEach : Object} {template : Json}
    {lists : List (List Json)} (named : version.function? "repeat" = some function)
    (first : Entries.get? entries "for_each" = some x)
    (second : Entries.get? entries "template" = some y)
    (given : Node.Gives scope x (.object forEach)) (resolved : Node.Gives scope y template)
    (run : List.Forall₂ (RunsOver version) (forEach.map Prod.snd) lists) :
    Node.Gives scope (.call function name (.map entries) none)
      (.list ((product lists).map fun choice =>
        inValue ((Entries.keys forEach).zip choice) template)) := by
  have repeats := repeats_of_named named
  have taken := repeatLists_of_runsOver run
  generalize runsOverMaps version = takesMaps at repeats taken
  have found : Node.operands? function (.map entries) = some [x, y] := by
    cases repeats <;> simp only [Node.operands?, Intrinsic.operands, first, second]
  have accepted : ∀ i value, [Json.object forEach, template][i]? = some value →
      scope.accept function name i value = .ok () := by
    intro i value there
    match i, there with
    | 0, rfl =>
      cases repeats <;>
        · rw [Scope.accept]
          split
          · rfl
          · rename_i fault failed
            cases taken.symm.trans failed
    | 1, rfl => cases repeats <;> rfl
  rw [Node.Gives, resolve_repeat repeats scope name (.map entries) forEach template
    (Node.values_operands scope function name _ [x, y] _ found
      (.cons given (.cons resolved .nil)) accepted), ← combinations_eq _ forEach lists taken,
    List.map_map]
  rfl

/-- A repeated template comes to one value for each choice of an item per variable, at the place of
the choice: the template with the items in place of the variables. -/
theorem repeat_enumerates (scope : Scope) (version : Version) (function : Intrinsic)
    (name : String) (entries : List (String × Node)) (x y : Node) (forEach : Object)
    (template : Json) (lists : List (List Json))
    (named : version.function? "repeat" = some function)
    (first : Entries.get? entries "for_each" = some x)
    (second : Entries.get? entries "template" = some y)
    (given : Node.Gives scope x (.object forEach)) (resolved : Node.Gives scope y template)
    (run : List.Forall₂ (RunsOver version) (forEach.map Prod.snd) lists) :
    ∃ values, Node.Gives scope (.call function name (.map entries) none) (.list values) ∧
      values.length = (lists.map List.length).prod ∧
      (∀ positions choice, Chosen lists positions choice →
        ∃ value, values[place (lists.map List.length) positions]? = some value ∧
          Rewritten ((Entries.keys forEach).zip choice) template value) ∧
      ∀ k < values.length, ∃ positions choice, Chosen lists positions choice ∧
        place (lists.map List.length) positions = k := by
  have length : ((product lists).map fun choice =>
      inValue ((Entries.keys forEach).zip choice) template).length =
      (lists.map List.length).prod := by
    rw [List.length_map, length_product]
  refine ⟨_, gives_repeat scope name named first second given resolved run, length, ?_, ?_⟩
  · intro positions choice chosen
    rw [List.getElem?_map, getElem?_product chosen]
    exact ⟨_, rfl, rewritten_inValue _ template⟩
  · intro k inside
    rw [length] at inside
    exact exists_chosen lists k inside

def portsByHost : Object :=
  [("<host>", .list [.string "a", .string "b"]),
    ("<port>", .object [("80", .bool true), ("443", .bool false)])]

def portEntry : Json :=
  .object [("<host>", .string "port <port>"), ("weight", .ofInt 1)]

def repeatEntry : List (String × Node) :=
  [("template", .literal portEntry), ("for_each", .literal (.object portsByHost))]

theorem repeat_enumerates_portsByHost :
    Node.Gives ⟨[], ⟨[], [], [], none⟩⟩ (.call .repeatWithMap "repeat" (.map repeatEntry) none)
      (.list [.object [("a", .string "port 80"), ("weight", .ofInt 1)],
        .object [("a", .string "port 443"), ("weight", .ofInt 1)],
        .object [("b", .string "port 80"), ("weight", .ofInt 1)],
        .object [("b", .string "port 443"), ("weight", .ofInt 1)]]) ∧
    place [2, 2] [1, 0] = 2 ∧
    Rewritten [("<host>", .string "b"), ("<port>", .string "80")] portEntry
      (.object [("b", .string "port 80"), ("weight", .ofInt 1)]) := by
  have value : Node.Gives ⟨[], ⟨[], [], [], none⟩⟩
      (.call .repeatWithMap "repeat" (.map repeatEntry) none)
      (.list [.object [("a", .string "port 80"), ("weight", .ofInt 1)],
        .object [("a", .string "port 443"), ("weight", .ofInt 1)],
        .object [("b", .string "port 80"), ("weight", .ofInt 1)],
        .object [("b", .string "port 443"), ("weight", .ofInt 1)]]) := rfl
  obtain ⟨values, repeated, -, placed, -⟩ := repeat_enumerates ⟨[], ⟨[], [], [], none⟩⟩ .v20161014
    .repeatWithMap "repeat" repeatEntry _ _ portsByHost portEntry
    [[.string "a", .string "b"], [.string "80", .string "443"]] rfl rfl rfl rfl rfl
    (.cons (.list _) (.cons (.keys _ rfl) .nil))
  cases repeated.symm.trans value
  obtain ⟨_, found, rewritten⟩ := placed [1, 0] [.string "b", .string "80"]
    (.cons _ 1 _ _ _ _ rfl (.cons _ 0 _ _ _ _ rfl .nil))
  cases found
  exact ⟨value, rfl, rewritten⟩

end Orchestration.Substitution
