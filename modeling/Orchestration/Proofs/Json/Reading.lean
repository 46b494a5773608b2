import Orchestration.Json.Raw
import Orchestration.Proofs.Json
import Orchestration.Proofs.Json.Scalars

/-!
# Values read back

What is written of a value, in any layout, is cut into the tokens of the value, and these are read
as the value.  So the text of a value reads back as soon as its numbers do.
-/

set_option autoImplicit false

namespace Orchestration

/-! ## The tokens of a value -/

/-- What a number is read as before it has a value. -/
def Number.written (n : Number) : NumberText :=
  ((NumberText.read? n.text).map Prod.fst).getD ⟨false, [], none, none⟩

theorem Number.ReadsBack.read {n : Number} (back : n.ReadsBack) :
    NumberText.read? n.text = some (n.written, []) := by
  obtain ⟨written, read, -⟩ := back
  rw [Number.written, read]
  rfl

theorem Number.ReadsBack.value {n : Number} (back : n.ReadsBack) : n.written.value? = some n := by
  obtain ⟨written, read, value⟩ := back
  rw [Number.written, read]
  exact value

namespace Json

inductive ReadsBack : Json → Prop where
  | null : ReadsBack .null
  | bool (b : Bool) : ReadsBack (.bool b)
  | number (n : Number) (back : n.ReadsBack) : ReadsBack (.number n)
  | string (s : String) : ReadsBack (.string s)
  | list (items : List Json) (each : ∀ x ∈ items, ReadsBack x) : ReadsBack (.list items)
  | object (entries : Object) (each : ∀ x ∈ entries.map Prod.snd, ReadsBack x) :
      ReadsBack (.object entries)

mutual

def tokens : Json → List Token
  | .null => [.null]
  | .bool b => [.bool b]
  | .number n => [.number n.written]
  | .string s => [.string (some s)]
  | .list [] => [.openList, .closeList]
  | .list (x :: rest) => .openList :: (tokens x ++ (tokensOfItems rest ++ [.closeList]))
  | .object [] => [.openObject, .closeObject]
  | .object ((k, v) :: rest) =>
    .openObject :: .string (some k) :: .colon ::
      (tokens v ++ (tokensOfEntries rest ++ [.closeObject]))

def tokensOfItems : List Json → List Token
  | [] => []
  | x :: rest => .comma :: (tokens x ++ tokensOfItems rest)

def tokensOfEntries : List (String × Json) → List Token
  | [] => []
  | (k, v) :: rest =>
    .comma :: .string (some k) :: .colon :: (tokens v ++ tokensOfEntries rest)

end

/-! ## Cutting -/

open Token (scan next? isGap)

/-- A text in front of `rest` is cut into the tokens, which are no more than its characters. -/
structure Cuts (text : List Char) (tokens : List Token) (rest : List Char) : Prop where
  short : tokens.length ≤ text.length
  scan : ∀ limit, scan (limit + tokens.length) (text ++ rest) = (scan limit rest).map (tokens ++ ·)

theorem Cuts.append {first second rest : List Char} {ahead behind : List Token}
    (cuts : Cuts first ahead (second ++ rest)) (cuts' : Cuts second behind rest) :
    Cuts (first ++ second) (ahead ++ behind) rest where
  short := by
    simpa only [List.length_append] using Nat.add_le_add cuts.short cuts'.short
  scan limit := by
    rw [List.length_append, Nat.add_comm ahead.length, ← Nat.add_assoc, List.append_assoc,
      cuts.scan, cuts'.scan, Option.map_map]
    simp only [Function.comp_def, List.append_assoc]

theorem cuts_gap (gap rest : List Char) (gaps : ∀ c ∈ gap, isGap c = true) : Cuts gap [] rest where
  short := Nat.zero_le _
  scan limit := by
    change scan limit (gap ++ rest) = (scan limit rest).map id
    rw [Option.map_id_apply]
    unfold scan
    rw [List.dropWhile_append_of_pos gaps]

theorem scan_visible (limit : Nat) (c : Char) (rest : List Char) (visible : isGap c = false) :
    scan (limit + 1) (c :: rest) =
      (next? (c :: rest)).bind fun (token, after) => (scan limit after).map (token :: ·) := by
  have whole : (c :: rest).dropWhile isGap = c :: rest := by
    rw [List.dropWhile_cons, visible]
    rfl
  conv =>
    lhs
    unfold scan
  simp only [whole, Option.map_eq_bind]
  rfl

theorem cuts_token (c : Char) (text rest : List Char) (token : Token) (visible : isGap c = false)
    (next : next? (c :: (text ++ rest)) = some (token, rest)) : Cuts (c :: text) [token] rest where
  short := by simp
  scan limit := by
    rw [List.cons_append, List.length_singleton, scan_visible limit c _ visible, next]
    rfl

theorem cuts_quote (s : String) (rest : List Char) :
    Cuts (quote s).toList [.string (some s)] rest := by
  rw [quote, String.toList_ofList]
  refine cuts_token '"' _ rest _ rfl ?_
  rw [List.append_assoc, List.singleton_append]
  change (Token.pieces? _).map _ = _
  rw [pieces?_written]
  simp only [Option.map_some, content?_written, String.ofList_toList]

theorem next?_number (c : Char) (rest : List Char) (first : c = '-' ∨ Text.isDigit c = true) :
    next? (c :: rest) = (NumberText.read? (c :: rest)).map fun (n, after) => (.number n, after) := by
  unfold next?
  split <;> first | rfl | skip
  all_goals
    rename_i same
    cases same
    exact absurd first (by decide)

theorem cuts_number (n : Number) (back : n.ReadsBack) (rest : List Char) (ends : NumberEnds rest) :
    Cuts n.text [.number n.written] rest := by
  obtain ⟨c, more, parts, first⟩ := NumberText.first_of_read? back.read
  have read := NumberText.read?_append ends back.read
  rw [parts, List.cons_append] at read
  have visible : isGap c = false := by
    rcases first with rfl | digit
    · rfl
    · cases gap : isGap c with
      | false => rfl
      | true =>
        simp only [isGap, Bool.or_eq_true, beq_iff_eq] at gap
        rcases gap with ((rfl | rfl) | rfl) | rfl <;> cases digit
  rw [parts]
  refine cuts_token c more rest _ visible ?_
  rw [next?_number c _ first, read]
  rfl

/-! ## What stands between values -/

namespace Layout

variable (layout : Layout) (depth : Nat) (rest : List Char)

theorem newLine_gaps : ∀ c ∈ (newLine depth).toList, isGap c = true := by
  intro c member
  rw [newLine, String.toList_ofList] at member
  rcases List.mem_cons.mp member with rfl | blank
  · rfl
  · rw [List.eq_of_mem_replicate blank]
    rfl

theorem blank_gap : ∀ c ∈ [' '], isGap c = true := by
  intro c member
  rw [List.mem_singleton.mp member]
  rfl

theorem cuts_border : Cuts (layout.border depth).toList [] rest := by
  cases layout with
  | pretty => exact cuts_gap _ rest (newLine_gaps depth)
  | _ => exact cuts_gap _ rest (by simp [border])

theorem cuts_comma : Cuts [','] [.comma] rest :=
  cuts_token ',' [] rest _ rfl rfl

theorem toList_separator : (layout.separator depth).toList = match layout with
    | .compact => [',']
    | .spaced => [','] ++ [' ']
    | .pretty => [','] ++ (newLine depth).toList := by
  cases layout with
  | compact =>
    rw [separator]
    rfl
  | spaced =>
    rw [separator]
    rfl
  | pretty =>
    rw [separator, String.toList_append]
    rfl

theorem cuts_separator : Cuts (layout.separator depth).toList [.comma] rest := by
  rw [toList_separator]
  cases layout with
  | compact => exact cuts_comma rest
  | spaced => exact (cuts_comma _).append (cuts_gap [' '] rest blank_gap)
  | pretty => exact (cuts_comma _).append (cuts_gap _ rest (newLine_gaps depth))

theorem cuts_colon : Cuts layout.colon.toList [.colon] rest := by
  have mark (rest : List Char) : Cuts [':'] [.colon] rest :=
    cuts_token ':' [] rest _ rfl rfl
  have spaced : Cuts [':', ' '] [.colon] rest :=
    (mark _).append (cuts_gap [' '] rest blank_gap)
  cases layout with
  | compact =>
    simp only [colon]
    exact mark rest
  | _ =>
    simp only [colon]
    exact spaced

theorem numberEnds_border (ends : NumberEnds rest) :
    NumberEnds ((layout.border depth).toList ++ rest) := by
  cases layout with
  | pretty =>
    rw [border, newLine, String.toList_ofList]
    exact numberEnds_cons '\n' _ (by decide)
  | _ => exact ends

theorem numberEnds_separator : NumberEnds ((layout.separator depth).toList ++ rest) := by
  rw [toList_separator]
  cases layout <;> exact numberEnds_cons ',' _ (by decide)

end Layout

/-! ## Values -/

section Containers

variable (layout : Layout) (depth : Nat)

theorem numberEnds_items (items : List Json) (rest : List Char) (ends : NumberEnds rest) :
    NumberEnds ((writeItems layout depth items).toList ++ rest) := by
  cases items with
  | nil => exact ends
  | cons x items =>
    rw [writeItems, String.toList_append, String.toList_append, List.append_assoc,
      List.append_assoc]
    exact layout.numberEnds_separator depth _

theorem cuts_items (items : List Json) (rest : List Char) (ends : NumberEnds rest)
    (each : ∀ x ∈ items, ∀ rest, NumberEnds rest →
      Cuts (write layout depth x).toList (tokens x) rest) :
    Cuts (writeItems layout depth items).toList (tokensOfItems items) rest := by
  induction items with
  | nil => exact cuts_gap [] rest (by simp)
  | cons x items ih =>
    rw [writeItems, tokensOfItems, String.toList_append, String.toList_append, List.append_assoc]
    have more := ih fun y member => each y (List.mem_cons_of_mem _ member)
    have first := each x (List.mem_cons_self ..) _ (numberEnds_items layout depth items rest ends)
    exact (layout.cuts_separator depth _).append (first.append more)

theorem numberEnds_entries (entries : Object) (rest : List Char) (ends : NumberEnds rest) :
    NumberEnds ((writeEntries layout depth entries).toList ++ rest) := by
  cases entries with
  | nil => exact ends
  | cons entry entries =>
    obtain ⟨key, value⟩ := entry
    simp only [writeEntries, String.toList_append, List.append_assoc]
    exact layout.numberEnds_separator depth _

theorem cuts_entries (entries : Object) (rest : List Char) (ends : NumberEnds rest)
    (each : ∀ x ∈ entries.map Prod.snd, ∀ rest, NumberEnds rest →
      Cuts (write layout depth x).toList (tokens x) rest) :
    Cuts (writeEntries layout depth entries).toList (tokensOfEntries entries) rest := by
  induction entries with
  | nil => exact cuts_gap [] rest (by simp)
  | cons entry entries ih =>
    obtain ⟨key, value⟩ := entry
    have more := ih fun y member => each y (List.mem_cons_of_mem _ member)
    have first := each value (List.mem_cons_self ..) _
      (numberEnds_entries layout depth entries rest ends)
    have colon := (layout.cuts_colon _).append (first.append more)
    have key := (layout.cuts_separator depth _).append ((cuts_quote key _).append colon)
    simpa only [writeEntries, tokensOfEntries, String.toList_append, List.append_assoc,
      List.singleton_append] using key

end Containers

/-- What is written of a value is cut into the tokens of the value. -/
theorem cuts_write (layout : Layout) (value : Json) (back : value.ReadsBack) (depth : Nat)
    (rest : List Char) (ends : NumberEnds rest) :
    Cuts (write layout depth value).toList (tokens value) rest := by
  induction back generalizing depth rest with
  | null => simpa [write, tokens] using cuts_token 'n' ['u', 'l', 'l'] rest _ rfl rfl
  | bool b =>
    cases b with
    | true => simpa [write, tokens] using cuts_token 't' ['r', 'u', 'e'] rest _ rfl rfl
    | false => simpa [write, tokens] using cuts_token 'f' ['a', 'l', 's', 'e'] rest _ rfl rfl
  | number n back =>
    rw [write, String.toList_ofList]
    exact cuts_number n back rest ends
  | string s => exact cuts_quote s rest
  | list items each ih =>
    have opening (rest : List Char) : Cuts ['['] [.openList] rest :=
      cuts_token '[' [] rest _ rfl rfl
    have closing : Cuts [']'] [.closeList] rest := cuts_token ']' [] rest _ rfl rfl
    have closes : NumberEnds ([']'] ++ rest) := numberEnds_cons _ _ (by decide)
    cases items with
    | nil => simpa [write, tokens] using (opening _).append closing
    | cons x items =>
      have endings := layout.numberEnds_border depth _ closes
      have first := ih x (List.mem_cons_self ..) (depth + 1) _
        (numberEnds_items layout (depth + 1) items _ endings)
      have more := cuts_items layout (depth + 1) items _ endings fun y member =>
        ih y (List.mem_cons_of_mem _ member) (depth + 1)
      have start (rest : List Char) := (opening _).append (layout.cuts_border (depth + 1) rest)
      have whole := (((start _).append first).append more).append (layout.cuts_border depth _)
        |>.append closing
      simpa [write, tokens] using whole
  | object entries each ih =>
    have opening (rest : List Char) : Cuts ['\x7b'] [.openObject] rest :=
      cuts_token '\x7b' [] rest _ rfl rfl
    have closing : Cuts ['\x7d'] [.closeObject] rest := cuts_token '\x7d' [] rest _ rfl rfl
    have closes : NumberEnds (['\x7d'] ++ rest) := numberEnds_cons _ _ (by decide)
    cases entries with
    | nil => simpa [write, tokens] using (opening _).append closing
    | cons entry entries =>
      obtain ⟨key, value⟩ := entry
      have endings := layout.numberEnds_border depth _ closes
      have first := ih value (List.mem_cons_self ..) (depth + 1) _
        (numberEnds_entries layout (depth + 1) entries _ endings)
      have more := cuts_entries layout (depth + 1) entries _ endings fun y member =>
        ih y (List.mem_cons_of_mem _ member) (depth + 1)
      have named (rest : List Char) := ((opening _).append
        (layout.cuts_border (depth + 1) _)).append (cuts_quote key _) |>.append (layout.cuts_colon rest)
      have whole := (((named _).append first).append more).append (layout.cuts_border depth _)
        |>.append closing
      simpa [write, tokens] using whole

theorem all?_write (layout : Layout) (depth : Nat) (value : Json) (back : value.ReadsBack) :
    Token.all? (write layout depth value) = some (tokens value) := by
  obtain ⟨short, scanned⟩ := cuts_write layout value back depth [] numberEnds_nil
  obtain ⟨spare, count⟩ := Nat.exists_eq_add_of_le' short
  have nothing : scan spare [] = some [] := by
    unfold scan
    rfl
  have whole := scanned spare
  rw [← count, List.append_nil, nothing] at whole
  simpa [Token.all?] using whole

/-! ## Reading the tokens -/

theorem tokens_cons (value : Json) :
    ∃ first rest, tokens value = first :: rest ∧ first ≠ .closeList := by
  cases value with
  | list items => cases items <;> exact ⟨_, _, by rw [tokens], by simp⟩
  | object entries => cases entries <;> exact ⟨_, _, by rw [tokens], by simp⟩
  | _ => exact ⟨_, _, by rw [tokens], by simp⟩

section Containers

variable (steps : Nat) (more : List Token)

theorem items?_tokens (x : Json) (items : List Json)
    (each : ∀ y ∈ x :: items, ∀ steps more, 2 * (tokens y).length ≤ steps →
      Raw.value? steps (tokens y ++ more) = some (.ofJson y, more))
    (enough : 2 * ((tokens x).length + (tokensOfItems items).length) < steps) :
    Raw.items? steps (tokens x ++ (tokensOfItems items ++ .closeList :: more)) =
      some (Raw.ofItems (x :: items), more) := by
  induction items generalizing x steps with
  | nil =>
    obtain ⟨fewer, rfl⟩ : ∃ fewer, steps = fewer + 1 := ⟨steps - 1, by omega⟩
    have first := each x (List.mem_cons_self ..) fewer (.closeList :: more) (by omega)
    simp [Raw.items?, tokensOfItems, first, Raw.ofItems]
  | cons y items ih =>
    obtain ⟨fewer, rfl⟩ : ∃ fewer, steps = fewer + 1 := ⟨steps - 1, by omega⟩
    simp only [tokensOfItems, List.length_cons, List.length_append] at enough
    have first := each x (List.mem_cons_self ..) fewer
      (.comma :: (tokens y ++ (tokensOfItems items ++ .closeList :: more))) (by omega)
    have rest := ih fewer y (fun z member => each z (List.mem_cons_of_mem _ member)) (by omega)
    simp only [Raw.items?, tokensOfItems, List.cons_append, List.append_assoc, first,
      Option.bind_eq_bind, Option.bind_some, rest, Option.map_some]
    rfl

theorem entries?_tokens (key : String) (x : Json) (entries : Object)
    (each : ∀ y ∈ x :: entries.map Prod.snd, ∀ steps more, 2 * (tokens y).length ≤ steps →
      Raw.value? steps (tokens y ++ more) = some (.ofJson y, more))
    (enough : 2 * ((tokens x).length + (tokensOfEntries entries).length) < steps) :
    Raw.entries? steps (.string (some key) :: .colon ::
        (tokens x ++ (tokensOfEntries entries ++ .closeObject :: more))) =
      some (Raw.ofEntries ((key, x) :: entries), more) := by
  induction entries generalizing key x steps with
  | nil =>
    obtain ⟨fewer, rfl⟩ : ∃ fewer, steps = fewer + 1 := ⟨steps - 1, by omega⟩
    have first := each x (List.mem_cons_self ..) fewer (.closeObject :: more) (by omega)
    simp [Raw.entries?, tokensOfEntries, first, Raw.ofEntries]
  | cons entry entries ih =>
    obtain ⟨next, y⟩ := entry
    obtain ⟨fewer, rfl⟩ : ∃ fewer, steps = fewer + 1 := ⟨steps - 1, by omega⟩
    simp only [tokensOfEntries, List.length_cons, List.length_append] at enough
    have first := each x (List.mem_cons_self ..) fewer (.comma :: .string (some next) :: .colon ::
      (tokens y ++ (tokensOfEntries entries ++ .closeObject :: more))) (by omega)
    have rest := ih fewer next y (fun z member => each z (List.mem_cons_of_mem _ member)) (by omega)
    simp only [Raw.entries?, tokensOfEntries, List.cons_append, List.append_assoc, first,
      Option.bind_eq_bind, Option.bind_some, rest, Option.map_some]
    rfl

end Containers

theorem steps_pos {value : Json} {steps : Nat} (enough : 2 * (tokens value).length ≤ steps) :
    ∃ fewer, steps = fewer + 1 := by
  obtain ⟨first, rest, parts, -⟩ := tokens_cons value
  rw [parts, List.length_cons] at enough
  exact ⟨steps - 1, by omega⟩

/-- The tokens of a value are read as the value, with two steps for each of them. -/
theorem value?_tokens (value : Json) (back : value.ReadsBack) (steps : Nat) (more : List Token)
    (enough : 2 * (tokens value).length ≤ steps) :
    Raw.value? steps (tokens value ++ more) = some (.ofJson value, more) := by
  induction back generalizing steps more with
  | number n back =>
    obtain ⟨fewer, rfl⟩ := steps_pos enough
    rw [tokens, List.singleton_append, Raw.value?, back.value, Raw.ofJson]
  | list items each ih =>
    obtain ⟨fewer, rfl⟩ := steps_pos enough
    cases items with
    | nil => rfl
    | cons x items =>
      simp only [tokens, List.length_cons, List.length_append] at enough
      have read := items?_tokens fewer more x items ih (by omega)
      obtain ⟨first, rest, parts, noEnd⟩ := tokens_cons x
      simp only [tokens, List.cons_append, List.append_assoc, List.nil_append]
      rw [parts, List.cons_append] at read ⊢
      rw [Raw.value?, read]
      · rfl
      · exact fun rest same => absurd (List.head_eq_of_cons_eq same) noEnd
  | object entries each ih =>
    obtain ⟨fewer, rfl⟩ := steps_pos enough
    cases entries with
    | nil => rfl
    | cons entry entries =>
      obtain ⟨key, x⟩ := entry
      simp only [tokens, List.length_cons, List.length_append] at enough
      have read := entries?_tokens fewer more key x entries ih (by omega)
      simp only [tokens, List.cons_append, List.append_assoc, List.nil_append]
      rw [Raw.value?, read]
      · rfl
      · exact fun rest same => absurd (List.head_eq_of_cons_eq same) Token.noConfusion
  | _ =>
    obtain ⟨fewer, rfl⟩ := steps_pos enough
    rfl

end Json

namespace Raw

open Json

/-- The text of a value whose numbers read back is the text of that value. -/
theorem ofText?_write (layout : Layout) (depth : Nat) (value : Json) (back : value.ReadsBack) :
    ofText? (write layout depth value) = some (.ofJson value) := by
  have read := value?_tokens value back (2 * (tokens value).length + 1) [] (by omega)
  rw [List.append_nil] at read
  simp only [ofText?, all?_write layout depth value back, Option.bind_eq_bind, Option.bind_some,
    read]

/-! ## Fields of records -/

theorem known?_ofEntries (names : List String) (found : Entries Raw) (entries : Object)
    (known : ∀ key ∈ Entries.keys entries, key ∈ names)
    (fresh : ∀ key ∈ Entries.keys entries, Entries.get? found key = none)
    (distinct : Entries.Distinct entries) :
    known? names found (ofEntries entries) = some (found ++ Entries.mapValues ofJson entries) := by
  induction entries generalizing found with
  | nil => rw [ofEntries, known?, Entries.mapValues_nil, List.append_nil]
  | cons entry entries ih =>
    obtain ⟨key, value⟩ := entry
    obtain ⟨apart, distinct⟩ : key ∉ Entries.keys entries ∧ Entries.Distinct entries :=
      List.nodup_cons.mp distinct
    have new : Entries.has found key = false := by
      rw [Entries.has, fresh key (List.mem_cons_self ..)]
      rfl
    rw [ofEntries, known?, Option.bind_eq_bind, Option.bind_some,
      if_pos (known key (List.mem_cons_self ..)), new]
    simp only [Bool.false_eq_true, if_false]
    have fresh' : ∀ k ∈ Entries.keys entries,
        Entries.get? (found ++ [(key, ofJson value)]) k = none := by
      intro k member
      have other : key ≠ k := fun same => apart (same ▸ member)
      rw [Entries.get?_append, fresh k (List.mem_cons_of_mem _ member), Entries.get?_cons,
        if_neg other]
      rfl
    rw [ih _ (fun k member => known k (List.mem_cons_of_mem _ member)) fresh' distinct]
    simp

theorem fields?_ofJson (names : List String) (entries : Object) (distinct : names.Nodup)
    (inOrder : (Entries.keys entries).Sublist names) :
    (ofJson (.object entries)).fields? names =
      some (names.map fun name => (Entries.get? entries name).map ofJson) := by
  have known : ∀ key ∈ Entries.keys entries, key ∈ names := fun key member => inOrder.mem member
  rw [ofJson, fields?, known?_ofEntries names [] entries known (by simp) (distinct.sublist inOrder)]
  simp only [List.nil_append, Option.bind_eq_bind, Option.bind_some]
  congr 1
  apply List.map_congr_left
  intro name _
  exact Entries.get?_mapValues ofJson entries name

end Raw

end Orchestration
