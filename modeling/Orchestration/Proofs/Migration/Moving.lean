import Orchestration.Proofs.Migration.Idling
import Orchestration.Proofs.Migration.Sources

/-!
# Moving a property

A rule that found a populated value at its value path moves it to one of its targets, or leaves it
where it was if there is no target, as long as it spares the value: taking the source away must not
take the value with it, and a sibling must not go before the value everywhere.
-/

set_option autoImplicit false

namespace Orchestration.Migration

/-! ## The map at the end of a path -/

def graft : List String → Object → Object → Object
  | [], inner, _ => inner
  | key :: rest, inner, data =>
    match Entries.get? data key with
    | some (.object child) => Entries.put data key (.object (graft rest inner child))
    | _ => data

section Graft

variable (front : List String) (data inner old : Object)

theorem along?_graft (there : (Json.object data).along? front = some (.object old)) :
    (Json.object (graft front inner data)).along? front = some (.object inner) := by
  induction front generalizing data with
  | nil => rfl
  | cons key front ih =>
    obtain ⟨x, here, below⟩ := Option.bind_eq_some_iff.mp there
    cases x with
    | object child =>
      rw [graft, here, Json.along?, Entries.get?_put, if_pos rfl]
      exact ih child below
    | _ => cases front <;> cases below

theorem removeAt_graft (path : List String) (nonempty : path ≠ [])
    (there : (Json.object data).along? front = some (.object old)) :
    removeAt (front ++ path) (graft front inner data) =
      graft front (removeAt path inner) data := by
  induction front generalizing data with
  | nil => rfl
  | cons key front ih =>
    obtain ⟨next, others, ahead⟩ :=
      List.exists_cons_of_ne_nil (List.append_ne_nil_of_right_ne_nil front nonempty)
    obtain ⟨x, here, below⟩ := Option.bind_eq_some_iff.mp there
    cases x with
    | object child =>
      rw [graft, graft, here, List.cons_append, ahead, removeAt, Entries.get?_put, if_pos rfl]
      simp only
      rw [← ahead, ih child below, Entries.put_put]
    | _ => cases front <;> cases below

end Graft

/-! ## A walk along a value path -/

/-- No reference is left where two paths run together. -/
def SettledAlong (context : Context) (path target : List String) (data : Object) : Prop :=
  ∀ front x, front ≠ [] → front <+: path → front <+: target →
    (Json.object data).along? front = some x → resolveParameter context x = (.ok true, x)

section Along

variable {context : Context} (rule : Rule)

theorem SettledAlong.here {path target : List String} {data : Object} {key : String} {x : Json}
    (settled : SettledAlong context (key :: path) (key :: target) data)
    (present : Entries.get? data key = some x) : resolveParameter context x = (.ok true, x) := by
  refine settled [key] x (List.cons_ne_nil _ _) ⟨path, rfl⟩ ⟨target, rfl⟩ ?_
  rw [Json.along?, present]
  rfl

theorem SettledAlong.below {path target : List String} {data child : Object} {key : String}
    (settled : SettledAlong context (key :: path) (key :: target) data)
    (present : Entries.get? data key = some (.object child)) :
    SettledAlong context path target child := by
  intro front x _ first second there
  refine settled (key :: front) x (List.cons_ne_nil _ _) (List.cons_prefix_cons.mpr ⟨rfl, first⟩)
    (List.cons_prefix_cons.mpr ⟨rfl, second⟩) ?_
  rw [Json.along?, present]
  exact there

theorem resolveSlot_settled (data : Object) (key : String) (x : Json)
    (present : Entries.get? data key = some x)
    (settled : resolveParameter context x = (.ok true, x)) :
    resolveSlot context data key = (.ok true, data) := by
  rw [resolveSlot_present data key x present, settled, Entries.put_of_get? data key x present]

theorem ground_settled (schema : Option Schema) (data child : Object) (key : String)
    (present : Entries.get? data key = some (.object child))
    (settled : resolveParameter context (.object child) = (.ok true, .object child)) :
    ground context rule schema data key = (.map child, data) := by
  have closed : openBelow rule schema data key = data := by
    rw [openBelow, present]
  rw [ground, resolveSlot_settled data key _ present settled]
  simp only [closed, present]

theorem along?_cons (data : Object) (key next : String) (rest : List String) (value : Json)
    (there : (Json.object data).along? (key :: next :: rest) = some value) :
    ∃ child, Entries.get? data key = some (.object child) ∧
      (Json.object child).along? (next :: rest) = some value := by
  obtain ⟨inner, here, below⟩ := Option.bind_eq_some_iff.mp there
  cases inner with
  | object child => exact ⟨child, here, below⟩
  | _ => cases below

theorem get?_walk_of_ne (source : Source) (key next other : String) (rest : List String)
    (schema : Option Schema) (data : Object) (apart : key ≠ other) :
    Entries.get? (walk context rule source (key :: next :: rest) schema data).2 other =
      Entries.get? data other := by
  have opened := get?_ground_of_ne context rule schema data key other apart
  rw [walk_cons]
  generalize ground context rule schema data key = step at opened
  match step with
  | (.failed _, _) | (.closed, _) => exact opened
  | (.map child, left) =>
    simp only
    rw [Entries.get?_put, if_neg apart]
    exact opened
  | (.list items, left) =>
    simp only
    rw [Entries.get?_put, if_neg apart]
    exact opened

theorem get?_idle_of_ne (source : Source) (key other : String) (rest : List String)
    (schema : Option Schema) (data : Object) (apart : key ≠ other)
    (idle : meetings context rule (key :: rest) schema data = []) :
    Entries.get? (walk context rule source (key :: rest) schema data).2 other =
      Entries.get? data other := by
  cases rest with
  | nil =>
    have slot : Entries.get? (resolveSlot context data key).2 other = Entries.get? data other :=
      get?_resolveSlot_of_ne data key other apart
    rw [meetings] at idle
    rw [walk]
    generalize resolveSlot context data key = found at slot idle
    obtain ⟨answer, left⟩ := found
    rcases answer with _ | _ | _
    · exact slot
    · exact slot
    · cases idle
  | cons next others => exact get?_walk_of_ne rule source key next other others schema data apart

/-- A walk that acts on nothing leaves a value where it is, unless that is above the target. -/
theorem walk_idle (source : Source) (target path : List String) (schema : Option Schema)
    (data : Object) (value : Json) (there : (Json.object data).along? path = some value)
    (settled : SettledAlong context path target data)
    (outside : path <+: target → path = target)
    (idle : meetings context rule target schema data = []) :
    (Json.object (walk context rule source target schema data).2).along? path = some value := by
  induction target generalizing path schema data with
  | nil => exact there
  | cons key target ih =>
    cases path with
    | nil => cases outside List.nil_prefix
    | cons k rest =>
      obtain ⟨x, present, below⟩ := Option.bind_eq_some_iff.mp there
      -- nothing changes where the paths run together; after that another key does
      by_cases same : k = key
      · subst same
        have stable := settled.here present
        cases target with
        | nil =>
          rw [meetings, resolveSlot_settled data k x present stable] at idle
          cases idle
        | cons next others =>
          cases rest with
          | nil => cases outside (List.cons_prefix_cons.mpr ⟨rfl, List.nil_prefix⟩)
          | cons first more =>
            obtain ⟨child, inside, along⟩ := along?_cons data k first more value there
            rw [inside] at present
            cases present
            have step := ground_settled rule schema data child k inside stable
            rw [meetings, step] at idle
            rw [walk_cons, step]
            have left := ih (first :: more) _ child along (settled.below inside)
              (fun above => (List.cons.inj (outside (List.cons_prefix_cons.mpr ⟨rfl, above⟩))).2)
              (List.map_eq_nil_iff.mp idle)
            rw [Json.along?, Entries.get?_put, if_pos rfl]
            exact left
      · rw [Json.along?, get?_idle_of_ne rule source key k target schema data (Ne.symm same) idle,
          present]
        exact below

theorem walk_along (source : Source) (front : List String) (target key : String)
    (rest : List String) (schema : Option Schema) (data : Object) (value : Json)
    (there : (Json.object data).along? (front ++ key :: rest) = some value)
    (settled : SettledAlong context (front ++ key :: rest) (front ++ [target]) data) :
    ∃ below reached, (Json.object data).along? front = some (.object reached) ∧
      SettledAlong context (key :: rest) [target] reached ∧
      meetings context rule (front ++ [target]) schema data =
        (meetings context rule [target] below reached).map
          (Meeting.within (front.map .string)) ∧
      walk context rule source (front ++ [target]) schema data =
        ((walk context rule source [target] below reached).1,
          graft front (walk context rule source [target] below reached).2 data) := by
  induction front generalizing schema data with
  | nil =>
    have same : Meeting.within (List.map Json.string []) = id := by
      funext meeting
      cases meeting <;> rfl
    refine ⟨schema, data, rfl, settled, ?_, rfl⟩
    rw [same, List.map_id]
    rfl
  | cons first front ih =>
    obtain ⟨next, others, path⟩ := List.exists_cons_of_ne_nil
      (List.append_ne_nil_of_right_ne_nil front (List.cons_ne_nil key rest))
    obtain ⟨following, further, ahead⟩ := List.exists_cons_of_ne_nil
      (List.append_ne_nil_of_right_ne_nil front (List.cons_ne_nil target []))
    rw [List.cons_append, path] at there
    obtain ⟨child, inside, along⟩ := along?_cons data first next others value there
    rw [← path] at along
    have step := ground_settled rule schema data child first inside (settled.here inside)
    obtain ⟨below, reached, located, stable, met, walked⟩ :=
      ih (schema.bind fun s => s.child? first) child along (settled.below inside)
    refine ⟨below, reached, ?_, stable, ?_, ?_⟩
    · rw [Json.along?, inside]
      exact located
    · rw [List.cons_append, ahead, meetings_cons, step]
      simp only
      rw [← ahead, met, List.map_map]
      congr 1
      funext meeting
      cases meeting <;> rfl
    · rw [List.cons_append, ahead, walk_cons, step]
      simp only
      rw [← ahead, walked, graft, inside]

theorem walk_above (source : Source) (path rest : List String) (nonempty : path ≠ [])
    (schema : Option Schema) (data : Object) (value : Json)
    (there : (Json.object data).along? (path ++ rest) = some value)
    (settled : SettledAlong context (path ++ rest) path data) :
    ∃ front target below reached held, path = front ++ [target] ∧
      (Json.object data).along? front = some (.object reached) ∧
      Entries.get? reached target = some held ∧ held.along? rest = some value ∧
      meetings context rule path schema data = [.ok ⟨front.map .string, below, reached⟩] ∧
      walk context rule source path schema data =
        ((actAt context rule below source reached target).1,
          graft front (actAt context rule below source reached target).2 data) := by
  rcases List.eq_nil_or_concat path with empty | ⟨front, target, rfl⟩
  · exact absurd empty nonempty
  · rw [List.concat_eq_append] at there settled ⊢
    rw [List.append_assoc] at there settled
    obtain ⟨below, reached, located, stable, met, walked⟩ :=
      walk_along rule source front target target rest schema data value there settled
    rw [along?_append, located, Option.bind_some] at there
    obtain ⟨held, present, further⟩ := Option.bind_eq_some_iff.mp there
    have slot := resolveSlot_settled reached target held present (stable.here present)
    refine ⟨front, target, below, reached, held, rfl, located, present, further, ?_, ?_⟩
    · rw [met, meetings, slot]
      simp [Meeting.within, Place.within, Except.map]
    · rw [walked, walk, slot]

theorem get?_sibling (front : List String) (target name : String) (apart : target ≠ name)
    (schema : Option Schema) (data : Object) (value : Json)
    (there : (Json.object data).along? (front ++ [name]) = some value)
    (settled : SettledAlong context (front ++ [name]) (front ++ [target]) data) (place : Place)
    (met : .ok place ∈ meetings context rule (front ++ [target]) schema data) :
    Entries.get? place.data name = some value := by
  obtain ⟨below, reached, located, -, single, -⟩ :=
    walk_along rule ⟨none, false, ""⟩ front target name [] schema data value there settled
  rw [along?_append, located, Option.bind_some] at there
  obtain ⟨held, present, same⟩ := Option.bind_eq_some_iff.mp there
  cases same
  rw [single] at met
  obtain ⟨meeting, among, same⟩ := List.mem_map.mp met
  obtain ⟨inner, rfl, rfl⟩ := (Meeting.within_eq_ok_iff _ _ _).mp same
  obtain ⟨resolved, slot, rfl⟩ := mem_meetings_single context rule target below reached inner among
  have kept : Entries.get? (resolveSlot context reached target).2 name =
      Entries.get? reached name := get?_resolveSlot_of_ne reached target name apart
  rw [slot] at kept
  exact kept.trans present

end Along

/-! ## Rules that move -/

theorem keysOf_target (context : Context) (rule : Rule) (path : List String)
    (schema : Option Schema) (data : Object) (place : Place)
    (met : .ok place ∈ meetings context rule path schema data) :
    Json.keysOf (place.location ++ [.string (path.getLastD "")]) = path := by
  induction path generalizing schema data place with
  | nil => cases met
  | cons key path ih =>
    cases path with
    | nil =>
      obtain ⟨resolved, -, rfl⟩ := mem_meetings_single context rule key schema data place met
      rfl
    | cons next rest =>
      obtain ⟨child, inner, opened, among, ⟨-, rfl⟩ | ⟨items, i, -, -, rfl⟩⟩ :=
        mem_meetings_cons context rule key next rest schema data place met
      · exact congrArg (key :: ·) (ih _ child inner among)
      · exact congrArg (key :: ·) (ih _ child inner among)

/-- What a rule must heed so that the value which it moves survives. -/
structure Rule.Spares (rule : Rule) (context : Context) (schema : Schema) (path : List String)
    (seen : Object) (value : Json) : Prop where
  -- a reference that is left would be resolved again on the way to the target
  settled : SettledAlong context path rule.path seen
  -- a target below the source is taken away with it; if there is none, the way to it is clear
  outside : path <+: rule.path → (path = rule.path ∧ rule.valueName = none) ∨
    (places context rule rule.path (some schema) seen = [] ∧ rule.Clear context schema seen)
  -- the source is taken away after the write, so out of a value that was put in front of it
  inside : rule.valueName ≠ none → ∀ rest child, path = rule.path ++ rest →
    value = .object child → removeAt rest child = child
  -- a sibling goes before the value, which then is not written at that target
  used : ∀ name, rule.valueName = some name →
    path = rule.path.dropLast ++ [name] ∨
      places context rule rule.path (some schema) seen = [] ∨
      ∃ place ∈ places context rule rule.path (some schema) seen, Vacant place.data name

section Moving

variable {context : Context} {schema : Schema} {rule : Rule} {path : List String}
  {data seen after walked : Object} {value : Json} {wrote : Bool}

theorem execute_found (replaces : rule.kind = .replace) (reads : rule.valuePath = some path)
    (found : valueAt context path data = (.ok (.found value), seen))
    (done : rule.execute context schema data = (.ok (), after)) :
    ∃ wrote walked,
      walk context rule (rule.source (some value)) rule.path (some schema) seen =
        (.ok wrote, walked) ∧
      after = if wrote then removeAt path walked else walked := by
  simp only [Rule.execute, reads, found, Rule.write, replaces] at done
  rw [if_neg (by simp [Rule.source])] at done
  cases walked : walk context rule (rule.source (some value)) rule.path (some schema) seen with
  | mk answer left =>
    rw [walked] at done
    cases answer with
    | error e => cases done
    | ok wrote =>
      refine ⟨wrote, left, rfl, ?_⟩
      cases wrote with
      | false =>
        cases done
        rfl
      | true =>
        simp only [reads, Rule.source] at done
        cases done
        rfl

theorem idle_of_not_wrote (replaces : rule.kind = .replace)
    (done : walk context rule (rule.source (some value)) rule.path (some schema) seen =
      (.ok false, walked)) :
    meetings context rule rule.path (some schema) seen = [] := by
  have answer := walk_answer context rule (rule.source (some value)) rule.path (some schema) seen
  rw [done] at answer
  refine nothing_met_of_inTurn_false _ ?_ _ answer.symm
  intro place wrote acted
  rw [act_replaces replaces] at acted
  exact replaceAt_wrote rule _ place.data _ value rfl wrote acted

theorem placed_of_wrote {source : Source}
    (done : walk context rule source rule.path (some schema) seen = (.ok true, walked)) :
    places context rule rule.path (some schema) seen ≠ [] := by
  have answer := walk_answer context rule source rule.path (some schema) seen
  rw [done] at answer
  obtain ⟨place, met⟩ := met_of_inTurn_true _ _ answer.symm
  exact List.ne_nil_of_mem (mem_untilFailure _ _ true answer.symm place met)

theorem arrives_of_wrote (replaces : rule.kind = .replace)
    (populated : isPopulated value = true)
    (done : walk context rule (rule.source (some value)) rule.path (some schema) seen =
      (.ok wrote, walked))
    (place : Place) (met : .ok place ∈ meetings context rule rule.path (some schema) seen)
    (used : ∀ name, rule.valueName = some name →
      Vacant place.data name ∨ Entries.get? place.data name = some value) :
    (Json.object walked).at? (place.location ++ [.string (rule.path.getLastD "")]) =
      some value := by
  obtain ⟨written, left, acted, located⟩ := walk_reaches context rule _ rule.path (some schema) seen
    walked wrote done place met
  rw [act_replaces replaces] at acted
  have here := replaceAt_writes rule _ place.data _ value rfl rfl populated used written left acted
  rw [Json.at?_append, located, Option.bind_some, at?_string_cons, here]
  rfl

theorem removeAt_kept (left : Object) (target : String) (rest : List String)
    (here : Entries.get? left target = some value) (more : rest ≠ [])
    (inside : ∀ child, value = .object child → removeAt rest child = child) :
    Entries.get? (removeAt (target :: rest) left) target = some value := by
  obtain ⟨next, others, rfl⟩ := List.exists_cons_of_ne_nil more
  rw [removeAt, here]
  cases value with
  | object child =>
    simp only
    rw [inside child rfl, Entries.get?_put, if_pos rfl]
  | _ => exact here

/-- A source at its own target or below it conflicts, unless the rule names a sibling as well; then
it takes the place of the map that it was in. -/
theorem arrives_from_below (replaces : rule.kind = .replace) (rest : List String)
    (there : (Json.object seen).along? (rule.path ++ rest) = some value)
    (populated : isPopulated value = true)
    (spares : rule.Spares context schema (rule.path ++ rest) seen value)
    (done : walk context rule (rule.source (some value)) rule.path (some schema) seen =
      (.ok true, walked)) :
    ∃ place ∈ places context rule rule.path (some schema) seen,
      (Json.object (removeAt (rule.path ++ rest) walked)).at?
        (place.location ++ [.string (rule.path.getLastD "")]) = some value := by
  have nonempty : rule.path ≠ [] := by
    intro empty
    rw [empty] at done
    cases done
  obtain ⟨front, target, below, reached, held, split, located, present, further, met, walks⟩ :=
    walk_above rule (rule.source (some value)) rule.path rest nonempty (some schema) seen value
      there spares.settled
  have last : rule.path.getLastD "" = target := by simp [split]
  have only : places context rule rule.path (some schema) seen =
      [⟨front.map .string, below, reached⟩] := by
    rw [places, met]
    rfl
  simp only [actAt, replaces] at walks
  cases acted : replaceAt rule (rule.source (some value)) reached target with
  | mk answer left =>
    rw [done, acted] at walks
    obtain ⟨rfl, rfl⟩ := Prod.mk.inj walks
    cases named : rule.valueName with
    | none =>
      have target : Supplied reached target :=
        ⟨held, present, populated_of_along? rest held value further populated⟩
      rw [replaceAt_occupied rule _ reached _ value named rfl rfl target] at acted
      cases acted
    | some name =>
      have more : rest ≠ [] := by
        rintro rfl
        rcases spares.outside (by simp) with ⟨-, unnamed⟩ | ⟨none, -⟩
        · cases named.symm.trans unnamed
        · exact placed_of_wrote done none
      have vacant : Vacant reached name := by
        rcases spares.used name named with same | none | ⟨place, member, vacant⟩
        · -- the value lies deeper than any sibling of the target
          have longer := congrArg List.length same
          have some := List.length_pos_of_ne_nil more
          simp only [split, List.length_append, List.length_singleton, List.dropLast_concat]
            at longer
          omega
        · rw [only] at none
          cases none
        · rw [only, List.mem_singleton] at member
          rwa [member] at vacant
      have here : Entries.get? left target = some value := by
        refine replaceAt_writes rule _ reached target value rfl rfl populated ?_ true left acted
        intro other same
        rw [named] at same
        cases same
        exact .inl vacant
      have kept : Entries.get? (removeAt (target :: rest) left) target = some value :=
        removeAt_kept left target rest here more fun child =>
          spares.inside (by simp [named]) rest child rfl
      refine ⟨⟨front.map .string, below, reached⟩, by simp [only], ?_⟩
      rw [last, split, List.append_assoc, List.singleton_append,
        removeAt_graft front seen left reached (target :: rest) (List.cons_ne_nil _ _) located,
        Json.at?_append, at?_of_along? front _ _ (along?_graft front seen _ reached located),
        Option.bind_some, at?_string_cons, kept]
      rfl

theorem used_of_wrote (there : (Json.object seen).along? path = some value)
    (spares : rule.Spares context schema path seen value) (apart : ¬ path <+: rule.path)
    (done : walk context rule (rule.source (some value)) rule.path (some schema) seen =
      (.ok true, walked)) :
    ∃ place, .ok place ∈ meetings context rule rule.path (some schema) seen ∧
      ∀ name, rule.valueName = some name →
        Vacant place.data name ∨ Entries.get? place.data name = some value := by
  have answer := walk_answer context rule (rule.source (some value)) rule.path (some schema) seen
  rw [done] at answer
  obtain ⟨place, met⟩ := met_of_inTurn_true _ _ answer.symm
  cases named : rule.valueName with
  | none => exact ⟨place, met, fun name same => by cases same⟩
  | some name =>
    rcases spares.used name named with beside | none | ⟨other, member, vacant⟩
    · refine ⟨place, met, fun other same => ?_⟩
      cases same
      rcases List.eq_nil_or_concat rule.path with empty | ⟨front, target, split⟩
      · rw [empty] at met
        cases met
      · rw [List.concat_eq_append] at split
        rw [split, List.dropLast_concat] at beside
        have differs : target ≠ name := by
          rintro rfl
          exact apart (beside.trans split.symm ▸ List.prefix_rfl)
        have settled := spares.settled
        rw [beside] at there settled
        rw [split] at met settled
        exact .inr (get?_sibling rule front target name differs (some schema) seen value there
          settled place met)
    · exact absurd none (placed_of_wrote done)
    · refine ⟨other, mem_of_untilFailure _ other member, fun sibling same => ?_⟩
      cases same
      exact .inl vacant

/-- A rule with a value path that finds a populated value leaves it there or at one of its targets,
unless it does not spare the value.  It leaves the value there only if there is no target. -/
theorem moving_outcome (context : Context) (parameters : context.WellFormed) (schema : Schema)
    (rule : Rule) (replaces : rule.kind = .replace) (path : List String)
    (reads : rule.valuePath = some path) (data seen after : Object)
    (good : (Json.object data).WellFormed) (value : Json)
    (found : valueAt context path data = (.ok (.found value), seen))
    (spares : rule.Spares context schema path seen value)
    (done : rule.execute context schema data = (.ok (), after)) :
    (places context rule rule.path (some schema) seen = [] ∧
        (Json.object after).along? path = some value) ∨
      ∃ place ∈ places context rule rule.path (some schema) seen,
        (Json.object after).at? (place.location ++ [.string (rule.path.getLastD "")]) =
          some value := by
  obtain ⟨there, populated⟩ := valueAt_found path data seen value found
  obtain ⟨wrote, walked, moved, rfl⟩ := execute_found replaces reads found done
  cases wrote with
  | false =>
    have idle := idle_of_not_wrote replaces moved
    have left : (Json.object (walk context rule (rule.source (some value)) rule.path (some schema)
        seen).2).along? path = some value := by
      by_cases clear : rule.Clear context schema seen
      · rw [clear.walk rule.path [] (some schema) seen rfl rfl (.root schema) idle]
        exact there
      · refine walk_idle rule _ rule.path path (some schema) seen value there spares.settled ?_ idle
        exact fun above => (spares.outside above).elim And.left fun idles => absurd idles.2 clear
    rw [moved] at left
    refine .inl ⟨?_, left⟩
    rw [places, idle]
    rfl
  | true =>
    refine .inr ?_
    rw [if_pos rfl]
    -- a source below the target is taken out of the value itself, any other one is elsewhere
    by_cases below : rule.path <+: path
    · obtain ⟨rest, rfl⟩ := below
      exact arrives_from_below replaces rest there populated spares moved
    · have above : ¬ path <+: rule.path := fun above =>
        (spares.outside above).elim (fun same => below (same.1 ▸ List.prefix_rfl))
          fun idles => placed_of_wrote moved idles.1
      obtain ⟨place, met, used⟩ := used_of_wrote there spares above moved
      have arrived := arrives_of_wrote replaces populated moved place met used
      have seenGood : (Json.object seen).WellFormed := by
        have kept := valueAt_wellFormed parameters path data good
        rwa [found] at kept
      have walkedGood : (Json.object walked).WellFormed := by
        have sourceGood : ∀ other, (rule.source (some value)).value = some other →
            other.WellFormed := by
          rintro _ ⟨⟩
          exact along?_wellFormed path _ value seenGood there
        have kept := walk_replaces_wellFormed parameters replaces sourceGood rule.path
          (some schema) seenGood
        rwa [moved] at kept
      have answer :=
        walk_answer context rule (rule.source (some value)) rule.path (some schema) seen
      rw [moved] at answer
      refine ⟨place, mem_untilFailure _ _ true answer.symm place met, ?_⟩
      have keys := keysOf_target context rule rule.path (some schema) seen place met
      rw [at?_removeAt path walked walkedGood _ (by rwa [keys]) (by rwa [keys])]
      exact arrived

end Moving

/-- Moves the size in a configuration to the limit; a bound would go before it. -/
def limitOfSize : Rule :=
  ⟨.replace, ["config", "limit"], none, some "bound", some ["config", "size"], none⟩

def limitsContext : Context :=
  ⟨⟨.v20161014, []⟩, ⟨[("limits", .object [("size", .ofInt 5)])], [], [], none⟩,
    fun _ name => .ok name⟩

def configured : Object :=
  [("config", .object [("get_param", .string "limits")])]

theorem moving_of_size :
    limitsContext.WellFormed ∧ (Json.object configured).WellFormed ∧
      valueAt limitsContext ["config", "size"] configured =
        (.ok (.found (.ofInt 5)), [("config", .object [("size", .ofInt 5)])]) ∧
      limitOfSize.Spares limitsContext [] ["config", "size"]
        [("config", .object [("size", .ofInt 5)])] (.ofInt 5) ∧
      limitOfSize.execute limitsContext [] configured =
        (.ok (), [("config", .object [("limit", .ofInt 5)])]) ∧
      ∃ place ∈ places limitsContext limitOfSize ["config", "limit"] (some [])
          [("config", .object [("size", .ofInt 5)])],
        (Json.object [("config", .object [("limit", .ofInt 5)])]).at?
          (place.location ++ [.string "limit"]) = some (.ofInt 5) := by
  have parameters : limitsContext.WellFormed := by
    intro name held found
    have only : held = .object [("size", .ofInt 5)] := by
      simp only [limitsContext, Stack.parameter?, Entries.get?_cons, Entries.get?_nil] at found
      split at found
      · exact (Option.some.inj found).symm
      · cases found
    rw [only]
    simp [Json.WellFormed, Json.WellFormedEntries, Entries.Distinct, Entries.keys, Json.ofInt,
      Number.InRange]
  have good : (Json.object configured).WellFormed := by
    simp [Json.WellFormed, Json.WellFormedEntries, configured, Entries.Distinct, Entries.keys]
  have found : valueAt limitsContext ["config", "size"] configured =
      (.ok (.found (.ofInt 5)), [("config", .object [("size", .ofInt 5)])]) := rfl
  have reached : places limitsContext limitOfSize ["config", "limit"] (some [])
      [("config", .object [("size", .ofInt 5)])] =
        [⟨[.string "config"], none, [("size", .ofInt 5)]⟩] := rfl
  have spares : limitOfSize.Spares limitsContext [] ["config", "size"]
      [("config", .object [("size", .ofInt 5)])] (.ofInt 5) := by
    constructor
    · intro front x nonempty first second there
      rcases front with _ | ⟨key, _ | ⟨next, rest⟩⟩
      · exact absurd rfl nonempty
      · obtain ⟨rfl, -⟩ := List.cons_prefix_cons.mp first
        cases there
        rfl
      · have size := (List.cons_prefix_cons.mp (List.cons_prefix_cons.mp first).2).1
        have limit := (List.cons_prefix_cons.mp (List.cons_prefix_cons.mp second).2).1
        exact absurd (size.symm.trans limit) (by decide)
    · intro above
      exact absurd above (by decide)
    · intro _ rest child split
      exact absurd ⟨rest, split.symm⟩ (by decide : ¬ limitOfSize.path <+: ["config", "size"])
    · intro name same
      cases same
      refine .inr (.inr ⟨_, reached ▸ List.mem_cons_self .., ?_⟩)
      intro value there
      cases there
  have done : limitOfSize.execute limitsContext [] configured =
      (.ok (), [("config", .object [("limit", .ofInt 5)])]) := rfl
  refine ⟨parameters, good, found, spares, done, ?_⟩
  rcases moving_outcome limitsContext parameters [] limitOfSize rfl ["config", "size"] rfl
    configured _ _ good _ found spares done with ⟨none, -⟩ | moved
  · cases reached.symm.trans none
  · exact moved

/-- A target below its own source is taken away with it. -/
example : Rule.execute limitsContext []
    ⟨.replace, ["a", "b"], none, none, some ["a"], none⟩ [("a", .object [("x", .ofInt 1)])] =
      (.ok (), []) := rfl

end Orchestration.Migration
