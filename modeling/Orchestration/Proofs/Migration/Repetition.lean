import Orchestration.Proofs.Migration.Executing

/-!
# Executing a rule again

A rule that deletes its targets, or moves one value there, leaves nothing to do for itself: where it
went before it finds its targets deleted, its sibling gone from every map, or nothing at its value
path.  So executing it a second time changes nothing, the order of keys included.
-/

set_option autoImplicit false

namespace Orchestration.Migration

open Json (Inert)

variable {context : Context} {version : Version} {rule : Rule}

/-! ## Changes that leave nothing to do -/

/-- When the first change succeeds, and wrote something only if that is allowed, the second one does
nothing to what it left. -/
def Rests (writes : Prop) (first second : Object → Change Object Bool) (data : Object) : Prop :=
  ∀ wrote left, first data = (.ok wrote, left) → (wrote = true → writes) →
    ∃ again, (again = true → writes) ∧ second left = (.ok again, left)

variable {writes : Prop}

theorem overMaps_rests {visit visit' : Object → Change Object Bool} (items : List Json)
    (each : ∀ child, .object child ∈ items → Rests writes visit visit' child) (wrote : Bool)
    (left : List Json) (done : overMaps visit items = (.ok wrote, left))
    (allowed : wrote = true → writes) :
    ∃ again, (again = true → writes) ∧ overMaps visit' left = (.ok again, left) := by
  simp only [passed_iff] at done ⊢
  induction done with
  | nil => exact ⟨false, by simp, .nil⟩
  | map child left rest behind first more here below ih =>
    obtain ⟨again, still, same⟩ := each child (List.mem_cons_self ..) first left here
      fun isTrue => allowed (by rw [isTrue, Bool.true_or])
    obtain ⟨again', still', same'⟩ := ih
      (fun child member => each child (List.mem_cons_of_mem _ member))
      fun isTrue => allowed (by rw [isTrue, Bool.or_true])
    refine ⟨again || again', fun either => ?_, .map left left behind behind again again' same same'⟩
    exact ((Bool.or_eq_true _ _).mp either).elim still still'
  | other item rest behind more other below ih =>
    obtain ⟨again, still, same⟩ :=
      ih (fun child member => each child (List.mem_cons_of_mem _ member)) allowed
    exact ⟨again, still, .other item behind behind again other same⟩

theorem store_store (data : Object) (key : String) (slot : Option Json) :
    store (store data key slot) key slot = store data key slot := by
  cases slot with
  | none => rfl
  | some value => exact Entries.put_put data key value value

namespace Descent

variable {op other : Descent} {visit visit' : Object → Change Object Bool}

structure Alike (op other : Descent) : Prop where
  opens : other.opens = op.opens
  spreads : other.spreads = op.spreads

theorem inside_rests (alike : Alike op other) (declared : Bool)
    (each : ∀ child, Inert version (.object child) → Rests writes visit visit' child)
    (slot : Option Json) (inert : ∀ x ∈ slot, x.Inert version) (wrote : Bool) (left : Option Json)
    (done : op.inside declared visit slot = (.ok wrote, left)) (allowed : wrote = true → writes) :
    ∃ again, (again = true → writes) ∧ other.inside declared visit' left = (.ok again, left) := by
  -- A map that was visited, or created, is visited again; elsewhere nothing happens twice.
  have visited (child : Object) (good : Inert version (.object child))
      (same : ((visit child).1, some (Json.object (visit child).2)) = (.ok wrote, left)) :
      ∃ again, (again = true → writes) ∧ other.inside declared visit' left = (.ok again, left) := by
    obtain ⟨answer, rfl⟩ := Prod.mk.injEq .. ▸ same
    obtain ⟨again, still, rests⟩ := each child good wrote _ (Prod.ext answer rfl) allowed
    exact ⟨again, still, by rw [inside_map, rests]⟩
  rcases slot_cases slot with ⟨child, rfl⟩ | ⟨items, rfl⟩ | vacant | closed
  · exact visited child (inert _ rfl) done
  · rw [inside_list] at done
    by_cases spreads : op.spreads = true
    · rw [if_pos spreads] at done
      obtain ⟨answer, rfl⟩ := Prod.mk.injEq .. ▸ done
      obtain ⟨again, still, rests⟩ := overMaps_rests items
        (fun child member => each child ((inert _ rfl).item _ member)) wrote _
        (Prod.ext answer rfl) allowed
      exact ⟨again, still, by rw [inside_list, if_pos (alike.spreads.trans spreads), rests]⟩
    · rw [if_neg spreads] at done
      cases done
      exact ⟨false, allowed, by rw [inside_list, if_neg (alike.spreads ▸ spreads)]⟩
  · rw [inside_vacant _ _ _ _ vacant] at done
    by_cases opened : (declared && op.opens) = true
    · rw [if_pos opened] at done
      exact visited [] .empty done
    · rw [if_neg opened] at done
      cases done
      exact ⟨false, allowed,
        by rw [inside_vacant _ _ _ _ vacant, alike.opens, if_neg opened]⟩
  · rw [inside_closed _ _ _ _ closed] at done
    cases done
    exact ⟨false, allowed, inside_closed _ _ _ _ closed⟩

theorem run_rests (alike : Alike op other)
    (acts : ∀ schema key data, Inert version (.object data) →
      Rests writes (fun data => op.act schema data key)
        (fun data => other.act schema data key) data)
    (path : List String) (schema : Option Schema) (data : Object)
    (inert : Inert version (.object data)) :
    Rests writes (op.run path schema) (other.run path schema) data := by
  induction path generalizing schema data with
  | nil =>
    intro wrote left done allowed
    cases done
    exact ⟨false, allowed, rfl⟩
  | cons key path ih =>
    cases path with
    | nil => exact acts schema key data inert
    | cons next rest =>
      intro wrote left done allowed
      rw [run_cons] at done
      obtain ⟨answer, rfl⟩ := Prod.mk.injEq .. ▸ done
      obtain ⟨again, still, rests⟩ := inside_rests alike (declaresMap schema key)
        (fun child good => ih (schema.bind fun s => s.child? key) child good)
        (Entries.get? data key) (inert_entry inert key) wrote _ (Prod.ext answer rfl) allowed
      have absent := op.absent_of_inside (declaresMap schema key)
        (op.run (next :: rest) (schema.bind fun s => s.child? key)) (Entries.get? data key)
      refine ⟨again, still, ?_⟩
      rw [run_store other key next rest schema data _ absent, rests]
      exact congrArg (Prod.mk _) (store_store data key _)

theorem inert_run (op : Descent) (keeps : ∀ schema key data, version.function? key = none →
      Inert version (.object data) → Inert version (.object (op.act schema data key).2))
    (path : List String) (named : ∀ key ∈ path, version.function? key = none)
    (schema : Option Schema) (data : Object) (inert : Inert version (.object data)) :
    Inert version (.object (op.run path schema data).2) := by
  induction path generalizing schema data with
  | nil => exact inert
  | cons key path ih =>
    obtain ⟨here, later⟩ := List.forall_mem_cons.mp named
    cases path with
    | nil => exact keeps schema key data here inert
    | cons next rest =>
      rw [run_cons]
      exact inert_store inert key here (op.inside_inert _ _
        (fun child good => ih later (schema.bind fun s => s.child? key) child good) _
        (inert_entry inert key))

end Descent

/-! ## Reading the value path again -/

theorem inside_cases {op : Descent} {declared : Bool} {visit : Object → Change Object Bool}
    {slot left : Option Json} {wrote : Bool} (noList : ∀ items, slot ≠ some (.list items))
    (shut : op.opens = true → ¬ (slot = none ∨ slot = some .null))
    (done : op.inside declared visit slot = (.ok wrote, left)) :
    left = slot ∨ ∃ child made, slot = some (.object child) ∧ left = some (.object made) ∧
      visit child = (.ok wrote, made) := by
  rcases slot_cases slot with ⟨child, rfl⟩ | ⟨items, rfl⟩ | vacant | closed
  · rw [Descent.inside_map] at done
    obtain ⟨answer, rfl⟩ := Prod.mk.injEq .. ▸ done
    exact .inr ⟨child, _, rfl, rfl, Prod.ext answer rfl⟩
  · exact absurd rfl (noList items)
  · rw [Descent.inside_vacant _ _ _ _ vacant] at done
    have unopened : ¬ (declared && op.opens) = true := fun both =>
      shut (Bool.and_eq_true_iff.mp both).2 vacant
    rw [if_neg unopened] at done
    cases done
    exact .inl rfl
  · rw [Descent.inside_closed _ _ _ _ closed] at done
    cases done
    exact .inl rfl

/-- A descent does not bring a list on the way of a value path: it goes through the maps there, its
acts leave them, and it creates no maps where there are some. -/
theorem outside_run {op : Descent} (Fit : List String → Object → Prop)
    (outside : ∀ path data, Fit path data → ¬ RunsIntoList path data)
    (below : ∀ key next rest data child, Fit (key :: next :: rest) data →
      Entries.get? data key = some (.object child) → Fit (next :: rest) child)
    (there : op.opens = true → ∀ key next rest data, Fit (key :: next :: rest) data →
      ¬ (Entries.get? data key = none ∨ Entries.get? data key = some .null))
    (acts : ∀ source schema key data, Inert version (.object data) → Fit source data →
      ∀ wrote left, op.act schema data key = (.ok wrote, left) → ¬ RunsIntoList source left)
    (path source : List String) (schema : Option Schema) (data : Object)
    (inert : Inert version (.object data)) (fit : Fit source data) (wrote : Bool) (left : Object)
    (done : op.run path schema data = (.ok wrote, left)) : ¬ RunsIntoList source left := by
  induction path generalizing source schema data wrote left with
  | nil =>
    cases done
    exact outside source _ fit
  | cons key path ih =>
    match path, source with
    | [], source => exact acts source schema key data inert fit wrote left done
    | _, [] => exact not_runsIntoList_nil left
    | _, [last] => exact not_runsIntoList_single last left
    | next :: rest, first :: second :: others =>
      have before := outside _ _ fit
      have absent := op.absent_of_inside (declaresMap schema key)
        (op.run (next :: rest) (schema.bind fun s => s.child? key)) (Entries.get? data key)
      rw [Descent.run_cons] at done
      generalize stored : op.inside (declaresMap schema key)
        (op.run (next :: rest) (schema.bind fun s => s.child? key)) (Entries.get? data key) = inside
        at done absent
      obtain ⟨answer, slot⟩ := inside
      cases done
      intro runs
      by_cases same : first = key
      · subst same
        have here := get?_store data first slot absent
        have noList (items : List Json) : Entries.get? data first ≠ some (.list items) :=
          fun list => before ((runsIntoList_cons ..).mpr (.inl ⟨items, list⟩))
        rcases inside_cases noList (fun opens => there opens _ _ _ _ fit) stored with
          rfl | ⟨child, made, held, rfl, visited⟩
        · exact before (runs.of_get? here.symm)
        · rcases (runsIntoList_cons ..).mp runs with ⟨items, list⟩ | ⟨map, found, runs⟩
          · cases here.symm.trans list
          · cases here.symm.trans found
            exact ih (second :: others) (schema.bind fun s => s.child? first) child
              (inert.entry first _ held) (below _ _ _ _ child fit held) wrote made visited runs
      · exact before (runs.of_get? (get?_store_of_ne _ _ _ _ (Ne.symm same)).symm)

/-! ## The acts -/

theorem alike_walking (source other : Source) :
    Descent.Alike (walking context rule source) (walking context rule other) :=
  ⟨rfl, rfl⟩

theorem deleteAt_rests (key : String) (data : Object) (distinct : Entries.Distinct data) :
    Rests True (fun data => deleteAt data key) (fun data => deleteAt data key) data := by
  intro wrote left done _
  cases done
  have gone : Entries.get? (Entries.erase data key) key = none := by
    rw [Entries.get?_erase data distinct, if_pos rfl]
  exact ⟨_, fun _ => trivial, Prod.ext rfl (Entries.erase_of_absent _ _ gone)⟩

theorem replaceAt_rests {source : Source} {name : String} (named : rule.valueName = some name)
    (unsourced : source.value = none) (key : String) (data : Object)
    (distinct : Entries.Distinct data) :
    Rests True (fun data => replaceAt rule source data key)
      (fun data => replaceAt rule source data key) data := by
  intro wrote left done _
  change replaceAt rule source data key = (.ok wrote, left) at done
  have gone : Entries.get? (Entries.erase data name) name = none := by
    rw [Entries.get?_erase data distinct, if_pos rfl]
  have quiet (rest : Object) (absent : Entries.get? rest name = none) :
      replaceAt rule source rest key = (.ok false, rest) := by
    have vacant : Vacant rest name := fun value here => by cases absent.symm.trans here
    rw [replaceAt_vacant rule source rest key name named vacant, unsourced,
      Entries.erase_of_absent _ _ absent]
  rcases sibling_cases data key name with ⟨target, sibling⟩ | vacant |
    ⟨single, held, found, present⟩
  · rw [replaceAt_conflict rule source data key name named target sibling] at done
    cases done
  · rw [replaceAt_vacant rule source data key name named vacant, unsourced] at done
    cases done
    exact ⟨false, fun _ => trivial, quiet _ gone⟩
  · rw [replaceAt_sibling rule source data key name named single held found present] at done
    cases done
    by_cases same : name = key
    · subst same
      have stays : Entries.get? (Entries.put (Entries.erase data name) name held) name =
          some held := by
        rw [Entries.get?_put, if_pos rfl]
      have empty : ¬ Supplied (Entries.put (Entries.erase data name) name held) name := by
        rintro ⟨value, here, populated⟩
        cases stays.symm.trans here
        exact single ⟨⟨held, found, populated⟩, ⟨held, found, populated⟩⟩
      have again := replaceAt_sibling rule source _ name name named (fun both => empty both.1) held
        stays present
      rw [Entries.erase_put_of_absent _ _ _ gone] at again
      exact ⟨true, fun _ => trivial, again⟩
    · have absent : Entries.get? (Entries.put (Entries.erase data name) key held) name = none := by
        rw [Entries.get?_put, if_neg (Ne.symm same), gone]
      exact ⟨false, fun _ => trivial, quiet _ absent⟩

theorem replaceAt_rests_found {source other : Source} {value : Json}
    (sourced : source.value = some value) (key : String) (data : Object) :
    Rests False (fun data => replaceAt rule source data key)
      (fun data => replaceAt rule other data key) data := by
  intro wrote left done allowed
  exact (allowed (replaceAt_wrote rule source data key value sourced wrote
    (congrArg Prod.fst done))).elim

theorem outside_replaceAt {source : Source} {value other : Json} {path : List String}
    {key : String} {data left : Object} {wrote : Bool} (unnamed : rule.valueName = none)
    (sourced : source.value = some value) (fromPath : source.fromPath = true)
    (found : readAt path data = .ok (.found other))
    (done : replaceAt rule source data key = (.ok wrote, left)) : ¬ RunsIntoList path left := by
  by_cases target : Supplied data key
  · rw [replaceAt_occupied rule source data key value unnamed sourced fromPath target] at done
    cases done
  · rw [replaceAt_free rule source data key value unnamed sourced target] at done
    cases done
    match path with
    | [] => exact not_runsIntoList_nil _
    | [last] => exact not_runsIntoList_single last _
    | first :: second :: others =>
      refine fun runs => not_runsIntoList_of_ok found (runs.of_get? ?_)
      rw [Entries.get?_put, if_neg]
      rintro rfl
      rw [readAt_cons] at found
      split at found
      · rename_i child here
        refine target ⟨.object child, here, ?_⟩
        cases child with
        | nil =>
          rw [readAt_empty] at found
          cases found
        | cons entry rest => rfl
      · cases found
      · cases found

/-! ## Rules -/

/-- The rule deletes its targets, or it moves one value there: a sibling of the target, or the value
at a path. -/
inductive Rule.OneSource (rule : Rule) : Prop where
  | deletes (kind : rule.kind = .delete)
  | sibling (kind : rule.kind = .replace) (name : String) (named : rule.valueName = some name)
    (noValue : rule.value = none) (noPath : rule.valuePath = none)
  | path (kind : rule.kind = .replace) (source : List String) (reads : rule.valuePath = some source)
    (noValue : rule.value = none) (unnamed : rule.valueName = none)

namespace Rule

variable {schema : Schema} {found : Option Json}

theorem write_again {writes : Prop} (found other : Option Json) {data left : Object} {wrote : Bool}
    (busy : ¬ rule.Idle other)
    (stays : writes → ¬ ((rule.source other).fromPath = true ∧ rule.kind = .replace))
    (rests : Rests writes
      ((walking context rule (rule.source found)).run rule.path (some schema))
      ((walking context rule (rule.source other)).run rule.path (some schema)) data)
    (done : (walking context rule (rule.source found)).run rule.path (some schema) data =
      (.ok wrote, left))
    (allowed : wrote = true → writes)
    (inert : Inert context.template.version (.object left)) :
    rule.write context schema other left = (.ok (), left) := by
  obtain ⟨again, still, same⟩ := rests wrote left done allowed
  rw [write_busy busy left (.of_inert true _ left inert), same]
  refine congrArg (Prod.mk _) (if_neg fun removes => ?_)
  rw [Bool.and_eq_true, Bool.and_eq_true, beq_iff_eq] at removes
  exact stays (still removes.1.1) ⟨removes.1.2, removes.2⟩

theorem execute_rests {data : Object} (inert : Inert context.template.version (.object data))
    (outside : ∀ path, rule.valuePath = some path → ¬ RunsIntoList path data)
    (rests : ∀ found, rule.Looked data found →
      rule.write context schema found data = (.ok (), data)) :
    rule.execute context schema data = (.ok (), data) := by
  rcases execute_looked schema data fun path _ => .of_inert false path data inert with
    ⟨⟨path, reads, runs⟩, -⟩ | ⟨-, found, looked, same⟩
  · exact absurd runs (outside path reads)
  · rw [same, rests found looked]

theorem outside_walked {path : List String} {value : Json} {data left : Object} {wrote : Bool}
    (replaces : rule.kind = .replace) (unnamed : rule.valueName = none)
    (inert : Inert context.template.version (.object data))
    (found : readAt path data = .ok (.found value))
    (walked : (walking context rule (rule.source (some value))).run rule.path (some schema) data =
      (.ok wrote, left)) : ¬ RunsIntoList path left := by
  refine outside_run (fun path data => ∃ other, readAt path data = .ok (.found other)) ?_ ?_ ?_ ?_
    rule.path path (some schema) data inert ⟨value, found⟩ wrote left walked
  · rintro path data ⟨other, found⟩
    exact not_runsIntoList_of_ok found
  · rintro key next rest data child ⟨other, found⟩ here
    rw [readAt_cons, here] at found
    exact ⟨other, found⟩
  · rintro - key next rest data ⟨other, found⟩ vacant
    rw [readAt_cons] at found
    rcases vacant with here | here <;> simp [here] at found
  · rintro path schema key data - ⟨other, found⟩ wrote left done
    rw [act_walking_replace _ _ _ _ replaces] at done
    exact outside_replaceAt unnamed rfl rfl found done

variable (named : ∀ key ∈ rule.path, context.template.version.function? key = none)
  {data after : Object} (inert : Inert context.template.version (.object data))
  (done : rule.execute context schema data = (.ok (), after))
include named inert done

theorem delete_again (deletes : rule.kind = .delete) :
    rule.execute context schema after = (.ok (), after) := by
  have busy (found : Option Json) : ¬ rule.Idle found := by simp [Idle, deletes]
  have shut (found : Option Json) : ¬ (walking context rule (rule.source found)).opens = true := by
    simp only [walking, skipsMissing, deletes, Bool.not_true, Bool.false_eq_true, not_false_eq_true]
  obtain ⟨outside, found, -, wrote⟩ :=
    execute_ok (fun path _ => .of_inert false path data inert) done
  obtain ⟨any, left, walked, same⟩ := write_ok (busy found) (.of_inert true _ data inert) wrote
  rw [if_neg (by simp [deletes])] at same
  subst same
  have kept := Descent.inert_run (walking context rule (rule.source found))
    (fun schema key data _ good => by
      rw [act_walking_delete _ _ _ _ deletes]
      exact good.erase key)
    rule.path named (some schema) data inert
  rw [walked] at kept
  refine execute_rests kept (fun path reads => ?_) fun other _ => ?_
  · refine outside_run (fun path data => ¬ RunsIntoList path data) (fun _ _ fits => fits)
      (fun key next rest data child fits here runs =>
        fits ((runsIntoList_cons ..).mpr (.inr ⟨child, here, runs⟩)))
      (fun opens => absurd opens (shut found)) ?_ rule.path path _ data inert (outside path reads)
      any after walked
    intro source schema key data good fits wrote left erased
    rw [act_walking_delete _ _ _ _ deletes] at erased
    cases erased
    exact fun runs => fits (runs.of_erase good.wellFormed.distinct key)
  · refine write_again found other (busy other) (fun _ both => ?_)
      (Descent.run_rests (alike_walking _ _) (fun schema key data good => ?_) rule.path _ data
        inert)
      walked (fun _ => trivial) kept
    · rw [deletes] at both
      cases both.2
    · simp only [act_walking_delete _ _ _ _ deletes]
      exact deleteAt_rests key data good.wellFormed.distinct

theorem sibling_again (replaces : rule.kind = .replace) (name : String)
    (here : rule.valueName = some name) (noValue : rule.value = none)
    (noPath : rule.valuePath = none) : rule.execute context schema after = (.ok (), after) := by
  have busy (found : Option Json) : ¬ rule.Idle found := by simp [Idle, here]
  have nothing {data : Object} {found : Option Json} (looked : rule.Looked data found) :
      found = none := by
    refine Option.eq_none_iff_forall_ne_some.mpr fun value found => ?_
    obtain ⟨path, reads, -⟩ := (looked value).mp found
    cases noPath.symm.trans reads
  have unsourced : (rule.source none).value = none := noValue
  obtain ⟨-, found, looked, wrote⟩ :=
    execute_ok (fun path _ => .of_inert false path data inert) done
  cases nothing looked
  obtain ⟨any, left, walked, same⟩ := write_ok (busy none) (.of_inert true _ data inert) wrote
  rw [if_neg (by simp [source])] at same
  subst same
  have kept := Descent.inert_run (walking context rule (rule.source none))
    (fun schema key data named good => actAt_inert good named
      (fun value there => by cases unsourced.symm.trans there) schema)
    rule.path named (some schema) data inert
  rw [walked] at kept
  refine execute_rests kept (fun path reads => by cases noPath.symm.trans reads)
    fun other looked => ?_
  cases nothing looked
  refine write_again none none (busy none) (fun _ both => by cases both.1)
    (Descent.run_rests (alike_walking _ _) (fun schema key data good => ?_) rule.path _ data inert)
    walked (fun _ => trivial) kept
  simp only [act_walking_replace _ _ _ _ replaces]
  exact replaceAt_rests here unsourced key data good.wellFormed.distinct

theorem path_again (replaces : rule.kind = .replace) (path : List String)
    (reads : rule.valuePath = some path) (noValue : rule.value = none)
    (unnamed : rule.valueName = none) : rule.execute context schema after = (.ok (), after) := by
  have idle : rule.Idle none := by simp [Idle, replaces, source, noValue, unnamed]
  have busy (value : Json) : ¬ rule.Idle (some value) := by simp [Idle, source]
  obtain ⟨-, found, looked, wrote⟩ :=
    execute_ok (fun path _ => .of_inert false path data inert) done
  cases found with
  | none =>
    rw [write_idle idle] at wrote
    cases wrote
    exact done
  | some value =>
    obtain ⟨_, same, found⟩ := (looked value).mp rfl
    cases reads.symm.trans same
    obtain ⟨good, onWay⟩ := readAt_found path data value inert found
    obtain ⟨any, left, walked, same⟩ := write_ok (busy value) (.of_inert true _ data inert) wrote
    have kept := Descent.inert_run (walking context rule (rule.source (some value)))
      (fun schema key data named inert => actAt_inert inert named
        (fun other there => by cases there; exact good) schema)
      rule.path named (some schema) data inert
    rw [walked] at kept
    have outside := outside_walked replaces unnamed inert found walked
    cases any with
    | true =>
      rw [if_pos (by simp [source, replaces]), reads, Option.getD_some] at same
      subst same
      have without : Inert context.template.version (.object (removeAt path left)) := by
        have keeps := (Descent.confined_run lawful_removing path onWay none).keeps left kept
        rwa [run_removing] at keeps
      have gone := readAt_removeAt path left kept.wellFormed outside
      refine execute_rests without (fun other here => ?_) fun other looked => ?_
      · cases reads.symm.trans here
        exact not_runsIntoList_of_ok gone
      · cases other with
        | none => exact write_idle idle _
        | some other =>
          obtain ⟨_, same, found⟩ := (looked other).mp rfl
          cases reads.symm.trans same
          cases gone.symm.trans found
    | false =>
      rw [if_neg (by simp)] at same
      subst same
      refine execute_rests kept (fun other here => ?_) fun other _ => ?_
      · cases reads.symm.trans here
        exact outside
      · cases other with
        | none => exact write_idle idle _
        | some other =>
          refine write_again (some value) (some other) (busy other) (fun impossible _ => impossible)
            (Descent.run_rests (alike_walking _ _) (fun schema key data _ => ?_) rule.path _ data
              inert)
            walked (by simp) kept
          simp only [act_walking_replace _ _ _ _ replaces]
          exact replaceAt_rests_found rfl key data

end Rule

/-- Where no key names a function, a rule that deletes its targets or moves one value there does
nothing when it is executed again. -/
theorem execute_again (context : Context) (schema : Schema) (rule : Rule) (one : rule.OneSource)
    (named : ∀ key ∈ rule.path, context.template.version.function? key = none)
    (data after : Object) (inert : Inert context.template.version (.object data))
    (done : rule.execute context schema data = (.ok (), after)) :
    rule.execute context schema after = (.ok (), after) := by
  cases one with
  | deletes kind => exact Rule.delete_again named inert done kind
  | sibling kind name here noValue noPath =>
    exact Rule.sibling_again named inert done kind name here noValue noPath
  | path kind path reads noValue unnamed =>
    exact Rule.path_again named inert done kind path reads noValue unnamed

def movedZone : Object :=
  [("servers", .list [.object [("net", .object [("zone", .string "east")])],
    .object [("net", .object [("zone", .string "east")])]])]

theorem execute_again_on_servers :
    zoneOfServers.execute limitsContext serversSchema twoServers = (.ok (), movedZone) ∧
      zoneOfServers.execute limitsContext serversSchema movedZone = (.ok (), movedZone) := by
  have inert : Inert .v20161014 (.object twoServers) := by
    constructor
    · simp [Json.WellFormed, Json.WellFormedItems, Json.WellFormedEntries, twoServers,
        Entries.Distinct, Entries.keys]
    · simp [Json.Keyed, Json.KeyedItems, Json.KeyedEntries, twoServers]
      decide
  have done : zoneOfServers.execute limitsContext serversSchema twoServers = (.ok (), movedZone) :=
    rfl
  exact ⟨done, execute_again limitsContext serversSchema zoneOfServers (.path rfl _ rfl rfl rfl)
    (by decide) twoServers movedZone inert done⟩

end Orchestration.Migration
