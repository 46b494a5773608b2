import Orchestration.Proofs.Migration.Independence
import Orchestration.Proofs.Paths

/-!
# Following paths that are apart

A descent follows a path of keys through maps, and possibly through the maps of lists, and acts at
its last key; missing maps may be created on the way.  Walking to a target is one, and taking away
what stands at a value path is another.  Two descents on paths that are apart do not see each other,
though one may create a map that both go through.
-/

set_option autoImplicit false

namespace Orchestration.Migration

open Json (Inert content)

variable {version : Version}

/-! ## Slots -/

def store (data : Object) (key : String) : Option Json → Object
  | some value => Entries.put data key value
  | none => data

section Store

variable (data : Object) (key : String) (slot : Option Json)

theorem get?_store_of_ne (other : String) (apart : key ≠ other) :
    Entries.get? (store data key slot) other = Entries.get? data other := by
  cases slot with
  | none => rfl
  | some value => rw [store, Entries.get?_put, if_neg apart]

theorem get?_store (absent : slot = none → Entries.get? data key = none) :
    Entries.get? (store data key slot) key = slot := by
  cases slot with
  | none => exact absent rfl
  | some value => rw [store, Entries.get?_put, if_pos rfl]

theorem store_get? : store data key (Entries.get? data key) = data := by
  cases here : Entries.get? data key with
  | none => rfl
  | some value => exact Entries.put_of_get? data key value here

end Store

/-- What stands in a slot is neither a map nor a list, nor null. -/
def Closed (slot : Option Json) : Prop :=
  ∃ value, slot = some value ∧ (∀ child, value ≠ .object child) ∧ (∀ items, value ≠ .list items) ∧
    value ≠ .null

theorem slot_cases (slot : Option Json) : (∃ child, slot = some (.object child)) ∨
    (∃ items, slot = some (.list items)) ∨ (slot = none ∨ slot = some .null) ∨ Closed slot := by
  cases slot with
  | none => exact .inr (.inr (.inl (.inl rfl)))
  | some value =>
    cases value with
    | object child => exact .inl ⟨child, rfl⟩
    | list items => exact .inr (.inl ⟨items, rfl⟩)
    | null => exact .inr (.inr (.inl (.inr rfl)))
    | _ => exact .inr (.inr (.inr ⟨_, rfl, by simp, by simp, by simp⟩))

def declaresMap (schema : Option Schema) (key : String) : Bool :=
  ((schema.bind fun s => Entries.get? s key).map PropertyType.isMap).getD false

/-! ## Descents -/

/-- How a path is followed: whether missing maps are created where they are declared, whether the
maps of lists are gone through, and what is done at the last key, which may concern one more key. -/
structure Descent where
  opens : Bool
  spreads : Bool
  beside : Option String
  act : Option Schema → Object → String → Change Object Bool

namespace Descent

variable (op : Descent)

/-- What becomes of a slot on the way, given what is done to a map there. -/
def inside (declared : Bool) (visit : Object → Change Object Bool) (slot : Option Json) :
    Change (Option Json) Bool :=
  match slot with
  | some (.object child) => ((visit child).1, some (.object (visit child).2))
  | some (.list items) =>
    if op.spreads then ((overMaps visit items).1, some (.list (overMaps visit items).2))
    else (.ok false, slot)
  | none | some .null =>
    if declared && op.opens then ((visit []).1, some (.object (visit []).2)) else (.ok false, slot)
  | some _ => (.ok false, slot)

def run : List String → Option Schema → Object → Change Object Bool
  | [], _, data => (.ok false, data)
  | [key], schema, data => op.act schema data key
  | key :: next :: rest, schema, data =>
    let left := op.inside (declaresMap schema key)
      (run (next :: rest) (schema.bind fun s => s.child? key)) (Entries.get? data key)
    (left.1, store data key left.2)

def keys (key : String) : List String :=
  key :: op.beside.toList

def reach : List String → List String
  | [] => []
  | [key] => op.keys key
  | key :: _ :: _ => [key]

def footprint (path : List String) : List (List String) :=
  path :: (op.beside.map fun name => path.dropLast ++ [name]).toList

/-- An act concerns its keys only, and a descent that creates no maps does nothing in empty ones. -/
structure Lawful (version : Version) (op : Descent) : Prop where
  acts : ∀ schema key, version.function? key = none →
    Confined version (op.keys key) fun data => op.act schema data key
  quiet : op.opens = false → ∀ schema key, op.act schema [] key = (.ok false, [])

/-! ## On the way -/

section Inside

variable (declared : Bool) (visit : Object → Change Object Bool)

theorem inside_map (child : Object) : op.inside declared visit (some (.object child)) =
    ((visit child).1, some (.object (visit child).2)) := rfl

theorem inside_list (items : List Json) : op.inside declared visit (some (.list items)) =
    if op.spreads then ((overMaps visit items).1, some (.list (overMaps visit items).2))
    else (.ok false, some (.list items)) := rfl

theorem inside_vacant (slot : Option Json) (vacant : slot = none ∨ slot = some .null) :
    op.inside declared visit slot =
      if declared && op.opens then ((visit []).1, some (.object (visit []).2))
      else (.ok false, slot) := by
  rcases vacant with rfl | rfl <;> rfl

theorem inside_closed (slot : Option Json) (closed : Closed slot) :
    op.inside declared visit slot = (.ok false, slot) := by
  obtain ⟨value, rfl, notMap, notList, notNull⟩ := closed
  cases value with
  | object child => exact absurd rfl (notMap child)
  | list items => exact absurd rfl (notList items)
  | null => exact absurd rfl notNull
  | _ => rfl

theorem absent_of_inside (slot : Option Json) (absent : (op.inside declared visit slot).2 = none) :
    slot = none := by
  rcases slot_cases slot with ⟨child, rfl⟩ | ⟨items, rfl⟩ | vacant | closed
  · cases absent
  · rw [inside_list] at absent
    split at absent <;> cases absent
  · rw [inside_vacant _ _ _ _ vacant] at absent
    split at absent
    · cases absent
    · exact absent
  · rwa [inside_closed _ _ _ _ closed] at absent

theorem inside_inert (keeps : ∀ data, Inert version (.object data) →
      Inert version (.object (visit data).2)) (slot : Option Json)
    (inert : ∀ x ∈ slot, x.Inert version) :
    ∀ x ∈ (op.inside declared visit slot).2, x.Inert version := by
  rcases slot_cases slot with ⟨child, rfl⟩ | ⟨items, rfl⟩ | vacant | closed
  · rintro _ ⟨⟩
    exact keeps child (inert _ rfl)
  · rw [inside_list]
    split
    · rintro _ ⟨⟩
      exact .list (overMaps_inert visit keeps items (inert _ rfl).item)
    · exact inert
  · rw [inside_vacant _ _ _ _ vacant]
    split
    · rintro _ ⟨⟩
      exact keeps [] .empty
    · exact inert
  · rwa [inside_closed _ _ _ _ closed]

theorem inside_content (congr : ∀ first second, Inert version (.object first) →
      Inert version (.object second) → contentAt first = contentAt second →
      (visit first).1 = (visit second).1 ∧ contentAt (visit first).2 = contentAt (visit second).2)
    (slot other : Option Json) (inert : ∀ x ∈ slot, x.Inert version)
    (inert' : ∀ x ∈ other, x.Inert version) (same : slot.map content = other.map content) :
    (op.inside declared visit slot).1 = (op.inside declared visit other).1 ∧
      (op.inside declared visit slot).2.map content =
        (op.inside declared visit other).2.map content := by
  cases slot with
  | none =>
    cases Option.map_eq_none_iff.mp same.symm
    exact ⟨rfl, rfl⟩
  | some x =>
    obtain ⟨y, rfl, here⟩ := Option.map_eq_some_iff.mp same.symm
    rcases Json.content_cases here.symm with ⟨first, second, rfl, rfl, child⟩ |
      ⟨first, second, rfl, rfl, items⟩ | ⟨rfl, -⟩
    · obtain ⟨answer, left⟩ := congr first second (inert _ rfl) (inert' _ rfl) child
      refine ⟨answer, ?_⟩
      simp only [inside_map, Option.map_some, (Json.content_object_eq_iff _ _).mpr left]
    · obtain ⟨answer, left⟩ := overMaps_content visit congr first second (inert _ rfl).item
        (inert' _ rfl).item items
      rw [inside_list, inside_list]
      split
      · exact ⟨answer, by simp only [Option.map_some, (Json.content_list_eq_iff _ _).mpr left]⟩
      · exact ⟨rfl, same⟩
    · exact ⟨rfl, rfl⟩

end Inside

/-- What becomes of a slot by one of two descents is not seen by the other. -/
structure Separate (declared : Bool) (op other : Descent)
    (visit visit' : Object → Change Object Bool) (slot : Option Json) : Prop where
  first : (op.inside declared visit (other.inside declared visit' slot).2).1 =
    (op.inside declared visit slot).1
  second : (other.inside declared visit' (op.inside declared visit slot).2).1 =
    (other.inside declared visit' slot).1
  same : (other.inside declared visit' (op.inside declared visit slot).2).2.map content =
    (op.inside declared visit (other.inside declared visit' slot).2).2.map content

section Separate

variable {declared : Bool} {op other : Descent} {visit visit' : Object → Change Object Bool}
  {slot : Option Json}

theorem Separate.symm (separate : Separate declared op other visit visit' slot) :
    Separate declared other op visit' visit slot :=
  ⟨separate.second, separate.first, separate.same.symm⟩

theorem separate_of_opened (vacant : slot = none ∨ slot = some .null)
    (opens : (declared && op.opens) = true) (shut : other.opens = false)
    (quiet : visit' [] = (.ok false, [])) (here : Independent visit visit' []) :
    Separate declared op other visit visit' slot := by
  obtain ⟨-, second, same⟩ := here
  rw [quiet] at second same
  have created : op.inside declared visit slot = ((visit []).1, some (.object (visit []).2)) := by
    rw [inside_vacant _ _ _ _ vacant, if_pos opens]
  have left : other.inside declared visit' slot = (.ok false, slot) := by
    rw [inside_vacant _ _ _ _ vacant, shut, Bool.and_false, if_neg Bool.false_ne_true]
  refine ⟨by rw [left], ?_, ?_⟩
  · rw [created, left, inside_map]
    exact second
  · rw [left, created, inside_map, Option.map_some, Option.map_some]
    exact congrArg some ((Json.content_object_eq_iff _ _).mpr same)

theorem separate_inside (quiet : op.opens = false → visit [] = (.ok false, []))
    (quiet' : other.opens = false → visit' [] = (.ok false, []))
    (each : ∀ child, Inert version (.object child) → Independent visit visit' child)
    (inert : ∀ x ∈ slot, x.Inert version) : Separate declared op other visit visit' slot := by
  rcases slot_cases slot with ⟨child, rfl⟩ | ⟨items, rfl⟩ | vacant | closed
  · obtain ⟨first, second, same⟩ := each child (inert _ rfl)
    refine ⟨first, second, ?_⟩
    simp only [inside_map, Option.map_some, (Json.content_object_eq_iff _ _).mpr same]
  · obtain ⟨first, second, same⟩ := overMaps_independent visit visit' items fun child member =>
      each child ((inert _ rfl).item _ member)
    have same := (Json.content_list_eq_iff _ _).mpr same
    cases spreads : op.spreads <;> cases spreads' : other.spreads
    all_goals
      constructor <;> simp only [inside_list, spreads, spreads', if_true, Bool.false_eq_true,
        if_false, first, second, Option.map_some, same]
  · cases opens : declared && op.opens <;> cases opens' : declared && other.opens
    · constructor <;> simp only [inside_vacant _ _ _ _ vacant, opens, opens', Bool.false_eq_true,
        if_false]
    · refine (separate_of_opened vacant opens' ?_ (quiet ?_) (each [] .empty).symm).symm
      all_goals simp_all
    · refine separate_of_opened vacant opens ?_ (quiet' ?_) (each [] .empty)
      all_goals simp_all
    · obtain ⟨first, second, same⟩ := each [] .empty
      have same := (Json.content_object_eq_iff _ _).mpr same
      constructor <;> simp only [inside_vacant _ _ _ _ vacant, opens, opens', if_true, inside_map,
        first, second, Option.map_some, same]
  · constructor <;> simp only [inside_closed _ _ _ _ closed]

end Separate

/-! ## Descents concern one key of a map -/

variable {op}

theorem run_cons (op : Descent) (key next : String) (rest : List String) (schema : Option Schema)
    (data : Object) : op.run (key :: next :: rest) schema data =
      let left := op.inside (declaresMap schema key)
        (op.run (next :: rest) (schema.bind fun s => s.child? key)) (Entries.get? data key)
      (left.1, store data key left.2) := by
  rw [run]

theorem inert_entry {data : Object} (inert : Inert version (.object data)) (key : String) :
    ∀ x ∈ Entries.get? data key, x.Inert version :=
  fun x there => inert.entry key x there

theorem inert_store {data : Object} {slot : Option Json} (inert : Inert version (.object data))
    (key : String) (named : version.function? key = none) (good : ∀ x ∈ slot, x.Inert version) :
    Inert version (.object (store data key slot)) := by
  cases slot with
  | none => exact inert
  | some value => exact inert.put key value named (good value rfl)

theorem contentAt_store (op : Descent) (declared : Bool) (visit : Object → Change Object Bool)
    (data : Object) (key : String) :
    contentAt (store data key (op.inside declared visit (Entries.get? data key)).2) key =
      (op.inside declared visit (Entries.get? data key)).2.map content := by
  rw [contentAt, get?_store]
  exact op.absent_of_inside declared visit _

theorem confined_run (lawful : op.Lawful version) (path : List String)
    (named : ∀ key ∈ path, version.function? key = none) (schema : Option Schema) :
    Confined version (op.reach path) (op.run path schema) := by
  induction path generalizing schema with
  | nil => exact ⟨fun _ _ _ _ => rfl, fun _ _ _ _ _ => ⟨rfl, fun _ member => by cases member⟩,
      fun _ inert => inert⟩
  | cons key path ih =>
    have keyNamed := named key (List.mem_cons_self ..)
    cases path with
    | nil => exact lawful.acts schema key keyNamed
    | cons next rest =>
      have below := ih (fun other member => named other (List.mem_cons_of_mem _ member))
        (schema.bind fun s => s.child? key)
      refine ⟨fun data inert other outside => ?_, fun first second inert inert' same => ?_,
        fun data inert => ?_⟩
      · rw [run_cons]
        exact get?_store_of_ne _ _ _ _ (by simpa [reach, eq_comm] using outside)
      · obtain ⟨answer, left⟩ := op.inside_content (declaresMap schema key) _
          (fun _ _ => below.congr) _ _ (inert_entry inert key) (inert_entry inert' key)
          (same key (List.mem_singleton_self key))
        refine ⟨answer, fun other member => ?_⟩
        rw [List.mem_singleton.mp member, run_cons, run_cons, contentAt_store, contentAt_store]
        exact left
      · rw [run_cons]
        exact inert_store inert key keyNamed
          (op.inside_inert _ _ below.keeps _ (inert_entry inert key))

/-! ## Paths that are apart -/

theorem quiet_run (lawful : op.Lawful version) (shut : op.opens = false) (path : List String)
    (schema : Option Schema) : op.run path schema [] = (.ok false, []) := by
  match path with
  | [] => rfl
  | [key] => exact lawful.quiet shut schema key
  | key :: next :: rest =>
    rw [run_cons, Entries.get?_nil, inside_vacant _ _ _ _ (.inl rfl), shut, Bool.and_false,
      if_neg Bool.false_ne_true]
    rfl

theorem footprint_cons (op : Descent) (key next : String) (rest : List String) :
    op.footprint (key :: next :: rest) = (op.footprint (next :: rest)).map (key :: ·) := by
  rw [footprint, footprint]
  cases op.beside <;> rfl

theorem mem_footprint_single {last key : String} (member : key ∈ op.reach [last]) :
    [key] ∈ op.footprint [last] := by
  rcases List.mem_cons.mp member with rfl | beside
  · exact List.mem_cons_self ..
  · refine List.mem_cons_of_mem _ ?_
    rw [Option.mem_toList] at beside ⊢
    rw [beside]
    rfl

theorem mem_footprint_of_reach {path : List String} {key : String} (member : key ∈ op.reach path) :
    ∃ rest, key :: rest ∈ op.footprint path := by
  match path with
  | [] => cases member
  | [last] => exact ⟨[], mem_footprint_single member⟩
  | first :: next :: rest =>
    rw [List.mem_singleton.mp member]
    exact ⟨next :: rest, List.mem_cons_self ..⟩

theorem run_store (op : Descent) (key next : String) (rest : List String) (schema : Option Schema)
    (data : Object) (slot : Option Json) (absent : slot = none → Entries.get? data key = none) :
    op.run (key :: next :: rest) schema (store data key slot) =
      let left := op.inside (declaresMap schema key)
        (op.run (next :: rest) (schema.bind fun s => s.child? key)) slot
      (left.1, store (store data key slot) key left.2) := by
  rw [run_cons, get?_store data key slot absent]

theorem contentAt_store_store (data : Object) (key : String) {first second last last' : Option Json}
    (same : last.map content = last'.map content)
    (absent : last = none → first = none) (absent' : last' = none → second = none)
    (missing : first = none → Entries.get? data key = none)
    (missing' : second = none → Entries.get? data key = none) :
    contentAt (store (store data key first) key last) =
      contentAt (store (store data key second) key last') := by
  funext other
  rw [contentAt, contentAt]
  by_cases here : key = other
  · subst here
    rw [get?_store _ _ _ fun gone => by rw [get?_store _ _ _ missing, absent gone],
      get?_store _ _ _ fun gone => by rw [get?_store _ _ _ missing', absent' gone], same]
  · rw [get?_store_of_ne _ _ _ _ here, get?_store_of_ne _ _ _ _ here,
      get?_store_of_ne _ _ _ _ here, get?_store_of_ne _ _ _ _ here]

/-- Descents on paths that are apart do not see each other. -/
theorem independent_run {other : Descent} (lawful : op.Lawful version)
    (lawful' : other.Lawful version) (path path' : List String)
    (named : ∀ key ∈ path, version.function? key = none)
    (named' : ∀ key ∈ path', version.function? key = none)
    (apart : ∀ p ∈ op.footprint path, ∀ q ∈ other.footprint path', Apart p q)
    (schema : Option Schema) (data : Object) (inert : Inert version (.object data)) :
    Independent (op.run path schema) (other.run path' schema) data := by
  induction path generalizing path' schema data with
  | nil => exact absurd List.nil_prefix (apart [] (List.mem_cons_self ..) path'
      (List.mem_cons_self ..)).1
  | cons key path ih =>
    have confined := confined_run lawful (key :: path) named schema
    have confined' := confined_run lawful' path' named' schema
    obtain ⟨key', path', rfl⟩ := (apart _ (List.mem_cons_self ..) _
      (List.mem_cons_self ..)).exists_cons
    match path, path' with
    | [], _ =>
      refine confined.independent confined' (fun k member member' => ?_) data inert
      obtain ⟨rest, among⟩ := mem_footprint_of_reach member'
      exact (apart _ (mem_footprint_single member) _ among).1 ⟨rest, rfl⟩
    | _, [] =>
      refine confined.independent confined' (fun k member member' => ?_) data inert
      obtain ⟨rest, among⟩ := mem_footprint_of_reach member
      exact (apart _ among _ (mem_footprint_single member')).2 ⟨rest, rfl⟩
    | next :: rest, next' :: rest' =>
      by_cases same : key = key'
      · subst same
        have below := fun child inertChild => ih (next' :: rest')
          (fun k member => named k (List.mem_cons_of_mem _ member))
          (fun k member => named' k (List.mem_cons_of_mem _ member))
          (fun p member q among => by
            refine Apart.of_cons (apart (key :: p) ?_ (key :: q) ?_)
            · exact footprint_cons op key next rest ▸ List.mem_map_of_mem member
            · exact footprint_cons other key next' rest' ▸ List.mem_map_of_mem among)
          (schema.bind fun s => s.child? key) child inertChild
        have separate : Separate (declaresMap schema key) op other _ _ (Entries.get? data key) :=
          separate_inside (fun shut => quiet_run lawful shut _ _)
            (fun shut => quiet_run lawful' shut _ _) below (inert_entry inert key)
        have absent := op.absent_of_inside (declaresMap schema key)
          (op.run (next :: rest) (schema.bind fun s => s.child? key)) (Entries.get? data key)
        have absent' := other.absent_of_inside (declaresMap schema key)
          (other.run (next' :: rest') (schema.bind fun s => s.child? key)) (Entries.get? data key)
        have alone := run_cons op key next rest schema data
        have alone' := run_cons other key next' rest' schema data
        constructor
        · rw [alone', run_store _ _ _ _ _ _ _ absent', alone]
          exact separate.first
        · rw [alone, run_store _ _ _ _ _ _ _ absent, alone']
          exact separate.second
        · rw [alone, alone', run_store _ _ _ _ _ _ _ absent, run_store _ _ _ _ _ _ _ absent']
          exact contentAt_store_store data key separate.same (other.absent_of_inside _ _ _)
            (op.absent_of_inside _ _ _) absent absent'
      · refine confined.independent confined' (fun k member member' => ?_) data inert
        exact same ((List.mem_singleton.mp member).symm.trans (List.mem_singleton.mp member'))

/-! ## Reading beside a descent -/

theorem readAt_run (lawful : op.Lawful version) (path : List String)
    (named : ∀ key ∈ path, version.function? key = none) (source : List String)
    (apart : ∀ p ∈ op.footprint path, Apart p source) (schema : Option Schema) (data : Object)
    (inert : Inert version (.object data)) :
    readAt source (op.run path schema data).2 = readAt source data := by
  induction source generalizing path schema data with
  | nil => rfl
  | cons key source ih =>
    by_cases reached : key ∈ op.reach path
    · match path, source with
      | [], _ => cases reached
      | [last], source =>
        exact absurd ⟨source, rfl⟩ (apart _ (mem_footprint_single reached)).1
      | first :: next :: rest, [] =>
        obtain rfl := List.mem_singleton.mp reached
        exact absurd ⟨next :: rest, rfl⟩ (apart _ (List.mem_cons_self ..)).2
      | first :: next :: rest, next' :: rest' =>
        obtain rfl := List.mem_singleton.mp reached
        have below := ih (next :: rest) (fun k member => named k (List.mem_cons_of_mem _ member))
          (fun p member => Apart.of_cons (apart (key :: p)
            (footprint_cons op key next rest ▸ List.mem_map_of_mem member)))
          (schema.bind fun s => s.child? key)
        rw [run_cons, readAt_cons, readAt_cons,
          get?_store _ _ _ (op.absent_of_inside _ _ _)]
        rcases slot_cases (Entries.get? data key) with ⟨child, here⟩ | ⟨items, here⟩ | vacant | closed
        · rw [here]
          exact below child (inert.entry key _ here)
        · rw [here, inside_list]
          by_cases spreads : op.spreads = true
          · rw [if_pos spreads]
          · rw [if_neg spreads]
        · rw [inside_vacant _ _ _ _ vacant]
          by_cases opened : (declaresMap schema key && op.opens) = true
          · -- the map that was created has nothing at the rest of the path
            rw [if_pos opened]
            refine ((below [] .empty).trans (readAt_empty _)).trans ?_
            rcases vacant with here | here <;> rw [here]
          · rw [if_neg opened]
        · rw [inside_closed _ _ _ _ closed]
    · have same := (confined_run lawful path named schema).frame data inert key reached
      exact readAt_of_get? key source same

end Descent

end Orchestration.Migration
