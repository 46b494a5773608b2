import Orchestration.Proofs.Migration.Carrying
import Orchestration.Proofs.Migration.Replacing
import Orchestration.Proofs.Migration.Sources

/-!
# Where the maps in the properties come from

A map that stands somewhere after a rule stood there before, was created on the way to a target, or
is in the value that the rule wrote at its target.  Apart from that, the rule brought and took away
keys of its paths.
-/

set_option autoImplicit false

namespace Orchestration.Migration

open Json (Segment)

section Written

variable (context : Context) (rule : Rule) (root : Object)

/-- What a rule has for every target: its literal, or the populated value that its value path leads
to in the properties. -/
inductive Rule.Supplies : Json → Prop where
  | literal {value : Json} (given : rule.value = some value) : Supplies value
  | read {path : List String} {seen : Object} {value : Json} (reads : rule.valuePath = some path)
    (settles : Settled context rule [] (.object root) (.object seen))
    (there : (Json.object seen).along? path = some value) (populated : isPopulated value = true) :
    Supplies value

/-- What a rule has for its target in a map: the sibling there counts as well. -/
inductive Rule.Offers (held : Object) : Json → Prop where
  | supplied {value : Json} (supplies : rule.Supplies context root value) : Offers held value
  | sibling {name : String} {value : Json} (named : rule.valueName = some name)
    (there : Entries.get? held name = some value) : Offers held value

inductive Identified (finder : Finder) : Json → Json → Prop where
  | same (value : Json) : Identified finder value value
  | name {text id : String} (found : context.find finder text = .ok id) :
    Identified finder (.string text) (.string id)

inductive Ids (finder : Finder) : Json → Json → Prop where
  | single {text id : String} (found : context.find finder text = .ok id) :
    Ids finder (.string text) (.string id)
  | list {items ids : List Json} (each : List.Forall₂ (Identified context finder) items ids) :
    Ids finder (.list items) (.list ids)

/-- What a rule writes at its target in a map.  Items go behind those of the list that is there, and
ids take the place of names, also where a call comes to these. -/
inductive Rule.Writes (held : Object) (key : String) : Json → Prop where
  | replaced {value : Json} (replaces : rule.kind = .replace)
    (offers : rule.Offers context root held value) : Writes held key value
  | appended {value : Json} {present : List Json} (adds : rule.kind = .add)
    (there : Entries.get? held key = some (.list present) ∨ Vacant held key ∧ present = [])
    (offers : rule.Offers context root held value) :
    Writes held key (.list (present ++ itemsOf value))
  | resolved {finder : Finder} {current value ids : Json} (resolves : rule.kind = .resolve)
    (finds : rule.finder = some finder) (there : Entries.get? held key = some current)
    (stands : value = current ∨ context.resolve current = .ok value)
    (looked : Ids context finder value ids) : Writes held key ids

end Written

section Came

variable (context : Context) (rule : Rule) (schema : Schema) (root : Object) (front : List String)
  (before : Option Json)

/-- Where a map at a location comes from: it stood there before, the rule created an empty map there
on the way to its target, where nothing was, or it is in the value that the rule wrote at its
target. -/
inductive Came : List Segment → Object → Prop where
  | stood {location : List Segment} {held : Object}
    (there : before.bind (Json.part? location) = some (.object held)) : Came location held
  | opened {location : List Segment} (opens : rule.Opens schema (front ++ Segment.keys location))
    (vacant : before.bind (Json.part? location) = none ∨
      before.bind (Json.part? location) = some .null) : Came location []
  | written {above rest : List Segment} {held inner : Object} {key : String} {value : Json}
    (came : Came above held) (target : front ++ Segment.keys above ++ [key] = rule.path)
    (writes : rule.Writes context root held key value)
    (there : value.part? rest = some (.object inner)) : Came (above ++ .key key :: rest) inner

/-- Every map that stands somewhere afterwards came there, and only keys of the rule's paths are new
in it, or missing. -/
structure Rule.Traced (after : Option Json) : Prop where
  opened : before = none → after ≠ none → rule.Opens schema front
  maps : ∀ location left, after.bind (Json.part? location) = some (.object left) →
    ∃ held, Came context rule schema root front before location held ∧
      rule.Rekeys schema (front ++ Segment.keys location) held left

end Came

variable {context : Context} {rule : Rule} {schema : Schema} {root : Object}

theorem Rule.Supplies.sourced {value : Json} (supplies : rule.Supplies context root value) :
    rule.value ≠ none ∨ rule.valuePath ≠ none := by
  cases supplies with
  | literal given => exact .inl (by simp [given])
  | read reads => exact .inr (by simp [reads])

/-! ## What an act writes -/

section Acts

variable {source : Source} {data : Object} {key : String} {value : Json}
  (supplies : ∀ value, source.value = some value → rule.Supplies context root value)
include supplies

theorem offers_of_addition (given : addition rule source data = some value) :
    rule.Offers context root data value := by
  unfold addition at given
  split at given
  · rename_i name named
    split at given
    · cases given
    · cases given
    · rename_i present
      cases given
      exact .sibling named present
  · exact .supplied (supplies value given)

theorem writes_of_addTo (adds : rule.kind = .add) (below : Option Schema)
    (there : Entries.get? (addTo rule below source data key).2 key = some value) :
    Entries.get? data key = some value ∨ rule.Writes context root data key value := by
  rw [addTo_eq] at there
  split at there
  · exact .inl there
  · rename_i other given
    have offers := offers_of_addition supplies given
    split at there
    · rename_i items extends_
      rw [Entries.get?_put, if_pos rfl] at there
      cases there
      refine .inr ?_
      unfold extended at extends_
      split at extends_
      · rename_i present here
        cases extends_
        exact .appended adds (.inl here) offers
      iterate 2
        rename_i here
        split at extends_
        · cases extends_
          have vacant : Vacant data key := fun other same => by simp_all
          rw [← List.nil_append (itemsOf other)]
          exact .appended adds (.inr ⟨vacant, rfl⟩) offers
        · cases extends_
      · cases extends_
    · exact .inl there

theorem writes_of_replaceAt (replaces : rule.kind = .replace) (distinct : Entries.Distinct data)
    (there : Entries.get? (replaceAt rule source data key).2 key = some value) :
    Entries.get? data key = some value ∨ rule.Writes context root data key value := by
  have left : ∀ name, Entries.get? (Entries.erase data name) key = some value →
      Entries.get? data key = some value := by
    intro name stays
    rw [Entries.get?_erase data distinct] at stays
    split at stays
    · cases stays
    · exact stays
  have written : ∀ (held : Object) (other : Json), rule.Offers context root data other →
      Entries.get? (Entries.put held key other) key = some value →
      Entries.get? data key = some value ∨ rule.Writes context root data key value := by
    intro held other offers put
    rw [Entries.get?_put, if_pos rfl] at put
    cases put
    exact .inr (.replaced replaces offers)
  rw [replaceAt] at there
  split at there
  · rename_i name named
    simp only at there
    split at there
    · exact .inl there
    · split at there
      -- a sibling that is null, or none, makes room for the source
      iterate 2
        split at there
        · rename_i other sourced
          exact written _ other (.supplied (supplies other sourced)) there
        · exact .inl (left name there)
      · rename_i sibling _ present
        exact written _ sibling (.sibling named present) there
  · simp only at there
    split at there
    · exact .inl there
    · rename_i other sourced
      split at there
      · exact .inl there
      · exact written _ other (.supplied (supplies other sourced)) there

end Acts

section Ids

variable {finder : Finder}

theorem identified_of_findItem {value id : Json} (found : findItem context finder value = .ok id) :
    Identified context finder value id := by
  unfold findItem at found
  split at found
  · split at found
    · cases found
      exact .same _
    · obtain ⟨_, looked, same⟩ := (map_eq_ok_iff ..).mp found
      cases same
      exact .name looked
  · cases found
    exact .same _

theorem ids_of_findIds {value ids : Json} (found : findIds context finder value = .ok (some ids)) :
    Ids context finder value ids := by
  unfold findIds at found
  split at found
  · rename_i text
    split at found
    · cases found
    · rename_i named
      obtain ⟨value, item, same⟩ := (map_eq_ok_iff ..).mp found
      cases same
      rw [findItem, if_neg named] at item
      obtain ⟨id, known, rfl⟩ := (map_eq_ok_iff ..).mp item
      exact .single known
  · split at found
    · cases found
    · obtain ⟨_, looked, same⟩ := (map_eq_ok_iff ..).mp found
      cases same
      exact .list ((forall₂_of_mapM looked).imp fun _ _ => identified_of_findItem)
  · cases found

theorem writes_of_resolveAt (resolves : rule.kind = .resolve) {data : Object} {key : String}
    {value : Json} (there : Entries.get? (resolveAt context rule data key).2 key = some value) :
    Entries.get? data key = some value ∨ rule.Writes context root data key value := by
  unfold resolveAt at there
  split at there
  · rename_i finder current finds present
    split at there
    · exact .inl there
    · simp only at there
      split at there
      · exact .inl there
      · exact .inl there
      · rename_i ids looked
        rw [Entries.get?_put, if_pos rfl] at there
        cases there
        obtain ⟨held, stands, found⟩ := (bind_eq_ok_iff ..).mp looked
        refine .inr (.resolved resolves finds present ?_ (ids_of_findIds found))
        split at stands
        · exact .inr ((mapError_eq_ok_iff ..).mp stands)
        · cases stands
          exact .inl rfl
  · exact .inl there

end Ids

theorem writes_of_actAt {source : Source} {data : Object} {key : String} {value : Json}
    (supplies : ∀ value, source.value = some value → rule.Supplies context root value)
    (below : Option Schema) (distinct : Entries.Distinct data)
    (there : Entries.get? (actAt context rule below source data key).2 key = some value) :
    Entries.get? data key = some value ∨ rule.Writes context root data key value := by
  rw [actAt] at there
  cases kind : rule.kind with
  | add =>
    rw [kind] at there
    exact writes_of_addTo supplies kind below there
  | replace =>
    rw [kind] at there
    exact writes_of_replaceAt supplies kind distinct there
  | delete =>
    rw [kind] at there
    simp only [deleteAt, Entries.get?_erase data distinct, if_true] at there
    cases there
  | resolve =>
    rw [kind] at there
    exact writes_of_resolveAt kind there

/-! ## From the acts to the whole -/

variable {schema : Schema} {front : List String} {before : Option Json}

namespace Came

variable {location : List Segment} {held : Object}

theorem of_step {keys : List String} {next : Option Json} (segment : Segment)
    (leads : keys = front ++ Segment.keys [segment])
    (there : ∀ rest, before.bind (Json.part? (segment :: rest)) = next.bind (Json.part? rest))
    (came : Came context rule schema root keys next location held) :
    Came context rule schema root front before (segment :: location) held := by
  have deeper (rest : List Segment) :
      front ++ Segment.keys (segment :: rest) = keys ++ Segment.keys rest := by
    rw [leads, List.append_assoc]
    cases segment <;> rfl
  induction came with
  | stood here => exact .stood ((there _).trans here)
  | opened opens vacant => exact .opened (by rwa [deeper]) (by rwa [there])
  | written came target writes part ih =>
    rw [← deeper] at target
    exact ih.written target writes part

theorem of_opened (opens : rule.Opens schema front) (vacant : before = none ∨ before = some .null)
    (came : Came context rule schema root front (some (.object [])) location held) :
    Came context rule schema root front before location held := by
  have whole : before.bind (Json.part? []) = before := by cases before <;> rfl
  have nothing (segment : Segment) (rest : List Segment) :
      before.bind (Json.part? (segment :: rest)) = none := by
    rcases vacant with rfl | rfl <;> cases segment <;> rfl
  induction came with
  | @stood location held there =>
    cases location with
    | nil =>
      cases there
      exact .opened (by rwa [Segment.keys, List.append_nil]) (by rwa [whole])
    | cons segment rest => cases segment <;> cases there
  | @opened location opens empty =>
    cases location with
    | nil => rcases empty with empty | empty <;> cases empty
    | cons segment rest => exact .opened opens (.inl (nothing segment rest))
  | written came target writes part ih => exact ih.written target writes part

end Came

namespace Rule.Traced

theorem refl (value : Option Json) : rule.Traced context schema root front value value where
  opened missing present := absurd missing present
  maps _ held there := ⟨held, .stood there, .refl _ held⟩

theorem of_actAt {source : Source}
    (supplies : ∀ value, source.value = some value → rule.Supplies context root value)
    {key : String} (target : front ++ [key] = rule.path) (below : Option Schema)
    (declared : declaredAt (some schema) rule.path = below.bind fun s => Entries.get? s key)
    {data : Object} (distinct : Entries.Distinct data) :
    rule.Traced context schema root front (some (.object data))
      (some (.object (actAt context rule below source data key).2)) := by
  have sourced : source.value ≠ none → rule.value ≠ none ∨ rule.valuePath ≠ none := by
    intro present
    obtain ⟨value, given⟩ := Option.ne_none_iff_exists'.mp present
    exact (supplies value given).sourced
  have start : Came context rule schema root front (some (.object data)) [] data := .stood rfl
  refine ⟨fun missing => (by cases missing), fun location left there => ?_⟩
  match location with
  | [] =>
    cases there
    refine ⟨data, start, ?_⟩
    rw [Segment.keys, List.append_nil]
    exact (Reshapes.of_actAt target distinct below source sourced declared).toRekeys
  | .key name :: rest =>
    have entry : (Entries.get? (actAt context rule below source data key).2 name).bind
        (Json.part? rest) = some (.object left) := there
    obtain ⟨value, here, part⟩ := Option.bind_eq_some_iff.mp entry
    refine ⟨left, ?_, .refl _ left⟩
    have stays : Entries.get? data name = some value →
        Came context rule schema root front (some (.object data)) (.key name :: rest) left :=
      fun same => .stood (by simpa [Json.part?, same] using part)
    by_cases same : key = name
    · subst same
      rcases writes_of_actAt supplies below distinct here with kept | writes
      · exact stays kept
      · exact start.written (by rwa [Segment.keys, List.append_nil]) writes part
    · rcases get?_actAt context rule below source data key distinct name same with
        kept | ⟨gone, -⟩
      · exact stays (kept.symm.trans here)
      · cases gone.symm.trans here
  | .item i :: rest => cases there

theorem of_opened (opens : rule.Opens schema front)
    (vacant : before = none ∨ before = some .null) {after : Object}
    (inside : rule.Traced context schema root front (some (.object [])) (some (.object after))) :
    rule.Traced context schema root front before (some (.object after)) where
  opened _ _ := opens
  maps location left there := by
    obtain ⟨held, came, rekeys⟩ := inside.maps location left there
    exact ⟨held, came.of_opened opens vacant, rekeys⟩

theorem of_entry {key : String} {data left : Object} {after : Json}
    (here : rule.Traced context schema root (front ++ [key]) (Entries.get? data key) (some after))
    (others : ∀ other, key ≠ other → Entries.get? left other = Entries.get? data other) :
    rule.Traced context schema root front (some (.object data))
      (some (.object (Entries.put left key after))) := by
  refine ⟨fun missing => (by cases missing), fun location found there => ?_⟩
  match location with
  | [] =>
    cases there
    refine ⟨data, .stood rfl, ?_⟩
    rw [Segment.keys, List.append_nil]
    refine ⟨fun other absent present => ?_, fun other present absent => ?_⟩
    · rw [Entries.get?_put] at present
      split at present
      · rename_i same
        subst same
        exact .creates (.opens (here.opened absent (by simp)))
      · rename_i apart
        exact absurd ((others other apart).trans absent) present
    · rw [Entries.get?_put] at absent
      split at absent
      · cases absent
      · rename_i apart
        exact absurd ((others other apart).symm.trans absent) present
  | .key name :: rest =>
    have slot : (Entries.get? (Entries.put left key after) name).bind (Json.part? rest) =
        some (.object found) := there
    obtain ⟨value, entry, part⟩ := Option.bind_eq_some_iff.mp slot
    rw [Entries.get?_put] at entry
    split at entry
    · rename_i same
      subst same
      cases entry
      obtain ⟨held, came, rekeys⟩ := here.maps rest found part
      refine ⟨held, came.of_step (.key key) rfl fun _ => rfl, ?_⟩
      rwa [List.append_assoc] at rekeys
    · rename_i apart
      rw [others name apart] at entry
      exact ⟨found, .stood (by simpa [Json.part?, entry] using part), .refl _ found⟩
  | .item i :: rest => cases there

theorem of_list {before after : List Json}
    (pairs : List.Forall₂ (fun x y => rule.Traced context schema root front (some x) (some y) ∧
      (y = x ∨ ∃ first second, x = .object first ∧ y = .object second)) before after) :
    rule.Traced context schema root front (some (.list before)) (some (.list after)) := by
  refine ⟨fun missing => (by cases missing), fun location found there => ?_⟩
  match location with
  | [] => cases there
  | .key name :: rest => cases there
  | .item i :: rest =>
    have slot : after[i]?.bind (Json.part? rest) = some (.object found) := there
    obtain ⟨y, item, part⟩ := Option.bind_eq_some_iff.mp slot
    obtain ⟨-, missing⟩ | ⟨x, z, first, second, traced, -⟩ := forall₂_getElem? pairs i
    · cases missing.symm.trans item
    · cases second.symm.trans item
      obtain ⟨held, came, rekeys⟩ := traced.maps rest found part
      refine ⟨held, came.of_step (.item i) (List.append_nil _).symm fun rest => ?_, rekeys⟩
      simp [Json.part?, first]

theorem carries {source : Source}
    (supplies : ∀ value, source.value = some value → rule.Supplies context root value) :
    rule.Carries context schema source (rule.Traced context schema root) where
  same _ := refl
  act := of_actAt supplies
  opened opens _ vacant _ inside := of_opened opens vacant inside
  entry _ _ _ _ here others := of_entry here others
  list _ _ _ pairs := of_list pairs

end Rule.Traced

/-! ## Taking away the source -/

/-- What may be left of a map at a location when the source at a path was taken away. -/
structure Robbed (path : List String) (location : List Segment) (held left : Object) : Prop where
  absent : ∀ key, Entries.get? held key = none → Entries.get? left key = none
  gone : ∀ key, Entries.get? held key ≠ none → Entries.get? left key = none →
    Segment.keys location ++ [key] = path

namespace Robbed

variable {path : List String} {location : List Segment} {held left : Object}

theorem of_keys (same : Entries.keys left = Entries.keys held) : Robbed path location held left := by
  have alike (key : String) : Entries.get? left key = none ↔ Entries.get? held key = none := by
    rw [Entries.get?_eq_none_iff, Entries.get?_eq_none_iff, same]
  exact ⟨fun key => (alike key).mpr, fun key present gone => absurd ((alike key).mp gone) present⟩

theorem rekeys (robbed : Robbed path location held left) (replaces : rule.kind = .replace)
    (reads : rule.valuePath = some path) {start : Object}
    (rekeyed : rule.Rekeys schema (Segment.keys location) start held) :
    rule.Rekeys schema (Segment.keys location) start left where
  brought key missing present := rekeyed.brought key missing (mt (robbed.absent key) present)
  taken key present gone := by
    by_cases held : Entries.get? held key = none
    · exact rekeyed.taken key present held
    · exact .source (by rw [robbed.gone key held gone, reads]) replaces

end Robbed

theorem keys_removeAt (key next : String) (rest : List String) (data : Object) :
    Entries.keys (removeAt (key :: next :: rest) data) = Entries.keys data := by
  rw [removeAt]
  split
  · rename_i child here
    exact Entries.keys_put_of_present data key _ _ here
  · rfl

theorem robbed_removeAt (path : List String) (data : Object) (good : (Json.object data).WellFormed)
    (location : List Segment) (left : Object)
    (there : (Json.object (removeAt path data)).part? location = some (.object left)) :
    ∃ held, (Json.object data).part? location = some (.object held) ∧
      Robbed path location held left := by
  induction path generalizing data location with
  | nil => exact ⟨left, there, .of_keys rfl⟩
  | cons key rest ih =>
    match location with
    | .item i :: below => cases there
    | [] =>
      cases there
      refine ⟨data, rfl, ?_⟩
      cases rest with
      | nil =>
        have erased := Entries.get?_erase data good.distinct key
        refine ⟨fun other absent => ?_, fun other present gone => ?_⟩
        · rw [removeAt, erased, absent, ite_self]
        · rw [removeAt, erased] at gone
          split at gone
          · rename_i same
            rw [same]
            rfl
          · exact absurd gone present
      | cons next others => exact .of_keys (keys_removeAt key next others data)
    | .key name :: below =>
      have entry : (Entries.get? (removeAt (key :: rest) data) name).bind (Json.part? below) =
          some (.object left) := there
      cases rest with
      | nil =>
        rw [removeAt, Entries.get?_erase data good.distinct] at entry
        split at entry
        · cases entry
        · exact ⟨left, entry, .of_keys rfl⟩
      | cons next others =>
        rw [removeAt] at entry
        split at entry
        · rename_i child here
          rw [Entries.get?_put] at entry
          split at entry
          · rename_i same
            subst same
            obtain ⟨held, part, robbed⟩ := ih child (good.entry key _ here) below entry
            refine ⟨held, by simpa [Json.part?, here] using part, robbed.absent, ?_⟩
            exact fun other present gone => congrArg (key :: ·) (robbed.gone other present gone)
          · exact ⟨left, entry, .of_keys rfl⟩
        · exact ⟨left, entry, .of_keys rfl⟩

/-- Every map in the properties after a rule, whether it succeeds or not, came there from the
properties in which references on the way of the rule have given way to their values. -/
theorem Rule.execute_traced (parameters : context.WellFormed) (schema : Schema) (rule : Rule)
    (data : Object) (good : (Json.object data).WellFormed) :
    ∃ settled, Settled context rule [] (.object data) (.object settled) ∧
      rule.Traced context schema data [] (some (.object settled))
        (some (.object (rule.execute context schema data).2)) := by
  refine rule.execute_related parameters (fun replaces path reads before left leftGood traced => ?_)
    good fun found looked => Traced.carries fun value given => ?_
  · refine ⟨fun missing _ => traced.opened missing (by simp), fun location robbed there => ?_⟩
    obtain ⟨kept, part, lost⟩ := robbed_removeAt path left leftGood location robbed there
    obtain ⟨held, came, rekeyed⟩ := traced.maps location kept part
    exact ⟨held, came, lost.rekeys replaces reads rekeyed⟩
  · cases found with
    | none => exact .literal given
    | some other =>
      cases given
      obtain ⟨path, reads, there, populated⟩ := looked value rfl
      exact .read reads (.valueAt path reads data) there populated

end Orchestration.Migration
