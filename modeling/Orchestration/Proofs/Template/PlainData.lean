import Orchestration.Proofs.Json
import Orchestration.Proofs.Results
import Orchestration.Proofs.Template.Memory

/-!
# Plain data in templates

A value in which no map calls a function is read as a template that stands for itself: it settles on
the value, in every scope.
-/

set_option autoImplicit false

namespace Orchestration

/-- No map with one entry has the name of a function as its key, at any depth. -/
def Json.PlainIn (version : Version) (value : Json) : Prop :=
  ∀ name ∈ value.loneKeys, version.function? name = none

theorem Json.PlainIn.item {version : Version} {items : List Json}
    (plain : PlainIn version (.list items)) (x : Json) (member : x ∈ items) : PlainIn version x :=
  fun name lone => plain name (loneKeys_item items x member lone)

theorem Json.PlainIn.entry {version : Version} {entries : List (String × Json)}
    (plain : PlainIn version (.object entries)) (x : Json) (member : x ∈ entries.map Prod.snd) :
    PlainIn version x :=
  fun name lone => plain name (loneKeys_entry entries x member lone)

namespace Node

theorem parse_object_plain (version : Version) (entries : List (String × Json))
    (plain : (Json.object entries).PlainIn version) :
    parse version (.object entries) = (parseEntries version entries).map .map := by
  match entries with
  | [(name, value)] =>
    have unknown : version.function? name = none := plain name (by simp [Json.loneKeys])
    rw [parse, parseEntries, parseEntries]
    simp only [unknown]
    cases parse version value <;> rfl
  | [] => simp [parse]
  | _ :: _ :: _ => simp [parse]

theorem parseItems_settle (version : Version) (items : List Json)
    (each : ∀ x ∈ items, ∃ node, parse version x = .ok node ∧ ∀ scope, Settles scope node x) :
    ∃ nodes, parseItems version items = .ok nodes ∧
      ∀ scope, List.Forall₂ (Settles scope) nodes items := by
  induction items with
  | nil => exact ⟨[], by rw [parseItems], fun _ => .nil⟩
  | cons x rest ih =>
    obtain ⟨node, first, settles⟩ := each x (List.mem_cons_self ..)
    obtain ⟨nodes, more, others⟩ := ih fun y member => each y (List.mem_cons_of_mem _ member)
    exact ⟨node :: nodes, by simp [parseItems, first, more, bind, Except.bind],
      fun scope => .cons (settles scope) (others scope)⟩

theorem settles_of_plain (version : Version) (value : Json) (plain : value.PlainIn version) :
    ∃ node, parse version value = .ok node ∧ ∀ scope, Settles scope node value := by
  induction value using Json.parts_induction with
  | list items ih =>
    obtain ⟨nodes, read, settled⟩ :=
      parseItems_settle version items fun x member => ih x member (plain.item x member)
    refine ⟨.list nodes, by rw [parse, read]; rfl, fun scope => ?_⟩
    have ready := (resolveFirst_ready_iff scope unchecked nodes 0 items).mpr
      ⟨settled scope, fun _ _ _ => rfl⟩
    rw [Settles, outcome_list, Step.outcome_onValue, ready]
    rfl
  | object entries ih =>
    obtain ⟨nodes, read, settled⟩ := parseItems_settle version (entries.map Prod.snd)
      fun x member => ih x member (plain.entry x member)
    refine ⟨.map ((Entries.keys entries).zip nodes), ?_, fun scope => ?_⟩
    · rw [parse_object_plain version entries plain, parseEntries_eq, read]
      rfl
    · have length : nodes.length = (Entries.keys entries).length := by
        rw [(settled scope).length_eq, List.length_map, Entries.keys, List.length_map]
      have names : Entries.keys ((Entries.keys entries).zip nodes) = Entries.keys entries :=
        List.map_fst_zip (Nat.le_of_eq length.symm)
      have values : ((Entries.keys entries).zip nodes).map Prod.snd = nodes :=
        List.map_snd_zip (Nat.le_of_eq length)
      have ready := (resolveFirst_ready_iff scope unchecked nodes 0 (entries.map Prod.snd)).mpr
        ⟨settled scope, fun _ _ _ => rfl⟩
      rw [Settles, outcome_map, names, ← List.length_map (f := Prod.snd), values,
        Step.outcome_onValue, ready]
      simp only [Except.map, Entries.zip_keys_values]
  | _ => exact ⟨.literal _, by rw [parse] <;> simp, fun _ => by rw [Settles, resolve]; rfl⟩

end Node

end Orchestration
