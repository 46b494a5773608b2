import Orchestration.Proofs.Entries
import Orchestration.Proofs.Watch.Reading
import Orchestration.Store.Memory

/-!
# Requests to a watch store

A request is one call to a watch store as a value.  The data points that a rule should have follow
from the requests made so far, and a store in memory has exactly these.
-/

set_option autoImplicit false

namespace Orchestration

open Watch

/-! ## Data points in order -/

namespace Instant

theorem le_iff (a b : Instant) :
    a.le b = true ↔ a.second < b.second ∨ (a.second = b.second ∧ a.nano ≤ b.nano) := by
  simp [le]

theorem le_trans (a b c : Instant) (first : a.le b = true) (second : b.le c = true) :
    a.le c = true := by
  rw [le_iff] at *
  omega

theorem le_total (a b : Instant) : (a.le b || b.le a) = true := by
  rw [Bool.or_eq_true, le_iff, le_iff]
  omega

end Instant

namespace Watch.Point

/-- The listed points are those appended, ordered by their times, and in the order of appending
where the times are equal. -/
structure Orders (listed appended : List Point) : Prop where
  each : listed.Perm appended
  times : listed.Pairwise fun a b => a.createdAt.le b.createdAt = true
  ties : ∀ time, listed.filter (fun point => point.createdAt = time) =
    appended.filter fun point => point.createdAt = time

theorem orders_inOrder (points : List Point) : Orders (inOrder points) points := by
  have trans (a b c : Point) := Instant.le_trans a.createdAt b.createdAt c.createdAt
  have total (a b : Point) := Instant.le_total a.createdAt b.createdAt
  have each : (inOrder points).Perm points := List.mergeSort_perm points _
  refine ⟨each, List.pairwise_mergeSort trans total points, fun time => ?_⟩
  -- the points of one time are in order already, so sorting leaves them as they stand
  have tied : (points.filter fun point => point.createdAt = time).Pairwise
      fun a b => a.createdAt.le b.createdAt = true := by
    apply List.pairwise_of_forall_mem_list
    intro a first b second
    simp only [List.mem_filter, decide_eq_true_eq] at first second
    rw [first.2, second.2, Instant.le_iff]
    omega
  have kept : (points.filter fun point => point.createdAt = time).Sublist (inOrder points) :=
    List.sublist_mergeSort trans total tied List.filter_sublist
  have within := kept.filter fun point => point.createdAt = time
  rw [List.filter_filter] at within
  simp only [Bool.and_self] at within
  exact (within.eq_of_length (each.filter _).length_eq.symm).symm

end Watch.Point

inductive WatchRequest where
  | putRule (record : Record)
  | getRule (name : String)
  | deleteRule (name : String)
  | listRules (stack : Option String)
  | appendData (name : String) (point : Point)
  | listData (name : String)
  deriving DecidableEq

inductive WatchReply where
  | done
  | deleted (existed : Bool)
  | rule (record : Record)
  | rules (records : List Record)
  | points (points : List Point)
  deriving DecidableEq

namespace WatchRequest

section Perform

variable {σ : Type} [WatchStore σ]

def perform (request : WatchRequest) (store : σ) : Except StoreError WatchReply × σ :=
  match request with
  | .putRule record =>
    let (answer, store) := WatchStore.putRule record store
    (answer.map fun _ => .done, store)
  | .getRule name => ((WatchStore.getRule name store).map .rule, store)
  | .deleteRule name =>
    let (answer, store) := WatchStore.deleteRule name store
    (answer.map .deleted, store)
  | .listRules stack => ((WatchStore.listRules stack store).map .rules, store)
  | .appendData name point =>
    let (answer, store) := WatchStore.appendData name point store
    (answer.map fun _ => .done, store)
  | .listData name => ((WatchStore.listData name store).map .points, store)

def serve (store : σ) : List WatchRequest → List (Except StoreError WatchReply) × σ
  | [] => ([], store)
  | request :: later =>
    let (answer, after) := request.perform store
    let (answers, last) := serve after later
    (answer :: answers, last)

end Perform

/-! ## The data points of a rule -/

def stores (name : String) : WatchRequest → Bool
  | .putRule record => record.name == name
  | _ => false

/-- The requests since the rule was created: those behind its last deletion, from the first that
stores a record of it. -/
def lifetime (name : String) (history : List WatchRequest) : List WatchRequest :=
  (history.reverse.takeWhile fun request => request != .deleteRule name).reverse.dropWhile
    fun request => !request.stores name

def appended? (name : String) : WatchRequest → Option Point
  | .appendData other point => if other = name then some point else none
  | _ => none

/-- The data points that the rule should have after a history, in the order of appending; none if
there should be no rule. -/
def points? (name : String) (history : List WatchRequest) : Option (List Point) :=
  if lifetime name history = [] then none
  else some ((lifetime name history).filterMap (appended? name))

theorem lifetime_delete (name : String) (history : List WatchRequest) :
    lifetime name (history ++ [.deleteRule name]) = [] := by
  simp [lifetime]

theorem lifetime_other (name : String) (history : List WatchRequest) (request : WatchRequest)
    (other : request ≠ .deleteRule name) :
    lifetime name (history ++ [request]) =
      if lifetime name history = [] then (if request.stores name then [request] else [])
      else lifetime name history ++ [request] := by
  have kept : (request != .deleteRule name) = true := bne_iff_ne.mpr other
  rw [lifetime, List.reverse_append, List.reverse_singleton, List.singleton_append,
    List.takeWhile_cons, kept, if_pos rfl, List.reverse_cons, List.dropWhile_append, ← lifetime]
  simp only [List.isEmpty_iff]
  by_cases created : request.stores name = true
  · simp [created]
  · simp [created]

def track (name : String) (before : Option (List Point)) : WatchRequest → Option (List Point)
  | .putRule record => if record.name = name then some (before.getD []) else before
  | .deleteRule other => if other = name then none else before
  | .appendData other point => if other = name then before.map (· ++ [point]) else before
  | _ => before

theorem points?_concat (name : String) (history : List WatchRequest) (request : WatchRequest) :
    points? name (history ++ [request]) = track name (points? name history) request := by
  by_cases deleted : request = .deleteRule name
  · subst deleted
    rw [points?, lifetime_delete, if_pos rfl, track, if_pos rfl]
  · rw [points?, points?, lifetime_other name history request deleted]
    generalize lifetime name history = life
    by_cases fresh : life = []
    · rw [if_pos fresh, if_pos fresh]
      cases request with
      | putRule record =>
        by_cases same : record.name = name <;> simp [stores, track, same, appended?]
      | _ => simp [stores, track]
    · rw [if_neg fresh, if_neg fresh, if_neg (by simp), List.filterMap_append]
      generalize life.filterMap (appended? name) = points
      cases request with
      | putRule record => simp [track, appended?]
      | deleteRule other =>
        have apart : other ≠ name := fun same => deleted (same ▸ rfl)
        simp [track, appended?, apart]
      | appendData other point => by_cases same : other = name <;> simp [track, appended?, same]
      | _ => simp [track, appended?]

/-! ## Requests that a file-backed store can keep -/

/-- The name is accepted as a key, and the file of its data points can have it. -/
def Nameable (name : String) : Prop :=
  keyFault? name = none ∧ (name ++ ".jsonl").utf8ByteSize ≤ 255

instance (name : String) : Decidable (Nameable name) :=
  inferInstanceAs (Decidable (_ ∧ _))

def Storable : WatchRequest → Prop
  | .putRule record => Nameable record.name ∧ record.Storable
  | .appendData name point => Nameable name ∧ point.Storable
  | .getRule name | .deleteRule name | .listData name => Nameable name
  | .listRules _ => True

end WatchRequest

/-! ## Stores in memory -/

namespace MemoryStore

structure Keepable (name : String) (rule : Record × List Point) : Prop where
  nameable : WatchRequest.Nameable name
  named : rule.1.name = name
  record : rule.1.Storable
  points : ∀ point ∈ rule.2, point.Storable

structure Orderly (store : MemoryStore) : Prop where
  sorted : Entries.Sorted store.rules
  keepable : ∀ name rule, Entries.get? store.rules name = some rule → Keepable name rule

theorem orderly_empty : Orderly empty := by
  refine ⟨Entries.sorted_nil, fun name rule found => ?_⟩
  cases found

theorem Orderly.insert {store : MemoryStore} (orderly : Orderly store) (name : String)
    (rule : Record × List Point) (kept : Keepable name rule) :
    Orderly { store with rules := Entries.insert store.rules name rule } := by
  refine ⟨Entries.sorted_insert orderly.sorted name rule, fun other found there => ?_⟩
  rw [Entries.get?_insert] at there
  split at there
  · rename_i same
    cases there
    exact same ▸ kept
  · exact orderly.keepable other found there

theorem Orderly.remove {store : MemoryStore} (orderly : Orderly store) (name : String) :
    Orderly { store with rules := Entries.remove store.rules name } := by
  have distinct := Entries.distinct_of_sorted orderly.sorted
  refine ⟨Entries.sorted_remove orderly.sorted name, fun other found there => ?_⟩
  rw [Entries.get?_remove store.rules distinct] at there
  split at there
  · cases there
  · exact orderly.keepable other found there

section Perform

variable {store : MemoryStore} (orderly : Orderly store) (request : WatchRequest)

include orderly

theorem points_perform (name : String) :
    (Entries.get? (request.perform store).2.rules name).map Prod.snd =
      request.track name ((Entries.get? store.rules name).map Prod.snd) := by
  have distinct := Entries.distinct_of_sorted orderly.sorted
  cases request with
  | putRule record =>
    simp only [WatchRequest.perform, WatchStore.putRule, putRule, Entries.get?_insert]
    by_cases same : record.name = name
    · subst same
      rw [WatchRequest.track, if_pos rfl, if_pos rfl]
      rfl
    · rw [WatchRequest.track, if_neg same, if_neg same]
  | deleteRule other =>
    simp only [WatchRequest.perform, WatchStore.deleteRule, deleteRule,
      Entries.get?_remove store.rules distinct, WatchRequest.track]
    split <;> rfl
  | appendData other point =>
    simp only [WatchRequest.perform, WatchStore.appendData, appendData, rule?, WatchRequest.track]
    cases found : Entries.get? store.rules other with
    | none =>
      by_cases same : other = name
      · subst same
        simp [found]
      · simp [same]
    | some rule =>
      simp only [Entries.get?_insert]
      by_cases same : other = name
      · subst same
        simp [found]
      · simp [same]
  | _ => rfl

theorem orderly_perform (storable : request.Storable) : Orderly (request.perform store).2 := by
  cases request with
  | putRule record =>
    refine orderly.insert record.name _ ⟨storable.1, rfl, storable.2, fun point member => ?_⟩
    cases found : Entries.get? store.rules record.name with
    | none => simp [found] at member
    | some rule =>
      rw [found] at member
      exact (orderly.keepable _ rule found).points point member
  | deleteRule name => exact orderly.remove name
  | appendData name point =>
    simp only [WatchRequest.perform, WatchStore.appendData, appendData, rule?]
    cases found : Entries.get? store.rules name with
    | none => exact orderly
    | some rule =>
      obtain ⟨nameable, named, record, points⟩ := orderly.keepable name rule found
      refine orderly.insert name _ ⟨nameable, named, record, fun other member => ?_⟩
      rcases List.mem_append.mp member with before | last
      · exact points other before
      · exact List.mem_singleton.mp last ▸ storable.2
  | _ => exact orderly

end Perform

theorem serve_points (store : MemoryStore) (orderly : Orderly store) (before : List WatchRequest)
    (history : List WatchRequest) (storable : ∀ request ∈ history, request.Storable)
    (points : ∀ name, (Entries.get? store.rules name).map Prod.snd =
      WatchRequest.points? name before) :
    Orderly (WatchRequest.serve store history).2 ∧
      ∀ name, (Entries.get? (WatchRequest.serve store history).2.rules name).map Prod.snd =
        WatchRequest.points? name (before ++ history) := by
  induction history generalizing store before with
  | nil => exact ⟨orderly, by simpa [WatchRequest.serve] using points⟩
  | cons request later ih =>
    have after := orderly_perform orderly request (storable request (List.mem_cons_self ..))
    have tracked (name : String) :
        (Entries.get? (request.perform store).2.rules name).map Prod.snd =
          WatchRequest.points? name (before ++ [request]) := by
      rw [points_perform orderly, points name, WatchRequest.points?_concat]
    have last := ih (request.perform store).2 after (before ++ [request])
      (fun other member => storable other (List.mem_cons_of_mem _ member)) tracked
    rwa [List.append_assoc, List.singleton_append] at last

theorem points_after (history : List WatchRequest)
    (storable : ∀ request ∈ history, request.Storable) :
    Orderly (WatchRequest.serve empty history).2 ∧
      ∀ name, (Entries.get? (WatchRequest.serve empty history).2.rules name).map Prod.snd =
        WatchRequest.points? name history :=
  serve_points empty orderly_empty [] history storable fun _ => rfl

end MemoryStore

end Orchestration
