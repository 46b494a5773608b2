import Orchestration.Proofs.Results
import Orchestration.Proofs.Watch.History
import Orchestration.Proofs.Watch.Requests

/-!
# A pass treats every rule on its own

Evaluating a rule reads and writes what the store has under its name, and nothing else.  So a pass
over all rules does with each of them what evaluating it alone does, also if the data points of some
rules cannot be read or their records cannot be stored: to the others it is as if these were not
there.
-/

set_option autoImplicit false

namespace Orchestration

open Watch

namespace MemoryStore

/-- What a store in memory can hold: rules in the order of their names, each under the name of its
record. -/
structure Named (store : MemoryStore) : Prop where
  sorted : Entries.Sorted store.rules
  named : ∀ name rule, Entries.get? store.rules name = some rule → rule.1.name = name

theorem named_empty : Named empty := by
  refine ⟨Entries.sorted_nil, fun name rule found => ?_⟩
  cases found

namespace Named

variable {store : MemoryStore} (named : Named store)

include named

theorem insert (name : String) (rule : Record × List Point) (own : rule.1.name = name) :
    Named { store with rules := Entries.insert store.rules name rule } := by
  refine ⟨Entries.sorted_insert named.sorted name rule, fun other found there => ?_⟩
  rw [Entries.get?_insert] at there
  split at there
  · rename_i same
    cases there
    exact own.trans same
  · exact named.named other found there

theorem remove (name : String) :
    Named { store with rules := Entries.remove store.rules name } := by
  have distinct := Entries.distinct_of_sorted named.sorted
  refine ⟨Entries.sorted_remove named.sorted name, fun other found there => ?_⟩
  rw [Entries.get?_remove store.rules distinct] at there
  split at there
  · cases there
  · exact named.named other found there

theorem perform (request : WatchRequest) : Named (request.perform store).2 := by
  cases request with
  | putRule record => exact named.insert record.name _ rfl
  | deleteRule name => exact named.remove name
  | appendData name point =>
    simp only [WatchRequest.perform, WatchStore.appendData, appendData, rule?]
    cases found : Entries.get? store.rules name with
    | none => exact named
    | some rule => exact named.insert name _ (named.named name rule found)
  | _ => exact named

theorem serve (history : List WatchRequest) : Named (WatchRequest.serve store history).2 := by
  induction history generalizing store with
  | nil => exact named
  | cons request later ih => exact ih (named.perform request)

theorem name_of_mem (entry : String × Record × List Point) (member : entry ∈ store.rules) :
    entry.2.1.name = entry.1 := by
  have distinct := Entries.distinct_of_sorted named.sorted
  exact named.named _ _ ((Entries.get?_eq_some_iff store.rules distinct entry.1 entry.2).mpr member)

end Named

def ruleRecords (store : MemoryStore) : List Record :=
  store.rules.map fun entry => entry.2.1

theorem Named.map_name_ruleRecords {store : MemoryStore} (named : Named store) :
    store.ruleRecords.map Record.name = Entries.keys store.rules := by
  rw [ruleRecords, List.map_map]
  exact List.map_congr_left named.name_of_mem

theorem Named.getRule_of_mem {store : MemoryStore} (named : Named store) (record : Record)
    (member : record ∈ store.ruleRecords) : WatchStore.getRule record.name store = .ok record := by
  obtain ⟨entry, held, rfl⟩ := List.mem_map.mp member
  have distinct := Entries.distinct_of_sorted named.sorted
  rw [getRule_eq_ok_iff, named.name_of_mem entry held]
  exact ⟨entry.2.2, (Entries.get?_eq_some_iff store.rules distinct entry.1 entry.2).mpr held⟩

theorem Named.name_mem_keys {store : MemoryStore} (named : Named store) (record : Record)
    (member : record ∈ store.ruleRecords) : record.name ∈ Entries.keys store.rules := by
  rw [← named.map_name_ruleRecords]
  exact List.mem_map_of_mem member

def keeping (store : MemoryStore) (kept : String → Bool) : MemoryStore :=
  { store with rules := store.rules.filter fun entry => kept entry.1 }

section Keeping

variable {store : MemoryStore} (named : Named store) (kept : String → Bool)

include named

theorem Named.keeping : Named (store.keeping kept) := by
  refine ⟨named.sorted.sublist (List.filter_sublist.map Prod.fst), fun name rule found => ?_⟩
  rw [MemoryStore.keeping, Entries.get?_filter] at found
  split at found
  · exact named.named name rule found
  · cases found

theorem Named.ruleRecords_keeping :
    (store.keeping kept).ruleRecords = store.ruleRecords.filter fun record => kept record.name := by
  rw [ruleRecords, ruleRecords, MemoryStore.keeping, List.filter_map]
  refine congrArg _ (List.filter_congr fun entry member => ?_)
  exact congrArg kept (named.name_of_mem entry member).symm

end Keeping

end MemoryStore

/-- A store in memory in which reading the data points of some rules, or storing their records,
always fails. -/
structure FaultyStore where
  inner : MemoryStore
  unread : String → Option StoreError
  unwritten : String → Option StoreError

namespace FaultyStore

instance : WatchStore FaultyStore where
  getRule name store := WatchStore.getRule name store.inner
  putRule record store :=
    match store.unwritten record.name with
    | some e => (.error e, store)
    | none =>
      let (result, inner) := WatchStore.putRule record store.inner
      (result, { store with inner := inner })
  deleteRule name store :=
    let (result, inner) := WatchStore.deleteRule name store.inner
    (result, { store with inner := inner })
  listRules stack store := WatchStore.listRules stack store.inner
  appendData name point store :=
    let (result, inner) := WatchStore.appendData name point store.inner
    (result, { store with inner := inner })
  listData name store :=
    match store.unread name with
    | some e => .error e
    | none => WatchStore.listData name store.inner

def faultless (store : MemoryStore) : FaultyStore :=
  ⟨store, fun _ => none, fun _ => none⟩

/-! ## What a store has under one name -/

structure SameAt (name : String) (store other : FaultyStore) : Prop where
  rule : Entries.get? store.inner.rules name = Entries.get? other.inner.rules name
  unread : store.unread name = other.unread name
  unwritten : store.unwritten name = other.unwritten name

theorem SameAt.refl (name : String) (store : FaultyStore) : SameAt name store store :=
  ⟨rfl, rfl, rfl⟩

theorem SameAt.trans {name : String} {store other third : FaultyStore}
    (first : SameAt name store other) (second : SameAt name other third) :
    SameAt name store third :=
  ⟨first.rule.trans second.rule, first.unread.trans second.unread,
    first.unwritten.trans second.unwritten⟩

structure Stays (name : String) (before after : FaultyStore) : Prop where
  others : ∀ other, other ≠ name → SameAt other after before
  keys : Entries.keys after.inner.rules = Entries.keys before.inner.rules

theorem Stays.refl (name : String) (store : FaultyStore) : Stays name store store :=
  ⟨fun other _ => .refl other store, rfl⟩

theorem listData_same {name : String} {store other : FaultyStore} (same : SameAt name store other) :
    WatchStore.listData name store = WatchStore.listData name other := by
  simp only [WatchStore.listData, MemoryStore.rule?, same.unread, same.rule]

theorem putRule_same {record : Record} {store other : FaultyStore}
    (same : SameAt record.name store other) :
    (WatchStore.putRule record store).1 = (WatchStore.putRule record other).1 ∧
      SameAt record.name (WatchStore.putRule record store).2
        (WatchStore.putRule record other).2 := by
  simp only [WatchStore.putRule, same.unwritten]
  cases other.unwritten record.name with
  | some e => exact ⟨rfl, same⟩
  | none =>
    refine ⟨rfl, ?_, same.unread, same.unwritten⟩
    simp only [MemoryStore.putRule, Entries.get?_insert, if_pos, same.rule]

theorem putRule_stays (record : Record) (store : FaultyStore)
    (sorted : Entries.Sorted store.inner.rules)
    (there : record.name ∈ Entries.keys store.inner.rules) :
    Stays record.name store (WatchStore.putRule record store).2 := by
  simp only [WatchStore.putRule]
  cases store.unwritten record.name with
  | some e => exact .refl _ store
  | none =>
    refine ⟨fun other apart => ⟨?_, rfl, rfl⟩, Entries.keys_insert_of_mem sorted _ _ there⟩
    simp only [MemoryStore.putRule, Entries.get?_insert, if_neg (Ne.symm apart)]

end FaultyStore

def Watch.Outcome.onStore {σ τ α : Type} (f : σ → τ) (outcome : Outcome σ α) : Outcome τ α :=
  ⟨outcome.result, outcome.rule, f outcome.store, outcome.dispatched⟩

namespace Watch.Rule

open FaultyStore (SameAt Stays faultless)

def alone {σ : Type} [WatchStore σ] (around : Surroundings) (now : Instant) (store : σ)
    (record : Record) : Outcome σ Unit :=
  Rule.evaluate around now ⟨record, true⟩ store

structure SameOutcome {α : Type} (name : String) (outcome other : Outcome FaultyStore α) :
    Prop where
  result : outcome.result = other.result
  rule : outcome.rule = other.rule
  store : SameAt name outcome.store other.store
  dispatched : outcome.dispatched = other.dispatched

/-! ## One rule -/

def written (clock : Instant) (rule : Rule) : Record :=
  if rule.stored then { rule.record with updatedAt := some clock } else rule.record

theorem name_written (clock : Instant) (rule : Rule) :
    (rule.written clock).name = rule.record.name := by
  unfold written
  split <;> rfl

theorem save_eq {σ : Type} [WatchStore σ] (clock : Instant) (rule : Rule) (store : σ) :
    rule.save clock store =
      match WatchStore.putRule (rule.written clock) store with
      | (.ok _, store) => ⟨.ok (), ⟨rule.written clock, true⟩, store, []⟩
      | (.error e, store) =>
        ⟨.error (.store e), { rule with record := rule.written clock }, store, []⟩ := rfl

section Same

variable (around : Surroundings) (now : Instant) {rule : Rule} {store other : FaultyStore}

theorem save_same (clock : Instant) (same : SameAt rule.record.name store other) :
    SameOutcome rule.record.name (rule.save clock store) (rule.save clock other) := by
  rw [← name_written clock] at same ⊢
  rw [save_eq, save_eq]
  obtain ⟨answer, after⟩ := FaultyStore.putRule_same same
  generalize WatchStore.putRule (rule.written clock) store = put at answer after
  generalize WatchStore.putRule (rule.written clock) other = put' at answer after
  obtain ⟨result, left⟩ := put
  obtain ⟨result', left'⟩ := put'
  cases answer
  cases result with
  | ok _ => exact ⟨rfl, rfl, after, rfl⟩
  | error e => exact ⟨rfl, rfl, after, rfl⟩

theorem data_same (same : SameAt rule.record.name store other) :
    rule.data store = rule.data other := by
  rw [data, data, FaultyStore.listData_same same]

theorem run_same (same : SameAt rule.record.name store other) :
    SameOutcome rule.record.name (rule.run around now store) (rule.run around now other) := by
  unfold run
  rw [data_same same]
  cases rule.data other with
  | error e => exact ⟨rfl, rfl, same, rfl⟩
  | ok points =>
    have name := (entered_fires around.progress now points rule).1.name
    simp only
    rw [← name] at same ⊢
    obtain ⟨result, saved, after, _⟩ := save_same around.clock same
    exact ⟨by simp only [result], saved, after, rfl⟩

theorem evaluate_same (same : SameAt rule.record.name store other) :
    SameOutcome rule.record.name (rule.evaluate around now store)
      (rule.evaluate around now other) := by
  unfold evaluate
  split
  · obtain ⟨result, ran, after, dispatched⟩ := run_same around now same
    exact ⟨by simp only [result], ran, after, dispatched⟩
  · exact ⟨rfl, rfl, same, rfl⟩

end Same

section Stays

variable (around : Surroundings) (now : Instant) (rule : Rule) (store : FaultyStore)
  (sorted : Entries.Sorted store.inner.rules)
  (there : rule.record.name ∈ Entries.keys store.inner.rules)

include sorted there

theorem save_stays (clock : Instant) :
    Stays rule.record.name store (rule.save clock store).store := by
  rw [← name_written clock] at there ⊢
  rw [save_eq]
  have stays := FaultyStore.putRule_stays (rule.written clock) store sorted there
  generalize WatchStore.putRule (rule.written clock) store = put at stays
  obtain ⟨result, left⟩ := put
  cases result with
  | ok _ => exact stays
  | error e => exact stays

theorem evaluate_stays :
    Stays rule.record.name store (rule.evaluate around now store).store := by
  unfold evaluate
  split
  · unfold run
    cases rule.data store with
    | error e => exact .refl _ store
    | ok points =>
      have name := (entered_fires around.progress now points rule).1.name
      rw [← name] at there ⊢
      exact save_stays _ store sorted there around.clock
  · exact .refl _ store

end Stays

section Fails

variable (store : FaultyStore)

theorem save_isOk_iff (clock : Instant) (rule : Rule) :
    (rule.save clock store).result.isOk = true ↔ store.unwritten rule.record.name = none := by
  rw [save_eq, ← name_written clock]
  simp only [WatchStore.putRule, MemoryStore.putRule]
  cases store.unwritten (rule.written clock).name <;> simp [Except.isOk, Except.toBool]

variable (record : Record) (there : record.name ∈ Entries.keys store.inner.rules)

include there

theorem data_isOk_iff :
    (data ⟨record, true⟩ store).isOk = true ↔ store.unread record.name = none := by
  obtain ⟨rule, found⟩ := (Entries.mem_keys_iff _ _).mp there
  unfold data
  simp only [WatchStore.listData, MemoryStore.rule?, found]
  cases store.unread record.name with
  | none => simp [Except.map, Except.isOk, Except.toBool]
  | some e => cases e <;> simp [Except.isOk, Except.toBool]

theorem alone_isOk_iff (around : Surroundings) (now : Instant) :
    (alone around now store record).result.isOk = true ↔
      (Rule.isDue now ⟨record, true⟩ = true →
        store.unread record.name = none ∧ store.unwritten record.name = none) := by
  unfold alone evaluate
  split
  · rename_i due
    rw [← data_isOk_iff store record there, due]
    unfold run
    cases data ⟨record, true⟩ store with
    | error e => simp [Except.map, Except.isOk, Except.toBool]
    | ok points =>
      have name := (entered_fires around.progress now points ⟨record, true⟩).1.name
      have saved := save_isOk_iff store around.clock (entered around.progress now points
        ⟨record, true⟩).1
      rw [name] at saved
      simp only [true_implies, ← saved]
      cases (save around.clock _ store).result <;> simp [Except.map, Except.isOk, Except.toBool]
  · rename_i early
    simp [early, Except.isOk, Except.toBool]

end Fails

/-! ## A pass -/

theorem evaluateEach_cons {σ : Type} [WatchStore σ] (around : Surroundings) (now : Instant)
    (record : Record) (rest : List Record) (store : σ) :
    evaluateEach around now (record :: rest) store =
      let outcome := alone around now store record
      let later := evaluateEach around now rest outcome.store
      (if outcome.result.isOk then later.1 + 1 else later.1, later.2.1,
        outcome.dispatched ++ later.2.2) := by
  rw [evaluateEach]
  change _ = (if (alone around now store record).result.isOk then _ else _, _, _)
  rw [alone]
  cases (Rule.evaluate around now ⟨record, true⟩ store).result <;> rfl

/-- A pass over records did with each of them what evaluating it alone on another store does. -/
structure EachAlone (around : Surroundings) (now : Instant) (origin : FaultyStore)
    (records : List Record) (before : FaultyStore) (checked : Nat) (after : FaultyStore)
    (dispatched : List Dispatch) : Prop where
  checked : checked = records.countP fun record => (alone around now origin record).result.isOk
  dispatched : dispatched =
    records.flatMap fun record => (alone around now origin record).dispatched
  evaluated : ∀ record ∈ records, SameAt record.name after (alone around now origin record).store
  others : ∀ name, name ∉ records.map Record.name → SameAt name after before
  keys : Entries.keys after.inner.rules = Entries.keys before.inner.rules

theorem evaluateEach_alone (around : Surroundings) (now : Instant) (origin : FaultyStore)
    (records : List Record) (before : FaultyStore) (distinct : (records.map Record.name).Nodup)
    (sorted : Entries.Sorted before.inner.rules)
    (there : ∀ record ∈ records, record.name ∈ Entries.keys before.inner.rules)
    (same : ∀ record ∈ records, SameAt record.name before origin) :
    let pass := evaluateEach around now records before
    EachAlone around now origin records before pass.1 pass.2.1 pass.2.2 := by
  induction records generalizing before with
  | nil => exact ⟨rfl, rfl, by simp, fun name _ => .refl name before, rfl⟩
  | cons record rest ih =>
    rw [List.map_cons, List.nodup_cons] at distinct
    obtain ⟨first, apart⟩ := distinct
    have own := @evaluate_same around now ⟨record, true⟩ before origin
      (same record (List.mem_cons_self ..))
    have stays := evaluate_stays around now ⟨record, true⟩ before sorted
      (there record (List.mem_cons_self ..))
    have different : ∀ other ∈ rest, other.name ≠ record.name := by
      intro other member equal
      exact first (equal ▸ List.mem_map_of_mem member)
    -- the later rules see the store as it was, for the first one only changed its own
    have later := ih (alone around now before record).store apart
      (by rw [Entries.Sorted, alone, stays.keys]; exact sorted)
      (fun other member => by
        rw [alone, stays.keys]
        exact there other (List.mem_cons_of_mem _ member))
      (fun other member => (stays.others other.name (different other member)).trans
        (same other (List.mem_cons_of_mem _ member)))
    rw [evaluateEach_cons]
    have result : (alone around now before record).result.isOk =
        (alone around now origin record).result.isOk := congrArg Except.isOk own.result
    refine ⟨?_, ?_, fun other member => ?_, fun name outside => ?_, later.keys.trans stays.keys⟩
    · simp only [result, later.checked, List.countP_cons]
      split <;> rfl
    · rw [List.flatMap_cons, ← later.dispatched]
      exact congrArg (· ++ _) own.dispatched
    · rcases List.mem_cons.mp member with rfl | behind
      · exact (later.others _ first).trans own.store
      · exact later.evaluated other behind
    · rw [List.map_cons, List.mem_cons, not_or] at outside
      exact (later.others name outside.2).trans (stays.others name outside.1)

theorem evaluateAll_alone (around : Surroundings) (now : Instant) (origin store : FaultyStore)
    (named : store.inner.Named)
    (same : ∀ record ∈ store.inner.ruleRecords, SameAt record.name store origin) :
    ∃ checked after dispatched, evaluateAll around now store = (.ok checked, after, dispatched) ∧
      EachAlone around now origin store.inner.ruleRecords store checked after dispatched := by
  have listed : WatchStore.listRules none store = .ok store.inner.ruleRecords := by
    simp [WatchStore.listRules, belongsTo, MemoryStore.ruleRecords]
  refine ⟨_, _, _, by rw [evaluateAll, listed], ?_⟩
  refine evaluateEach_alone around now origin store.inner.ruleRecords store ?_ named.sorted ?_ same
  · rw [named.map_name_ruleRecords]
    exact Entries.distinct_of_sorted named.sorted
  · exact named.name_mem_keys

/-! ## Stores without faults -/

section Faultless

variable (around : Surroundings) (now : Instant) (store : MemoryStore)

theorem evaluate_faultless (rule : Rule) :
    rule.evaluate around now (faultless store) =
      (rule.evaluate around now store).onStore faultless := by
  unfold evaluate run
  have data : rule.data (faultless store) = rule.data store := rfl
  rw [data]
  split
  · cases rule.data store <;> rfl
  · rfl

theorem evaluateEach_faultless (records : List Record) :
    evaluateEach around now records (faultless store) =
      ((evaluateEach around now records store).1,
        faultless (evaluateEach around now records store).2.1,
        (evaluateEach around now records store).2.2) := by
  induction records generalizing store with
  | nil => rfl
  | cons record rest ih =>
    rw [evaluateEach_cons, evaluateEach_cons, alone, evaluate_faultless]
    simp only [Outcome.onStore, ih]
    rfl

theorem evaluateAll_faultless :
    evaluateAll around now (faultless store) =
      ((evaluateAll around now store).1, faultless (evaluateAll around now store).2.1,
        (evaluateAll around now store).2.2) := by
  simp only [evaluateAll, WatchStore.listRules]
  exact congrArg (fun pass => (Except.ok pass.1, pass.2))
    (evaluateEach_faultless around now store _)

theorem evaluateAll_memory (origin : FaultyStore) (named : store.Named)
    (same : ∀ record ∈ store.ruleRecords, SameAt record.name (faultless store) origin) :
    ∃ checked after dispatched, evaluateAll around now store = (.ok checked, after, dispatched) ∧
      EachAlone around now origin store.ruleRecords (faultless store) checked (faultless after)
        dispatched := by
  obtain ⟨checked, after, dispatched, made, each⟩ :=
    evaluateAll_alone around now origin (faultless store) named same
  rw [evaluateAll_faultless, Prod.mk.injEq, Prod.mk.injEq] at made
  obtain ⟨answer, rfl, rfl⟩ := made
  exact ⟨checked, _, _, Prod.ext answer rfl, each⟩

/-- In a store in memory a pass does with each rule what evaluating it alone does, and counts it. -/
theorem evaluateAll_eq_alone (named : store.Named) :
    let pass := evaluateAll around now store
    pass.1 = .ok store.rules.length ∧ Entries.keys pass.2.1.rules = Entries.keys store.rules ∧
      pass.2.2 = store.ruleRecords.flatMap
        (fun record => (alone around now store record).dispatched) ∧
      ∀ record ∈ store.ruleRecords, Entries.get? pass.2.1.rules record.name =
        Entries.get? (alone around now store record).store.rules record.name := by
  intro pass
  obtain ⟨checked, after, dispatched, made, each⟩ := evaluateAll_memory around now store
    (faultless store) named fun record _ => .refl record.name _
  change pass = _ at made
  rw [made]
  have plain (record : Record) : alone around now (faultless store) record =
      (alone around now store record).onStore faultless := evaluate_faultless around now store _
  refine ⟨?counted, each.keys, ?dispatched, fun record member => ?each⟩
  case counted =>
    have noFault : ∀ record ∈ store.ruleRecords,
        (alone around now (faultless store) record).result.isOk = true := by
      intro record member
      refine (alone_isOk_iff (faultless store) record ?_ around now).mpr fun _ => ⟨rfl, rfl⟩
      exact named.name_mem_keys record member
    rw [each.checked, List.countP_eq_length.mpr noFault, MemoryStore.ruleRecords, List.length_map]
  case dispatched =>
    rw [each.dispatched]
    exact congrArg (List.flatMap · store.ruleRecords) (funext fun record => by rw [plain]; rfl)
  case each =>
    have evaluated := (each.evaluated record member).rule
    rw [plain] at evaluated
    exact evaluated

end Faultless

/-- In a store in memory a pass does with each rule what evaluating it alone does, and counts it.
The same holds where the data points of some rules cannot be read or their records cannot be
stored, only that it counts the rules that do not fail then; and if any rules without these are
kept and all the others taken away, what it does with those that are kept is the same. -/
theorem pass_as_each_alone (around : Surroundings) (now : Instant) (store : MemoryStore)
    (named : store.Named) (unread unwritten : String → Option StoreError) :
    let pass := evaluateAll around now store
    let faulty : FaultyStore := ⟨store, unread, unwritten⟩
    let faultyPass := evaluateAll around now faulty
    (pass.1 = .ok store.rules.length ∧
      Entries.keys pass.2.1.rules = Entries.keys store.rules ∧
      pass.2.2 = store.ruleRecords.flatMap
        (fun record => (alone around now store record).dispatched) ∧
      ∀ record ∈ store.ruleRecords, Entries.get? pass.2.1.rules record.name =
        Entries.get? (alone around now store record).store.rules record.name) ∧
    faultyPass.1 = .ok (store.ruleRecords.countP fun record =>
        (alone around now faulty record).result.isOk) ∧
      Entries.keys faultyPass.2.1.inner.rules = Entries.keys store.rules ∧
      faultyPass.2.2 = store.ruleRecords.flatMap (fun record =>
        (alone around now faulty record).dispatched) ∧
      (∀ record ∈ store.ruleRecords, (alone around now faulty record).result.isOk = true ↔
        (Rule.isDue now ⟨record, true⟩ = true →
          unread record.name = none ∧ unwritten record.name = none)) ∧
      ∀ kept : String → Bool,
        (∀ name, kept name = true → unread name = none ∧ unwritten name = none) →
        let keptPass := evaluateAll around now (store.keeping kept)
        (∀ name, kept name = true → Entries.get? faultyPass.2.1.inner.rules name =
          Entries.get? keptPass.2.1.rules name) ∧
        keptPass.2.2 =
          (store.ruleRecords.filter fun record => kept record.name).flatMap fun record =>
            (alone around now faulty record).dispatched := by
  intro pass faulty faultyPass
  obtain ⟨checked, after, dispatched, made, each⟩ := evaluateAll_alone around now faulty faulty
    named fun record _ => .refl record.name faulty
  change faultyPass = _ at made
  rw [made]
  refine ⟨evaluateAll_eq_alone around now store named, congrArg _ each.checked, each.keys,
    each.dispatched, fun record member => ?failing, ?kept⟩
  case failing =>
    exact alone_isOk_iff faulty record (named.name_mem_keys record member) around now
  case kept =>
    intro kept sound keptPass
    have same : ∀ record ∈ (store.keeping kept).ruleRecords,
        SameAt record.name (faultless (store.keeping kept)) faulty := by
      intro record member
      rw [named.ruleRecords_keeping, List.mem_filter] at member
      obtain ⟨unread, unwritten⟩ := sound record.name member.2
      refine ⟨?_, unread.symm, unwritten.symm⟩
      exact (Entries.get?_filter ..).trans (if_pos member.2)
    obtain ⟨checked', after', dispatched', made', each'⟩ := evaluateAll_memory around now
      (store.keeping kept) faulty (named.keeping kept) same
    change keptPass = _ at made'
    rw [made']
    rw [named.ruleRecords_keeping] at each'
    refine ⟨fun name stays => ?_, each'.dispatched⟩
    by_cases listed : name ∈ store.ruleRecords.map Record.name
    · obtain ⟨record, member, rfl⟩ := List.mem_map.mp listed
      have member' : record ∈ store.ruleRecords.filter fun record => kept record.name :=
        List.mem_filter.mpr ⟨member, stays⟩
      exact (each.evaluated record member).rule.trans (each'.evaluated record member').rule.symm
    · have listed' :
          name ∉ (store.ruleRecords.filter fun record => kept record.name).map Record.name :=
        fun member => listed ((List.filter_sublist.map Record.name).subset member)
      have found : Entries.get? (store.keeping kept).rules name = Entries.get? store.rules name :=
        (Entries.get?_filter ..).trans (if_pos stays)
      exact (each.others name listed).rule.trans
        (found.symm.trans (each'.others name listed').rule.symm)

/-- Two rules that count a reading a minute; the first has one, and both are due after a minute. -/
def pairedStore : MemoryStore :=
  let quiet := Record.fresh "quiet" (some "app") busySpec .epoch
  let paired := (WatchStore.putRule quiet busyStore).2
  (WatchStore.appendData "busy" ⟨.epoch, Samples.empty.insert "load" ⟨.ofInt 7, none⟩⟩ paired).2

theorem pairedStore_named : pairedStore.Named := by
  have first := MemoryStore.named_empty.perform (.putRule busyRule.record)
  have second := first.perform (.putRule (Record.fresh "quiet" (some "app") busySpec .epoch))
  exact second.perform (.appendData "busy" _)

theorem pass_over_pairedStore :
    let around : Surroundings := ⟨fun _ => some ⟨.create, .complete⟩, .epoch⟩
    let now : Instant := ⟨60, 0, by decide, by decide, by decide⟩
    let unwritten := fun name => if name = "quiet" then some .io else none
    let faulty : FaultyStore := ⟨pairedStore, fun _ => none, unwritten⟩
    let kept := fun name => name == "busy"
    pairedStore.Named ∧ (∀ name, kept name = true → unwritten name = none) ∧
      (evaluateAll around now pairedStore).1 = .ok 2 ∧
      (evaluateAll around now pairedStore).2.2 = [⟨"app", "page"⟩] ∧
      (evaluateAll around now faulty).1 = .ok 1 ∧
      (evaluateAll around now faulty).2.2 = [⟨"app", "page"⟩] ∧
      Entries.get? (evaluateAll around now faulty).2.1.inner.rules "busy" =
        Entries.get? (evaluateAll around now (pairedStore.keeping kept)).2.1.rules "busy" := by
  intro around now unwritten faulty kept
  have sound : ∀ name, kept name = true → unwritten name = none := by
    intro name stays
    rw [eq_of_beq stays]
    rfl
  obtain ⟨⟨counted, -, dispatched, -⟩, faultyCount, -, faultyDispatched, -, isolated⟩ :=
    pass_as_each_alone around now pairedStore pairedStore_named (fun _ => none) unwritten
  have one : (pairedStore.ruleRecords.countP fun record =>
      (alone around now faulty record).result.isOk) = 1 := by decide +kernel
  have page : (pairedStore.ruleRecords.flatMap fun record =>
      (alone around now faulty record).dispatched) = [⟨"app", "page"⟩] := by decide +kernel
  have page' : (pairedStore.ruleRecords.flatMap fun record =>
      (alone around now pairedStore record).dispatched) = [⟨"app", "page"⟩] := by decide +kernel
  exact ⟨pairedStore_named, sound, counted, dispatched.trans page',
    faultyCount.trans (congrArg _ one),
    faultyDispatched.trans page,
    (isolated kept fun name stays => ⟨rfl, sound name stays⟩).1 "busy" rfl⟩

end Watch.Rule

end Orchestration
