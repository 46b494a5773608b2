import Orchestration.Proofs.Store.LockAgreement
import Orchestration.Proofs.Store.Watches

/-!
# File and memory watch stores answer alike

A prepared store and an empty one hold the same rules, and every request leaves them so.  The
answers are the same as well, but for the checksums that only a file-backed store puts into its
records.
-/

set_option autoImplicit false

namespace Orchestration

open Watch

/-! ## Answers up to checksums -/

namespace WatchReply

def sealed : WatchReply → WatchReply
  | .rule record => .rule record.sealed
  | .rules records => .rules (records.map Record.sealed)
  | reply => reply

def unsealed : WatchReply → WatchReply
  | .rule record => .rule { record with checksum := none }
  | .rules records => .rules (records.map fun record => { record with checksum := none })
  | reply => reply

theorem unsealed_sealed (reply : WatchReply) : reply.sealed.unsealed = reply.unsealed := by
  cases reply with
  | rules records =>
    rw [sealed, unsealed, unsealed, List.map_map]
    rfl
  | _ => rfl

end WatchReply

/-! ## Records in the order of their names -/

namespace Watch.Record

theorem mergeSort_eq {records ordered : List Record} (perm : records.Perm ordered)
    (strict : ordered.Pairwise fun a b => a.name < b.name) :
    records.mergeSort (fun a b => !(decide (b.name < a.name))) = ordered := by
  have trans (a b c : Record) (first : (!decide (b.name < a.name)) = true)
      (second : (!decide (c.name < b.name)) = true) : (!decide (c.name < a.name)) = true := by
    simp only [Bool.not_eq_true', decide_eq_false_iff_not] at *
    exact String.le_trans first second
  have total (a b : Record) : (!decide (b.name < a.name) || !decide (a.name < b.name)) = true := by
    simp only [Bool.or_eq_true, Bool.not_eq_true', decide_eq_false_iff_not]
    exact String.le_total a.name b.name
  have same := (List.mergeSort_perm records fun a b => !(decide (b.name < a.name))).trans perm
  have weak := List.pairwise_mergeSort trans total records
  have names : (ordered.map Record.name).Nodup :=
    List.pairwise_map.mpr (strict.imp Std.ne_of_lt)
  have apart := List.pairwise_map.mp ((same.map Record.name).nodup_iff.mpr names)
  have sorted := (weak.and apart).imp fun {a b} both => by
    obtain ⟨notAfter, different⟩ := both
    simp only [Bool.not_eq_true', decide_eq_false_iff_not] at notAfter
    exact Std.lt_of_le_of_ne notAfter different
  exact List.Perm.eq_of_pairwise (fun a b _ _ first second => absurd second (String.lt_asymm first))
    sorted strict same

end Watch.Record

namespace MemoryStore

variable {store : MemoryStore}

theorem pairwise_names (orderly : Orderly store) (stack : Option String) :
    ((store.rules.map fun entry => entry.2.1).filter (belongsTo stack)).Pairwise
      fun a b => a.name < b.name := by
  have names : (store.rules.map fun entry => entry.2.1.name) = Entries.keys store.rules := by
    apply List.map_congr_left
    intro entry member
    have distinct := Entries.distinct_of_sorted orderly.sorted
    have found := (Entries.get?_eq_some_iff store.rules distinct entry.1 entry.2).mpr member
    exact (orderly.keepable _ _ found).named
  have sorted := orderly.sorted
  rw [Entries.Sorted, ← names, List.pairwise_map] at sorted
  have records : (store.rules.map fun entry => entry.2.1).Pairwise fun a b => a.name < b.name :=
    List.pairwise_map.mpr sorted
  exact records.filter _

theorem listData_eq (store : MemoryStore) (name : String) :
    WatchStore.listData name store =
      match (Entries.get? store.rules name).map Prod.snd with
      | none => .error (.watchNotFound name)
      | some points => .ok (Point.inOrder points) := by
  simp only [WatchStore.listData, rule?]
  cases Entries.get? store.rules name <;> rfl

end MemoryStore

/-! ## Two stores in step -/

structure SameWatches (files : FileStore) (memory : MemoryStore) : Prop where
  holds : FileStore.Holds files.files (Entries.get? memory.rules)
  orderly : memory.Orderly

namespace SameWatches

variable {files : FileStore} {memory : MemoryStore} (same : SameWatches files memory)

include same

theorem listRules (stack : Option String) :
    WatchStore.listRules stack files = .ok
      (((memory.rules.map fun entry => entry.2.1).filter (belongsTo stack)).map Record.sealed) := by
  obtain ⟨holds, orderly⟩ := same
  have distinct := Entries.distinct_of_sorted orderly.sorted
  obtain ⟨names, listed, perm⟩ := holds.fileNames_perm orderly.sorted
  obtain ⟨entries, there, -, -⟩ := holds.records
  have present : files.files.present Layout.watchRules = true := by
    rw [Files.present, there]
  have each : (Entries.keys memory.rules).filterMap (FileStore.listed? files.files) =
      (memory.rules.map fun entry => entry.2.1).map Record.sealed := by
    have read : ∀ entry ∈ memory.rules, FileStore.listed? files.files entry.1 =
        some entry.2.1.sealed := by
      intro entry member
      have found := (Entries.get?_eq_some_iff memory.rules distinct entry.1 entry.2).mpr member
      have keepable := orderly.keepable _ _ found
      exact holds.listed?_stored entry.1 keepable.nameable.1 entry.2 found keepable.record
    rw [Entries.keys, List.filterMap_map, List.map_map]
    generalize memory.rules = rules at read
    induction rules with
    | nil => rfl
    | cons entry rules ih =>
      rw [List.filterMap_cons, Function.comp_apply, read entry (List.mem_cons_self ..),
        ih fun other member => read other (List.mem_cons_of_mem _ member)]
      rfl
  have found := (perm.filterMap (FileStore.listed? files.files)).filter (belongsTo stack)
  rw [each, List.filter_map] at found
  change FileStore.listRules stack files.files = _
  rw [FileStore.listRules, present, if_pos rfl, listed]
  refine congrArg Except.ok (Record.mergeSort_eq found ?_)
  exact List.pairwise_map.mpr (MemoryStore.pairwise_names orderly stack)

theorem getRule (name : String) (accepted : keyFault? name = none) :
    WatchStore.getRule name files = (WatchStore.getRule name memory).map Record.sealed := by
  have valid := isFileName_of_key accepted
  simp only [WatchStore.getRule, FileStore.getRule, validateKey_ok accepted, MemoryStore.rule?, bind,
    Except.bind]
  cases found : Entries.get? memory.rules name with
  | none =>
    rw [same.holds.readRule_missing name valid found]
    rfl
  | some rule =>
    have keepable := same.orderly.keepable name rule found
    rw [same.holds.readRule_stored name valid rule found keepable.record]
    rfl

theorem listData (name : String) (nameable : WatchRequest.Nameable name) :
    WatchStore.listData name files = WatchStore.listData name memory := by
  simp only [WatchStore.listData, MemoryStore.rule?]
  cases found : Entries.get? memory.rules name with
  | none =>
    rw [same.holds.listData_missing name nameable.1 found]
    rfl
  | some rule =>
    have keepable := same.orderly.keepable name rule found
    rw [same.holds.listData_stored name nameable rule found keepable.points]
    rfl

theorem perform (request : WatchRequest) (storable : request.Storable) :
    (request.perform files).1 = (request.perform memory).1.map WatchReply.sealed ∧
      SameWatches (request.perform files).2 (request.perform memory).2 := by
  have holds := same.holds
  have orderly := same.orderly
  have distinct := Entries.distinct_of_sorted orderly.sorted
  have after := MemoryStore.orderly_perform orderly request storable
  cases request with
  | putRule record =>
    obtain ⟨last, answered, kept⟩ := holds.putRule record storable.1.1
    rw [← FileStore.Rules.get?_insert] at kept
    simp only [WatchRequest.perform, WatchStore.putRule, answered]
    exact ⟨rfl, kept, after⟩
  | getRule name =>
    refine ⟨?_, same⟩
    simp only [WatchRequest.perform, same.getRule name storable.1]
    cases WatchStore.getRule name memory <;> rfl
  | deleteRule name =>
    obtain ⟨last, answered, kept⟩ := holds.deleteRule name storable
    rw [← FileStore.Rules.get?_remove memory.rules distinct] at kept
    simp only [WatchRequest.perform, WatchStore.deleteRule, answered]
    exact ⟨rfl, kept, after⟩
  | listRules stack =>
    refine ⟨?_, same⟩
    simp only [WatchRequest.perform, same.listRules]
    rfl
  | appendData name point =>
    simp only [WatchRequest.perform, WatchStore.appendData, MemoryStore.appendData,
      MemoryStore.rule?] at after ⊢
    cases found : Entries.get? memory.rules name with
    | none =>
      obtain ⟨last, answered, kept⟩ := holds.appendData_missing name point storable.1.1 found
      rw [answered]
      exact ⟨rfl, kept, orderly⟩
    | some rule =>
      obtain ⟨last, answered, kept⟩ := holds.appendData_stored name point storable.1 rule found
      rw [← FileStore.Rules.get?_insert] at kept
      rw [found] at after
      rw [answered]
      exact ⟨rfl, kept, after⟩
  | listData name =>
    refine ⟨?_, same⟩
    simp only [WatchRequest.perform, same.listData name storable]
    cases WatchStore.listData name memory <;> rfl

end SameWatches

/-! ## Histories -/

namespace WatchRequest

open FileStore (fresh)

theorem sameWatches_prepare (start : Instant) :
    SameWatches (FileStore.perform Layout.prepare (fresh start)).2 MemoryStore.empty := by
  have unlocked := (FileStore.ready_prepare start).unlocked
  rw [FileStore.perform_prepare_fresh] at unlocked ⊢
  exact ⟨⟨unlocked, ⟨[], rfl, List.nodup_nil, fun name => rfl⟩,
    ⟨[], rfl, List.nodup_nil, fun name => rfl⟩⟩, MemoryStore.orderly_empty⟩

theorem serve_same (files : FileStore) (memory : MemoryStore) (same : SameWatches files memory)
    (history : List WatchRequest) (storable : ∀ request ∈ history, request.Storable) :
    (serve files history).1 = (serve memory history).1.map (Except.map WatchReply.sealed) ∧
      SameWatches (serve files history).2 (serve memory history).2 := by
  induction history generalizing files memory with
  | nil => exact ⟨rfl, same⟩
  | cons request later ih =>
    obtain ⟨answer, after⟩ := same.perform request (storable request (List.mem_cons_self ..))
    obtain ⟨answers, last⟩ := ih _ _ after fun other member =>
      storable other (List.mem_cons_of_mem _ member)
    refine ⟨?_, last⟩
    simp only [serve, List.map_cons, answer, answers]

/-- File and memory watch stores are interchangeable: from a prepared store and an empty one they
answer every request alike, but for the checksums.  Whatever was asked before, rules are listed in
the order of their names, and the data points of a rule are those appended since it was last
created, each once, in the order of their times. -/
theorem files_answer_up_to_checksums (start : Instant) (history : List WatchRequest)
    (storable : ∀ request ∈ history, request.Storable) :
    let prepared := FileStore.perform Layout.prepare (fresh start)
    let files := serve prepared.2 history
    let memory := serve MemoryStore.empty history
    prepared.1 = .ok () ∧
      files.1.map (Except.map WatchReply.unsealed) =
        memory.1.map (Except.map WatchReply.unsealed) ∧
      (∀ stack, ∃ listed listed', WatchStore.listRules stack files.2 = .ok listed ∧
        WatchStore.listRules stack memory.2 = .ok listed' ∧
        listed.Pairwise (fun a b => a.name < b.name) ∧
        listed'.Pairwise fun a b => a.name < b.name) ∧
      ∀ name, Nameable name →
        match points? name history with
        | none => WatchStore.listData name files.2 = .error (.watchNotFound name) ∧
            WatchStore.listData name memory.2 = .error (.watchNotFound name)
        | some appended => ∃ listed, WatchStore.listData name files.2 = .ok listed ∧
            WatchStore.listData name memory.2 = .ok listed ∧ Point.Orders listed appended := by
  intro prepared files memory
  obtain ⟨answers, same⟩ := serve_same _ _ (sameWatches_prepare start) history storable
  obtain ⟨orderly, points⟩ := MemoryStore.points_after history storable
  refine ⟨rfl, ?_, fun stack => ?_, fun name nameable => ?_⟩
  · change (serve prepared.2 history).1.map _ = _
    rw [answers, List.map_map]
    apply List.map_congr_left
    intro answer _
    cases answer with
    | error e => rfl
    | ok reply => exact congrArg Except.ok (WatchReply.unsealed_sealed reply)
  · have ordered := MemoryStore.pairwise_names orderly stack
    exact ⟨_, _, same.listRules stack, rfl, List.pairwise_map.mpr ordered, ordered⟩
  · have listed := MemoryStore.listData_eq memory.2 name
    rw [points name] at listed
    have listed' := (same.listData name nameable).trans listed
    cases found : points? name history with
    | none =>
      rw [found] at listed listed'
      exact ⟨listed', listed⟩
    | some appended =>
      rw [found] at listed listed'
      exact ⟨_, listed', listed, Point.orders_inOrder appended⟩

def half : Finite64 :=
  ⟨false, 4503599627370496, -53, by decide⟩

theorem readsBack_half : (Binary64.finite half).ReadsBack := by
  have written : (Number.float half).text = ['0', '.', '5'] := by decide +kernel
  have value : NumberText.value? ⟨false, ['0'], some ['5'], none⟩ = some (.float half) := by
    decide +kernel
  refine ⟨⟨false, ['0'], some ['5'], none⟩, ?_, value⟩
  rw [written]
  rfl

def idleRecord : Record :=
  .fresh "idle" (some "app")
    ⟨"load", .average, .lessThan, .finite half, 60, some 2, none, some ["page"], none⟩ .epoch

def minute : Point :=
  ⟨(Instant.epoch.add? (Span.ofSeconds 60)).getD .epoch,
    Samples.empty.insert "load" ⟨.finite half, none⟩⟩

def firstMinute : Point :=
  ⟨.epoch, Samples.empty⟩

/-- The rule is deleted with its first point and created again; the points come late. -/
def recreation : List WatchRequest :=
  [.appendData "idle" minute, .putRule idleRecord, .appendData "idle" firstMinute,
    .deleteRule "idle", .putRule idleRecord, .appendData "idle" minute,
    .appendData "idle" firstMinute, .getRule "idle", .listRules (some "app")]

theorem storable_recreation : ∀ request ∈ recreation, request.Storable := by
  have idle : Nameable "idle" := by decide
  have record : idleRecord.Storable := by
    refine ⟨readsBack_half, by decide, ?_⟩
    rintro _ ⟨⟩
    decide
  have late : minute.Storable := by
    intro sample member
    rw [List.mem_singleton.mp member]
    exact readsBack_half
  have early : firstMinute.Storable := by
    intro sample member
    cases member
  intro request member
  simp only [recreation, List.mem_cons, List.not_mem_nil, or_false] at member
  rcases member with rfl | rfl | rfl | rfl | rfl | rfl | rfl | rfl | rfl
  · exact ⟨idle, late⟩
  · exact ⟨idle, record⟩
  · exact ⟨idle, early⟩
  · exact idle
  · exact ⟨idle, record⟩
  · exact ⟨idle, late⟩
  · exact ⟨idle, early⟩
  · exact idle
  · trivial

theorem files_answer_in_recreation :
    let files := serve (FileStore.perform Layout.prepare (fresh .epoch)).2 recreation
    (∀ request ∈ recreation, request.Storable) ∧
      files.1.map (Except.map WatchReply.unsealed) =
        [.error (.watchNotFound "idle"), .ok .done, .ok .done, .ok (.deleted true), .ok .done,
          .ok .done, .ok .done, .ok (.rule idleRecord), .ok (.rules [idleRecord])] ∧
      ∃ listed, WatchStore.listData "idle" files.2 = .ok listed ∧
        Point.Orders listed [minute, firstMinute] := by
  obtain ⟨-, answers, -, data⟩ :=
    files_answer_up_to_checksums .epoch recreation storable_recreation
  have points : points? "idle" recreation = some [minute, firstMinute] := by decide +kernel
  have listed := data "idle" (by decide)
  rw [points] at listed
  obtain ⟨listed, there, -, orders⟩ := listed
  refine ⟨storable_recreation, ?_, listed, there, orders⟩
  rw [answers]
  decide +kernel

end WatchRequest

end Orchestration
