import Orchestration.Proofs.Binary64.Integers
import Orchestration.Proofs.Json.Reading
import Orchestration.Proofs.Time.Rfc3339
import Orchestration.Watch.Record

/-!
# Watch records read back

A definition, a record and a data point are read from what is written of them, if their
floating-point numbers are finite and read back and their periods are exact.  Periods that were read
are.  A number that is not finite is written as null, and a definition is not read from that.
-/

set_option autoImplicit false

namespace Orchestration

def Binary64.ReadsBack : Binary64 → Prop
  | .finite x => (Number.float x).ReadsBack
  | _ => False

namespace Watch

theorem numberOrText?_ofBinary64 (x : Binary64) (back : x.ReadsBack) :
    numberOrText? (.ofJson (.ofBinary64 x)) = some x := by
  cases x with
  | finite x => rfl
  | infinite negative => cases back
  | nan => cases back

theorem readsBack_ofBinary64 (x : Binary64) (back : x.ReadsBack) :
    (Json.ofBinary64 x).ReadsBack := by
  cases x with
  | finite x => exact .number _ back
  | infinite negative => cases back
  | nan => cases back

theorem numberOrText?_not_finite (x : Binary64) (unbounded : x.isFinite = false) :
    numberOrText? (.ofJson (.ofBinary64 x)) = none := by
  cases x with
  | finite x => cases unbounded
  | infinite negative => rfl
  | nan => rfl

theorem readsBack_ofBinary64_of_finite (x : Binary64) (back : x.isFinite = true → x.ReadsBack) :
    (Json.ofBinary64 x).ReadsBack := by
  cases x with
  | finite x => exact readsBack_ofBinary64 _ (back rfl)
  | infinite negative => exact .null
  | nan => exact .null

/-! ## Numbers of seconds -/

def KeptSeconds (n : Nat) : Prop :=
  seconds? (.ofJson (.ofInt n)) = some n

theorem seconds?_ofInt (n : Nat) : seconds? (.ofJson (.ofInt n)) =
    (Binary64.ofInt n).natural?.map fun n => min n greatestSeconds := by
  have value : numberOrText? (.ofJson (.ofInt n)) = some (.ofInt n) := by
    rw [Json.ofInt, Raw.ofJson, numberOrText?, Number.toBinary64]
  rw [seconds?, value, Option.bind_eq_bind, Option.bind_some, Option.map_eq_bind]
  rfl

theorem keptSeconds_of_small (n : Nat) (small : n < 9007199254740992) : KeptSeconds n := by
  rw [KeptSeconds, seconds?_ofInt, Binary64.natural?_ofInt n small, Option.map_some, greatestSeconds,
    Nat.min_eq_left (by omega)]

/-- The greatest number of seconds is not a floating-point number: the next one is read for it, and
counts as the greatest again. -/
theorem keptSeconds_greatest : KeptSeconds greatestSeconds := by
  have next : (Binary64.ofInt (greatestSeconds : Nat)).natural? = some 18446744073709551616 := by
    decide +kernel
  rw [KeptSeconds, seconds?_ofInt, next]
  rfl

theorem keptSeconds_of_read (raw : Raw) (n : Nat) (read : seconds? raw = some n) :
    KeptSeconds n := by
  simp only [seconds?, Option.bind_eq_bind, Option.bind_eq_some_iff, Option.some.injEq] at read
  obtain ⟨value, -, whole, same, rfl⟩ := read
  rcases Nat.le_total whole greatestSeconds with below | above
  · rw [Nat.min_eq_left below, KeptSeconds, seconds?_ofInt,
      Binary64.natural?_ofInt_of_natural? value whole same, Option.map_some, Nat.min_eq_left below]
  · rw [Nat.min_eq_right above]
    exact keptSeconds_greatest

theorem KeptSeconds.le {n : Nat} (kept : KeptSeconds n) : n ≤ greatestSeconds := by
  rw [KeptSeconds, seconds?_ofInt] at kept
  obtain ⟨whole, -, rfl⟩ := Option.map_eq_some_iff.mp kept
  exact Nat.min_le_right ..

theorem KeptSeconds.readsBack {n : Nat} (kept : KeptSeconds n) : (Json.ofInt n).ReadsBack := by
  have bound := kept.le
  apply Json.ReadsBack.number
  apply Number.readsBack_integer
  simp only [Number.InRange]
  rw [greatestSeconds] at bound
  omega

/-! ## Texts -/

theorem readsBack_ofTexts (items : List String) : (Json.ofTexts items).ReadsBack := by
  apply Json.ReadsBack.list
  intro x member
  obtain ⟨s, -, rfl⟩ := List.mem_map.mp member
  exact .string s

theorem listOf?_ofTexts (items : List String) :
    (Raw.ofJson (.ofTexts items)).listOf? Raw.text? = some items := by
  induction items with
  | nil => rfl
  | cons s items ih =>
    change (Raw.ofItems (items.map .string)).mapM Raw.text? = some items at ih
    change (Raw.string (some s) :: Raw.ofItems (items.map .string)).mapM Raw.text? = _
    rw [List.mapM_cons, ih]
    rfl

theorem instant?_text (t : Instant) : instant? (.string (some t.text)) = some t := by
  rw [instant?, Raw.text?, Option.bind_some, Instant.ofText?_text]

/-! ## Fields that may be left out -/

namespace Spec

theorem keys_field (name : String) (value : Option Json) :
    (Entries.keys (field name value)).Sublist [name] := by
  cases value with
  | none => exact List.nil_sublist _
  | some value => exact List.Sublist.refl _

theorem get?_field (name other : String) (value : Option Json) :
    Entries.get? (field name value) other = if name = other then value else none := by
  cases value with
  | none => exact (ite_self none).symm
  | some value => rfl

theorem readsBack_field (name : String) (value : Option Json)
    (back : ∀ x ∈ value, x.ReadsBack) : ∀ x ∈ (field name value).map Prod.snd, x.ReadsBack := by
  intro x member
  cases value with
  | none => cases member
  | some value =>
    rw [List.mem_singleton.mp member]
    exact back value rfl

/-! ## Definitions -/

/-- The numbers of a definition are kept exactly by its text. -/
structure Storable (spec : Spec) : Prop where
  threshold : spec.threshold.ReadsBack
  period : spec.period < 9007199254740992
  evaluationPeriods : ∀ n ∈ spec.evaluationPeriods, n < 9007199254740992

structure KeepsPeriods (spec : Spec) : Prop where
  period : KeptSeconds spec.period
  evaluationPeriods : ∀ n ∈ spec.evaluationPeriods, KeptSeconds n

theorem Storable.keepsPeriods {spec : Spec} (storable : spec.Storable) : spec.KeepsPeriods where
  period := keptSeconds_of_small _ storable.period
  evaluationPeriods n given := keptSeconds_of_small n (storable.evaluationPeriods n given)

theorem keepsPeriods_of_read (raw : Raw) (spec : Spec) (read : ofRaw? raw = some spec) :
    spec.KeepsPeriods := by
  rw [ofRaw?] at read
  split at read
  · rename_i period evaluation _ _ _ _
    simp only [Option.bind_eq_bind, Option.bind_eq_some_iff] at read
    obtain ⟨_, -, _, -, _, -, _, -, seconds, found, rest⟩ := read
    have period := keptSeconds_of_read _ seconds found
    cases evaluation with
    | none =>
      simp only [Option.bind_some, Option.bind_eq_some_iff, Option.some.injEq] at rest
      obtain ⟨_, -, _, -, _, -, rfl⟩ := rest
      exact ⟨period, by simp⟩
    | some raw =>
      simp only [Option.bind_eq_some_iff, Option.map_eq_some_iff, Option.some.injEq] at rest
      obtain ⟨_, ⟨n, given, rfl⟩, _, -, _, -, _, -, rfl⟩ := rest
      refine ⟨period, ?_⟩
      rintro _ ⟨⟩
      exact keptSeconds_of_read raw n given
  · cases read

theorem keys_toJson (spec : Spec) (entries : Object) (written : spec.toJson = .object entries) :
    (Entries.keys entries).Sublist fieldNames := by
  cases written
  simp only [Entries.keys, List.map_append]
  have fixed : ["MetricName", "Statistic", "ComparisonOperator", "Threshold", "Period"].Sublist
      ["MetricName", "Statistic", "ComparisonOperator", "Threshold", "Period"] := .refl _
  exact (((fixed.append (keys_field ..)).append (keys_field ..)).append (keys_field ..)).append
    (keys_field ..)

theorem fields?_toJson (spec : Spec) : (Raw.ofJson spec.toJson).fields? fieldNames =
    some [some (.string (some spec.metricName)), some (.string (some spec.statistic.name)),
      some (.string (some spec.comparison.name)), some (.ofJson (.ofBinary64 spec.threshold)),
      some (.ofJson (.ofInt spec.period)),
      spec.evaluationPeriods.map fun (n : Nat) => .ofJson (.ofInt n),
      spec.alarmActions.map fun items => .ofJson (.ofTexts items),
      spec.okActions.map fun items => .ofJson (.ofTexts items),
      spec.insufficientDataActions.map fun items => .ofJson (.ofTexts items)] := by
  obtain ⟨entries, written⟩ : ∃ entries, spec.toJson = .object entries := ⟨_, rfl⟩
  rw [written, Raw.fields?_ofJson fieldNames entries (by decide) (keys_toJson spec entries written)]
  cases written
  simp only [fieldNames, List.map_cons, List.map_nil]
  simp only [Entries.get?_append, Entries.get?_cons, Entries.get?_nil, get?_field, String.reduceEq,
    ↓reduceIte, Option.none_or, Option.or_none, Option.map_some, Option.map_map]
  cases spec.evaluationPeriods <;> rfl

theorem actions?_ofTexts (items : Option (List String)) :
    actions? (items.map fun items => .ofJson (.ofTexts items)) = some items := by
  cases items with
  | none => rfl
  | some items => exact congrArg (Option.map some) (listOf?_ofTexts items)

theorem ofRaw?_toJson_eq (spec : Spec) (kept : spec.KeepsPeriods) : ofRaw? (.ofJson spec.toJson) =
    (numberOrText? (.ofJson (.ofBinary64 spec.threshold))).map fun threshold =>
      { spec with threshold := threshold } := by
  obtain ⟨metric, statistic, comparison, threshold, period, evaluation, alarm, ok, other⟩ := spec
  obtain ⟨exact, exactly⟩ := kept
  simp only [KeptSeconds] at exact exactly
  rw [ofRaw?, fields?_toJson]
  simp only [Raw.text?, Raw.name?, Option.bind_eq_bind, Option.bind_some, Option.map_some,
    Statistic.ofName?_name, Comparison.ofName_name, exact, actions?_ofTexts]
  cases numberOrText? (.ofJson (.ofBinary64 threshold)) with
  | none => rfl
  | some threshold =>
    cases evaluation with
    | none => rfl
    | some n => simp only [Option.map_some, exactly n rfl, Option.bind_some]

theorem ofRaw?_toJson (spec : Spec) (back : spec.threshold.ReadsBack) (kept : spec.KeepsPeriods) :
    ofRaw? (.ofJson spec.toJson) = some spec := by
  rw [ofRaw?_toJson_eq spec kept, numberOrText?_ofBinary64 _ back]
  rfl

theorem ofRaw?_toJson_not_finite (spec : Spec) (unbounded : spec.threshold.isFinite = false)
    (kept : spec.KeepsPeriods) : ofRaw? (.ofJson spec.toJson) = none := by
  rw [ofRaw?_toJson_eq spec kept, numberOrText?_not_finite _ unbounded]
  rfl

theorem readsBack_toJson (spec : Spec)
    (back : spec.threshold.isFinite = true → spec.threshold.ReadsBack) (kept : spec.KeepsPeriods) :
    spec.toJson.ReadsBack := by
  apply Json.ReadsBack.object
  intro x member
  simp only [List.map_append, List.mem_append, List.map_cons, List.map_nil, List.mem_cons,
    List.not_mem_nil, or_false] at member
  have texts (items : Option (List String)) : ∀ x ∈ items.map Json.ofTexts, x.ReadsBack := by
    intro x written
    obtain ⟨items, -, rfl⟩ := Option.map_eq_some_iff.mp written
    exact readsBack_ofTexts items
  rcases member with (((fixed | evaluation) | alarm) | ok) | insufficient
  · rcases fixed with rfl | rfl | rfl | rfl | rfl
    · exact .string _
    · exact .string _
    · exact .string _
    · exact readsBack_ofBinary64_of_finite _ back
    · exact kept.period.readsBack
  · refine readsBack_field _ _ ?_ x evaluation
    cases periods : spec.evaluationPeriods with
    | none => simp
    | some n =>
      rintro _ ⟨⟩
      exact (kept.evaluationPeriods n periods).readsBack
  · exact readsBack_field _ _ (texts _) x alarm
  · exact readsBack_field _ _ (texts _) x ok
  · exact readsBack_field _ _ (texts _) x insufficient

end Spec

/-! ## Readings -/

namespace Sample

theorem fields?_toJson (sample : Sample) : (Raw.ofJson sample.toJson).fields? ["Value", "Unit"] =
    some [some (.ofJson (.ofBinary64 sample.value)), sample.unit.map fun unit =>
      .string (some unit)] := by
  let entries : Object :=
    ("Value", .ofBinary64 sample.value) :: Spec.field "Unit" (sample.unit.map .string)
  have inOrder : (Entries.keys entries).Sublist ["Value", "Unit"] :=
    (Spec.keys_field "Unit" _).cons_cons "Value"
  rw [toJson, Raw.fields?_ofJson _ entries (by decide) inOrder]
  simp only [List.map_cons, List.map_nil, entries]
  simp only [Entries.get?_cons, Spec.get?_field, String.reduceEq, ↓reduceIte, Option.map_some,
    Option.map_map]
  rfl

theorem ofRaw?_toJson (sample : Sample) (back : sample.value.ReadsBack) :
    ofRaw? (.ofJson sample.toJson) = some sample := by
  obtain ⟨value, unit⟩ := sample
  rw [ofRaw?, fields?_toJson]
  simp only [numberOrText?_ofBinary64 value back, Option.bind_eq_bind, Option.bind_some]
  cases unit <;> rfl

theorem ofRaw?_toJson_not_finite (sample : Sample) (unbounded : sample.value.isFinite = false) :
    ofRaw? (.ofJson sample.toJson) = none := by
  rw [ofRaw?, fields?_toJson]
  simp only [numberOrText?_not_finite _ unbounded, Option.bind_eq_bind, Option.bind_none]

theorem readsBack_toJson (sample : Sample)
    (back : sample.value.isFinite = true → sample.value.ReadsBack) : sample.toJson.ReadsBack := by
  apply Json.ReadsBack.object
  intro x member
  rcases List.mem_cons.mp member with rfl | unit
  · exact readsBack_ofBinary64_of_finite _ back
  · refine Spec.readsBack_field _ _ ?_ x unit
    intro y written
    obtain ⟨unit, -, rfl⟩ := Option.map_eq_some_iff.mp written
    exact .string unit

end Sample

namespace Samples

def Storable (samples : Samples) : Prop :=
  ∀ sample ∈ samples.entries.map Prod.snd, sample.value.ReadsBack

theorem ofEntries?_ofEntries (before : Samples) (rest : Entries Sample)
    (sorted : Entries.Sorted (before.entries ++ rest))
    (back : ∀ sample ∈ rest.map Prod.snd, sample.value.ReadsBack) :
    ofEntries? before (Raw.ofEntries (Entries.mapValues Sample.toJson rest)) =
      some ⟨before.entries ++ rest, sorted⟩ := by
  induction rest generalizing before with
  | nil =>
    simp only [Entries.mapValues_nil, Raw.ofEntries, ofEntries?, List.append_nil]
  | cons entry rest ih =>
    obtain ⟨name, sample⟩ := entry
    have last : ∀ key ∈ Entries.keys before.entries, key < name := by
      intro key member
      rw [Entries.Sorted, Entries.keys, List.map_append] at sorted
      exact (List.pairwise_append.mp sorted).2.2 key member name (List.mem_cons_self ..)
    have added : (before.insert name sample).entries ++ rest =
        before.entries ++ (name, sample) :: rest := by
      change Entries.insert before.entries name sample ++ rest = _
      rw [Entries.insert_last before.entries name sample last, List.append_assoc,
        List.singleton_append]
    have read := ih (before.insert name sample) (added ▸ sorted) fun other member =>
      back other (List.mem_cons_of_mem _ member)
    simp only [Entries.mapValues_cons, Raw.ofEntries, ofEntries?, Option.bind_eq_bind,
      Option.bind_some, Sample.ofRaw?_toJson sample (back sample (List.mem_cons_self ..)), read,
      added]

theorem ofRaw?_toJson (samples : Samples) (storable : samples.Storable) :
    ofRaw? (.ofJson samples.toJson) = some samples :=
  ofEntries?_ofEntries empty samples.entries samples.sorted storable

theorem ofEntries?_not_finite (before : Samples) (rest : Entries Sample) (sample : Sample)
    (member : sample ∈ rest.map Prod.snd) (unbounded : sample.value.isFinite = false) :
    ofEntries? before (Raw.ofEntries (Entries.mapValues Sample.toJson rest)) = none := by
  induction rest generalizing before with
  | nil => cases member
  | cons entry rest ih =>
    obtain ⟨name, first⟩ := entry
    simp only [Entries.mapValues_cons, Raw.ofEntries, ofEntries?, Option.bind_eq_bind,
      Option.bind_some]
    rcases List.mem_cons.mp member with rfl | later
    · rw [Sample.ofRaw?_toJson_not_finite sample unbounded, Option.bind_none]
    · cases Sample.ofRaw? (.ofJson first.toJson) with
      | none => rfl
      | some read => exact ih (before.insert name read) later

theorem readsBack_toJson (samples : Samples)
    (back : ∀ sample ∈ samples.entries.map Prod.snd, sample.value.isFinite = true →
      sample.value.ReadsBack) : samples.toJson.ReadsBack := by
  apply Json.ReadsBack.object
  intro x member
  rw [Entries.map_snd_mapValues] at member
  obtain ⟨sample, among, rfl⟩ := List.mem_map.mp member
  exact Sample.readsBack_toJson sample (back sample among)

end Samples

/-! ## Data points -/

namespace Point

def Storable (point : Point) : Prop :=
  point.samples.Storable

theorem readsBack_toJson (point : Point)
    (back : ∀ sample ∈ point.samples.entries.map Prod.snd, sample.value.isFinite = true →
      sample.value.ReadsBack) : point.toJson.ReadsBack := by
  apply Json.ReadsBack.object
  intro x member
  simp only [List.map_cons, List.map_nil, List.mem_cons, List.not_mem_nil, or_false] at member
  rcases member with rfl | rfl
  · exact .string _
  · exact point.samples.readsBack_toJson back

theorem ofRaw?_toJson_eq (point : Point) : ofRaw? (.ofJson point.toJson) =
    (Samples.ofRaw? (.ofJson point.samples.toJson)).map fun samples =>
      { point with samples := samples } := by
  let entries : Object :=
    [("created_at", .string point.createdAt.text), ("data", point.samples.toJson)]
  have fields := Raw.fields?_ofJson ["created_at", "data"] entries (by decide) (List.Sublist.refl _)
  rw [ofRaw?, toJson, fields]
  simp only [entries, List.map_cons, List.map_nil, Entries.get?_cons, String.reduceEq, ↓reduceIte,
    Option.map_some, Raw.ofJson, instant?_text, Option.bind_eq_bind, Option.bind_some]
  cases Samples.ofRaw? (.ofJson point.samples.toJson) <;> rfl

theorem ofText_text (point : Point) (storable : point.Storable) :
    (Raw.ofText? point.text).bind ofRaw? = some point := by
  have back := point.readsBack_toJson fun sample member _ => storable sample member
  rw [text, Json.compact, Raw.ofText?_write _ _ _ back, Option.bind_some, ofRaw?_toJson_eq,
    Samples.ofRaw?_toJson point.samples storable]
  rfl

end Point

/-! ## Records -/

theorem absent?_ofText? (text : Option String) :
    absent? Raw.text? (some (.ofJson (.ofText? text))) = some text := by
  cases text <;> rfl

theorem absent?_instant (t : Option Instant) :
    absent? instant? (some (.ofJson (.ofText? (t.map Instant.text)))) = some t := by
  cases t with
  | none => rfl
  | some t =>
    simp only [Option.map_some, Json.ofText?, Raw.ofJson, absent?, Raw.optional?, instant?_text]

namespace Record

def Storable (record : Record) : Prop :=
  record.spec.Storable

theorem keys_toJson (record : Record) (entries : Object)
    (written : record.toJson = .object entries) : (Entries.keys entries).Sublist fieldNames := by
  cases written
  simp only [Entries.keys, List.map_append]
  have fixed : ["name", "stack_id", "rule", "state", "last_evaluated", "created_at",
      "updated_at"].Sublist ["name", "stack_id", "rule", "state", "last_evaluated", "created_at",
      "updated_at"] := .refl _
  exact fixed.append (Spec.keys_field ..)

theorem fields?_toJson (record : Record) : (Raw.ofJson record.toJson).fields? fieldNames =
    some [some (.string (some record.name)), some (.ofJson (.ofText? record.stackId)),
      some (.ofJson record.spec.toJson), some (.string (some record.state.name)),
      some (.string (some record.lastEvaluated.text)), some (.string (some record.createdAt.text)),
      some (.ofJson (.ofText? (record.updatedAt.map Instant.text))),
      record.checksum.map fun digest => .string (some digest)] := by
  obtain ⟨entries, written⟩ : ∃ entries, record.toJson = .object entries := ⟨_, rfl⟩
  rw [written, Raw.fields?_ofJson fieldNames entries (by decide)
    (keys_toJson record entries written)]
  cases written
  simp only [fieldNames, List.map_cons, List.map_nil]
  simp only [Entries.get?_append, Entries.get?_cons, Entries.get?_nil, Spec.get?_field,
    String.reduceEq, ↓reduceIte, Option.none_or, Option.or_none, Option.map_some, Option.map_map]
  rfl

theorem ofRaw?_toJson_eq (record : Record) : ofRaw? (.ofJson record.toJson) =
    (Spec.ofRaw? (.ofJson record.spec.toJson)).map fun spec => { record with spec := spec } := by
  obtain ⟨name, stackId, spec, state, lastEvaluated, createdAt, updatedAt, checksum⟩ := record
  rw [ofRaw?, fields?_toJson]
  simp only [Raw.text?, Raw.name?, Option.bind_eq_bind, Option.bind_some, absent?_ofText?,
    absent?_instant, instant?_text, State.ofName?_name]
  cases Spec.ofRaw? (.ofJson spec.toJson) with
  | none => rfl
  | some spec => cases checksum <;> rfl

theorem ofRaw?_toJson (record : Record) (back : record.spec.threshold.ReadsBack)
    (kept : record.spec.KeepsPeriods) : ofRaw? (.ofJson record.toJson) = some record := by
  rw [ofRaw?_toJson_eq, Spec.ofRaw?_toJson _ back kept]
  rfl

theorem spec_of_read (raw : Raw) (record : Record) (read : ofRaw? raw = some record) :
    ∃ raw, Spec.ofRaw? raw = some record.spec := by
  rw [ofRaw?] at read
  split at read
  · simp only [Option.bind_eq_bind, Option.bind_eq_some_iff, Option.some.injEq] at read
    obtain ⟨_, -, _, -, spec, found, _, -, _, -, _, -, _, -, _, -, rfl⟩ := read
    exact ⟨_, found⟩
  · cases read

theorem readsBack_toJson (record : Record)
    (back : record.spec.threshold.isFinite = true → record.spec.threshold.ReadsBack)
    (kept : record.spec.KeepsPeriods) : record.toJson.ReadsBack := by
  apply Json.ReadsBack.object
  intro x member
  have text (value : Option String) : (Json.ofText? value).ReadsBack := by
    cases value with
    | none => exact .null
    | some value => exact .string value
  simp only [List.map_append, List.mem_append, List.map_cons, List.map_nil, List.mem_cons,
    List.not_mem_nil, or_false] at member
  rcases member with (rfl | rfl | rfl | rfl | rfl | rfl | rfl) | checksum
  · exact .string _
  · exact text _
  · exact record.spec.readsBack_toJson back kept
  · exact .string _
  · exact .string _
  · exact .string _
  · exact text _
  · refine Spec.readsBack_field _ _ ?_ x checksum
    intro y written
    obtain ⟨digest, -, rfl⟩ := Option.map_eq_some_iff.mp written
    exact .string digest

/-- The text of a record, however it is laid out, is read as the record. -/
theorem ofText?_write (layout : Json.Layout) (record : Record)
    (back : record.spec.threshold.ReadsBack) (kept : record.spec.KeepsPeriods) :
    (Raw.ofText? (Json.write layout 0 record.toJson)).bind ofRaw? = some record := by
  rw [Raw.ofText?_write layout 0 _ (record.readsBack_toJson (fun _ => back) kept), Option.bind_some,
    ofRaw?_toJson record back kept]

theorem ofText?_write_not_finite (layout : Json.Layout) (record : Record)
    (unbounded : record.spec.threshold.isFinite = false) (kept : record.spec.KeepsPeriods) :
    (Raw.ofText? (Json.write layout 0 record.toJson)).bind ofRaw? = none := by
  have back := record.readsBack_toJson (fun finite => by simp [unbounded] at finite) kept
  rw [Raw.ofText?_write layout 0 _ back, Option.bind_some, ofRaw?_toJson_eq,
    Spec.ofRaw?_toJson_not_finite record.spec unbounded kept]
  rfl

end Record

end Watch

end Orchestration
