import Orchestration.Proofs.Store.Survival

/-!
# The checksum of a stored record

A checksum is that of the text of the record as it was read, laid out anew.  So it does not matter
how the file is laid out, but it does what it says: two records that are accepted with one checksum
have one text, unless two texts have one hash, and a text is read as one record.
-/

set_option autoImplicit false

namespace Orchestration

open Watch

namespace Watch.Record

/-- The text over which the checksum of a record is taken. -/
def content (record : Record) : String :=
  { record with checksum := none }.text

theorem digest_eq (record : Record) :
    record.digest = Digest.hexOfText Digest.Blake3.digest record.content :=
  rfl

@[simp] theorem checksum_sealed (record : Record) : record.sealed.checksum = some record.digest :=
  rfl

@[simp] theorem content_sealed (record : Record) : record.sealed.content = record.content :=
  rfl

theorem eq_of_content_eq {record other : Record} (storable : record.Storable)
    (kept : other.spec.KeepsPeriods) (prints : other.spec.threshold.PrintsBack)
    (same : other.content = record.content) :
    { other with checksum := none } = { record with checksum := none } := by
  have read := ofText?_write .pretty { record with checksum := none } storable.threshold
    storable.keepsPeriods
  change (Raw.ofText? record.content).bind ofRaw? = _ at read
  rw [← same] at read
  cases finite : other.spec.threshold.isFinite with
  | true =>
    have readOther := ofText?_write .pretty { other with checksum := none } (prints finite) kept
    exact Option.some.inj (readOther.symm.trans read)
  | false =>
    have unread := ofText?_write_not_finite .pretty { other with checksum := none } finite kept
    cases unread.symm.trans read

end Watch.Record

namespace FileStore

theorem recordOfText_ok {text : String} {record : Record} (got : recordOfText text = .ok record) :
    (∃ raw, Record.ofRaw? raw = some record) ∧ ∀ sum ∈ record.checksum, record.digest = sum := by
  rw [recordOfText] at got
  split at got
  · cases got
  · rename_i read parsed
    obtain ⟨_, verified, rfl⟩ := (map_eq_ok_iff ..).mp got
    obtain ⟨raw, -, parsed⟩ := Option.bind_eq_some_iff.mp parsed
    refine ⟨⟨raw, parsed⟩, fun sum given => ?_⟩
    rw [verify, given] at verified
    by_contra different
    simp [different] at verified

theorem getRule_ok {files : Files} {name : String} {record : Record}
    (got : getRule name files = .ok record) :
    ∃ text, files.read (Layout.watchRule name) = .ok text ∧ recordOfText text = .ok record := by
  obtain ⟨_, -, got⟩ := (bind_eq_ok_iff ..).mp got
  obtain ⟨text?, read, got⟩ := (bind_eq_ok_iff ..).mp got
  cases text? with
  | none => cases got
  | some text =>
    refine ⟨text, ?_, got⟩
    rw [readFile?] at read
    split at read
    · cases read
      assumption
    · cases read
    · cases read

/-- What `putRule` writes is accepted with its checksum.  And whatever stands in the files instead,
if a record is accepted there with this checksum, then it is this record, unless its content and that
of this record are two texts with one BLAKE3 hash. -/
theorem checksum_pins_record (record : Record) (storable : record.Storable)
    (accepted : keyFault? record.name = none) :
    (∀ store after, perform (putRule record) store = (.ok (), after) →
      getRule record.name after.files = .ok record.sealed) ∧
    (∀ (store : FileStore) rules, Holds store.files rules →
      ∃ after, perform (putRule record) store = (.ok (), after)) ∧
    ∀ files read, getRule record.name files = .ok read → read.checksum = some record.digest →
      read.spec.threshold.PrintsBack →
      (Digest.hexOfText Digest.Blake3.digest read.content =
          Digest.hexOfText Digest.Blake3.digest record.content → read.content = record.content) →
      read = record.sealed := by
  refine ⟨fun store after put => ?_, fun store rules holds => ?_,
    fun files read got sum prints collision => ?_⟩
  · rw [getRule_putRule put]
    exact recordOfText_sealed .pretty record storable.threshold storable.keepsPeriods
  · obtain ⟨after, put, -⟩ := holds.putRule record accepted
    exact ⟨after, put⟩
  · obtain ⟨text, -, got⟩ := getRule_ok got
    obtain ⟨⟨raw, parsed⟩, own⟩ := recordOfText_ok got
    obtain ⟨rawSpec, parsedSpec⟩ := Record.spec_of_read raw read parsed
    have kept := Spec.keepsPeriods_of_read rawSpec read.spec parsedSpec
    have hashes : Digest.hexOfText Digest.Blake3.digest read.content =
        Digest.hexOfText Digest.Blake3.digest record.content := by
      rw [← Record.digest_eq, ← Record.digest_eq, own _ sum]
    have same := Record.eq_of_content_eq storable kept prints (collision hashes)
    calc read = { { read with checksum := none } with checksum := some record.digest } := by
          rw [← sum]
      _ = record.sealed := by
          rw [same]
          rfl

theorem checksum_pins_idle_record :
    let prepared := (perform Layout.prepare (fresh .epoch)).2
    WatchRequest.idleRecord.Storable ∧ keyFault? WatchRequest.idleRecord.name = none ∧
      (∃ after, perform (putRule WatchRequest.idleRecord) prepared = (.ok (), after) ∧
        getRule "idle" after.files = .ok WatchRequest.idleRecord.sealed) ∧
      ∃ files read, files.read (Layout.watchRule "idle") =
          .ok WatchRequest.idleRecord.sealed.toJson.compact ∧
        getRule "idle" files = .ok read ∧
        read.checksum = some WatchRequest.idleRecord.digest ∧
        read = WatchRequest.idleRecord.sealed := by
  intro prepared
  have storable : WatchRequest.idleRecord.Storable :=
    (WatchRequest.storable_recreation (.putRule WatchRequest.idleRecord)
      (by simp [WatchRequest.recreation])).2
  have accepted : keyFault? "idle" = none := by decide
  obtain ⟨stored, puts, pins⟩ := checksum_pins_record WatchRequest.idleRecord storable accepted
  have holds := (WatchRequest.sameWatches_prepare .epoch).holds
  obtain ⟨after, put⟩ := puts prepared _ holds
  refine ⟨storable, accepted, ⟨after, put, stored prepared after put⟩, ?_⟩
  obtain ⟨files, read⟩ : ∃ files : Files, files.read (Layout.watchRule "idle") =
      .ok WatchRequest.idleRecord.sealed.toJson.compact := by
    obtain ⟨entries, there, -, each⟩ := holds.records
    have free : ∀ below, Entries.get? entries "idle" ≠ some (.directory below) := by
      intro below found
      rw [each] at found
      cases found
    obtain ⟨written, -⟩ := Files.write_there there (isFileName_of_key accepted) free
      (some WatchRequest.idleRecord.sealed.toJson.compact)
    exact ⟨_, by rw [Files.read, Layout.watchRule, Files.look_write written]⟩
  have got : getRule "idle" files = .ok WatchRequest.idleRecord.sealed := by
    rw [getRule_of_text accepted read]
    exact recordOfText_sealed .compact _ storable.threshold storable.keepsPeriods
  have sum := WatchRequest.idleRecord.checksum_sealed
  exact ⟨files, _, read, got, sum, pins files _ got sum (fun _ => storable.threshold) fun _ =>
    WatchRequest.idleRecord.content_sealed⟩

end FileStore

end Orchestration
