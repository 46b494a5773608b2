import Orchestration.Proofs.Store.WatchAgreement

/-!
# Definitions and readings survive storage

Whatever was read as a definition or as readings is read again from its text, however that is laid
out, as long as its numbers are finite.  A number given as a text may be infinite or no number at
all; it is written as null, and then nothing is read: the rule is in a file that no one can read, and
the data point is on a line that is skipped.
-/

set_option autoImplicit false

namespace Orchestration

/-- A number whose text reads as that number, if it has a text. -/
def Binary64.PrintsBack (x : Binary64) : Prop :=
  x.isFinite = true → x.ReadsBack

namespace Watch

/-! ## Texts -/

theorem Spec.ofText?_write (layout : Json.Layout) (raw : Raw) (spec : Spec)
    (read : ofRaw? raw = some spec) (prints : spec.threshold.PrintsBack) :
    ofText? (Json.write layout 0 spec.toJson) =
      if spec.threshold.isFinite then some spec else none := by
  have kept := keepsPeriods_of_read raw spec read
  rw [ofText?, Raw.ofText?_write layout 0 _ (spec.readsBack_toJson prints kept), Option.bind_eq_bind,
    Option.bind_some]
  split
  · rename_i finite
    exact ofRaw?_toJson spec (prints finite) kept
  · rename_i unbounded
    exact ofRaw?_toJson_not_finite spec (Bool.eq_false_iff.mpr unbounded) kept

namespace Samples

def isFinite (samples : Samples) : Bool :=
  samples.entries.all fun entry => entry.2.value.isFinite

def PrintBack (samples : Samples) : Prop :=
  ∀ sample ∈ samples.entries.map Prod.snd, sample.value.PrintsBack

theorem storable_of_isFinite (samples : Samples) (finite : samples.isFinite = true)
    (print : samples.PrintBack) : samples.Storable := by
  intro sample member
  obtain ⟨entry, among, rfl⟩ := List.mem_map.mp member
  exact print entry.2 member (List.all_eq_true.mp finite entry among)

theorem ofRaw?_toJson_ite (samples : Samples) (print : samples.PrintBack) :
    ofRaw? (.ofJson samples.toJson) = if samples.isFinite then some samples else none := by
  split
  · rename_i finite
    exact ofRaw?_toJson samples (samples.storable_of_isFinite finite print)
  · rename_i unbounded
    simp only [isFinite, List.all_eq_true, not_forall, Bool.not_eq_true] at unbounded
    obtain ⟨entry, among, unbounded⟩ := unbounded
    exact ofEntries?_not_finite empty samples.entries entry.2 (List.mem_map_of_mem among) unbounded

end Samples

theorem Point.ofText_text_ite (point : Point) (print : point.samples.PrintBack) :
    (Raw.ofText? point.text).bind ofRaw? = if point.samples.isFinite then some point else none := by
  have read := Raw.ofText?_write .compact 0 _ (point.readsBack_toJson print)
  rw [text, Json.compact, read, Option.bind_some, ofRaw?_toJson_eq, point.samples.ofRaw?_toJson_ite print]
  split <;> rfl

end Watch

namespace FileStore

open Watch

/-! ## The file of a rule -/

theorem getRule_of_text {files : Files} {name text : String} (accepted : keyFault? name = none)
    (read : files.read (Layout.watchRule name) = .ok text) :
    getRule name files = recordOfText text := by
  rw [getRule, validateKey_ok accepted, readRule, readFile?, read]
  rfl

theorem getRule_putRule {store after : FileStore} {record : Record}
    (put : perform (putRule record) store = (.ok (), after)) :
    getRule record.name after.files = recordOfText record.sealed.text := by
  rw [putRule] at put
  obtain ⟨_, valid, put⟩ := perform_answer_ok store put
  obtain ⟨_, made, -, put⟩ := perform_bind_ok store put
  obtain ⟨_, locked, -, put⟩ := perform_bind_ok made put
  obtain ⟨written, files⟩ := perform_change_ok locked put
  refine getRule_of_text (accepted_of_validateKey valid) ?_
  rw [Files.read, files, Layout.watchRule, Files.look_write written]

theorem recordOfText_text (record : Record) (kept : record.spec.KeepsPeriods)
    (prints : record.spec.threshold.PrintsBack) : recordOfText record.sealed.text =
      if record.spec.threshold.isFinite then .ok record.sealed else .error .serialization := by
  split
  · rename_i finite
    exact recordOfText_sealed .pretty record (prints finite) kept
  · rename_i unbounded
    have unread := record.sealed.ofText?_write_not_finite .pretty (Bool.eq_false_iff.mpr unbounded)
      kept
    rw [Record.text, Json.pretty, recordOfText, unread]

/-! ## The lines of data points -/

/-- The text of a file that is empty or ends in a new line. -/
def Lined (text : String) : Prop :=
  text = "" ∨ ∃ lines, text = lines ++ "\n"

theorem pointsOfText_break (first second : String) :
    pointsOfText (first ++ "\n" ++ second) = pointsOfText first ++ pointsOfText second := by
  have newline : "\n".toList = ['\n'] := rfl
  rw [pointsOfText, String.toList_append, String.toList_append, newline, List.append_assoc,
    List.singleton_append, Text.pieces_break, List.filterMap_append]
  rfl

theorem pointsOfText_text (point : Point) (print : point.samples.PrintBack) :
    pointsOfText point.text = if point.samples.isFinite then [point] else [] := by
  have line := Text.pieces_whole point.text.toList point.toJson.newline_not_mem_compact
  have read := point.ofText_text_ite print
  rw [pointsOfText, line]
  simp only [List.filterMap_cons, not_allBlank_text point, Bool.false_eq_true, if_false,
    String.ofList_toList, read, List.filterMap_nil]
  cases point.samples.isFinite <;> rfl

theorem pointsOfText_append (text : String) (lined : Lined text) (point : Point)
    (print : point.samples.PrintBack) : pointsOfText (text ++ (point.text ++ "\n")) =
      pointsOfText text ++ if point.samples.isFinite then [point] else [] := by
  have empty : pointsOfText "" = [] := rfl
  have ends (text : String) : pointsOfText (text ++ "\n") = pointsOfText text := by
    have cut := pointsOfText_break text ""
    rwa [String.append_empty, empty, List.append_nil] at cut
  rw [← pointsOfText_text point print]
  rcases lined with rfl | ⟨lines, rfl⟩
  · rw [String.empty_append, ends, empty, List.nil_append]
  · rw [pointsOfText_break, ends, ends]

theorem readFile?_append {files : Files} {above : List String} {name text : String}
    {before : Option String} (read : readFile? files (above ++ [name]) = .ok before)
    (appended : (files.append (above ++ [name]) text).1 = .ok ()) :
    readFile? (files.append (above ++ [name]) text).2 (above ++ [name]) =
      .ok (some (before.getD "" ++ text)) := by
  obtain ⟨entries, changed, there, valid, changes, after⟩ := Files.look_parent_update appended
  have file : changed = some (.file (some (before.getD "" ++ text))) := by
    rw [readFile?, Files.read, Files.look_directory there name valid] at read
    cases found : Entries.get? entries name with
    | none =>
      rw [found] at read changes
      cases read
      cases changes
      rw [Option.getD_none, String.empty_append]
    | some entry =>
      rw [found] at read changes
      rcases entry with (_ | content) | below
      · cases read
      · cases read
        cases changes
        rfl
      · cases changes
  have here := Files.look_directory after name valid
  rw [file, Entries.alter, Entries.get?_put, if_pos rfl] at here
  rw [readFile?, Files.read, Files.append, here]

def Lists (files : Files) (name : String) (points : List Point) : Prop :=
  ∃ text?, readFile? files (Layout.watchPoints name) = .ok text? ∧ Lined (text?.getD "") ∧
    pointsOfText (text?.getD "") = points

theorem appendData_ok {store after : FileStore} {name : String} {point : Point}
    (appended : perform (appendData name point) store = (.ok (), after)) :
    validateKey name = .ok () ∧ after.files.present (Layout.watchRule name) = true ∧
      ∃ files : Files, files.look (Layout.watchPoints name) =
          store.files.look (Layout.watchPoints name) ∧
        (files.append (Layout.watchPoints name) (point.text ++ "\n")).1 = .ok () ∧
        after.files = (files.append (Layout.watchPoints name) (point.text ++ "\n")).2 := by
  rw [appendData] at appended
  obtain ⟨_, valid, appended⟩ := perform_answer_ok store appended
  obtain ⟨_, locked, guarded, appended⟩ := perform_bind_ok store appended
  rw [perform_get] at appended
  split at appended
  · rename_i present
    obtain ⟨_, made, making, appended⟩ := perform_bind_ok locked appended
    obtain ⟨-, makes⟩ := perform_change_ok locked making
    obtain ⟨written, files⟩ := perform_change_ok made appended
    obtain ⟨-, -, -, named, -, -⟩ := Files.look_parent_update written
    have key := isFileName_of_key (accepted_of_validateKey valid)
    have pointParts : ∀ part ∈ Layout.watchPoints name, FileTree.isFileName part = true := by
      simpa [Layout.watchPoints, Layout.watchData] using ⟨by decide, by decide, named⟩
    have ruleParts : ∀ part ∈ Layout.watchRule name, FileTree.isFileName part = true := by
      simpa [Layout.watchRule, Layout.watchRules] using ⟨by decide, by decide, key⟩
    have apart : Apart (Layout.watchPoints name) (Layout.watchRule name) :=
      (apart_data [name] [name ++ ".jsonl"]).symm
    refine ⟨valid, ?_, made.files, ?_, written, files⟩
    · have outside : ¬ Layout.watchRule name <+: Layout.watchData := fun through =>
        apart.2 (through.trans (List.prefix_append ..))
      have same := Files.look_makeDirectories locked.files Layout.watchData _ ruleParts outside
      rwa [Files.present, files, Files.append, Files.look_update_of_apart _ apart, makes, same]
    · have deeper : ¬ Layout.watchPoints name <+: Layout.watchData := fun through =>
        absurd through.length_le (by simp [Layout.watchPoints])
      have kept := look_guard store _ pointParts (apart_lockFile _).symm
      rw [guarded] at kept
      rw [makes, Files.look_makeDirectories _ _ _ pointParts deeper, kept]
  · cases appended

theorem appendData_lists {store after : FileStore} {name : String} {before : List Point}
    {point : Point} (lists : Lists store.files name before) (print : point.samples.PrintBack)
    (appended : perform (appendData name point) store = (.ok (), after)) :
    Lists after.files name (before ++ if point.samples.isFinite then [point] else []) := by
  obtain ⟨-, -, between, same, written, files⟩ := appendData_ok appended
  obtain ⟨text?, read, lined, rfl⟩ := lists
  rw [readFile?, Files.read, ← same] at read
  refine ⟨_, files ▸ readFile?_append read written, .inr ⟨text?.getD "" ++ point.text, ?_⟩, ?_⟩
  · rw [Option.getD_some, String.append_assoc]
  · rw [Option.getD_some, pointsOfText_append _ lined point print]

/-- Of the data points that are appended one after the other, those with finite readings are listed;
and next to them there is a rule. -/
theorem lists_appended {store after : FileStore} {name : String} {before : List Point}
    (lists : Lists store.files name before) (points : List Point)
    (print : ∀ point ∈ points, point.samples.PrintBack)
    (appended : perform (points.forM (appendData name)) store = (.ok (), after)) :
    Lists after.files name (before ++ points.filter fun point => point.samples.isFinite) ∧
      (points ≠ [] → validateKey name = .ok () ∧
        after.files.present (Layout.watchRule name) = true) := by
  induction points generalizing store before with
  | nil =>
    cases appended
    exact ⟨by rwa [List.filter_nil, List.append_nil], fun some => absurd rfl some⟩
  | cons point points ih =>
    obtain ⟨_, between, first, rest⟩ := perform_bind_ok store appended
    have next := appendData_lists lists (print point (List.mem_cons_self ..)) first
    obtain ⟨listed, more⟩ := ih next (fun other member => print other (List.mem_cons_of_mem _ member))
      rest
    have filtered : (point :: points).filter (fun point => point.samples.isFinite) =
        (if point.samples.isFinite then [point] else []) ++
          points.filter fun point => point.samples.isFinite := by
      rw [List.filter_cons]
      split <;> rfl
    refine ⟨by rwa [filtered, ← List.append_assoc], fun _ => ?_⟩
    cases points with
    | nil =>
      cases rest
      obtain ⟨valid, present, -⟩ := appendData_ok first
      exact ⟨valid, present⟩
    | cons other points => exact more (List.cons_ne_nil _ _)

theorem listData_of_lists {files : Files} {name : String} {points : List Point}
    (lists : Lists files name points) (valid : validateKey name = .ok ())
    (present : files.present (Layout.watchRule name) = true) :
    listData name files = .ok (Point.inOrder points) := by
  obtain ⟨text?, read, -, rfl⟩ := lists
  rw [listData, valid]
  simp only [bind, Except.bind, present, if_true, read]
  cases text? with
  | none =>
    have empty : pointsOfText "" = [] := rfl
    rw [Option.getD_none, empty, Point.inOrder, List.mergeSort_nil]
  | some text => rfl

theorem Holds.lists_lines {files : Files} {rules : Rules} (holds : Holds files rules) (name : String)
    (nameable : WatchRequest.Nameable name) :
    Lists files name (pointsOfText ((lines? (rules.points name)).getD "")) := by
  obtain ⟨entries, there, -, each⟩ := holds.data
  have entry := Files.look_directory there _ (isFileName_data nameable)
  rw [each] at entry
  refine ⟨lines? (rules.points name), ?_, ?_, rfl⟩
  · rw [readFile?, Files.read, Layout.watchPoints, entry]
    cases lines? (rules.points name) <;> rfl
  · rw [lines?]
    rcases (rules.points name).eq_nil_or_concat with none | ⟨before, last, some⟩
    · rw [none]
      exact .inl rfl
    · rw [some, if_neg (by simp), Option.getD_some]
      refine .inr ⟨linesOf before ++ last.text, ?_⟩
      rw [List.concat_eq_append, linesOf_concat, String.append_assoc]

theorem Holds.lists {files : Files} {rules : Rules} (holds : Holds files rules) (name : String)
    (nameable : WatchRequest.Nameable name)
    (storable : ∀ point ∈ rules.points name, point.Storable) :
    Lists files name (rules.points name) := by
  have read : pointsOfText ((lines? (rules.points name)).getD "") = rules.points name := by
    rw [lines?]
    split
    · rename_i none
      rw [none]
      rfl
    · exact pointsOfText_linesOf _ storable
  exact read ▸ holds.lists_lines name nameable

end FileStore

namespace Watch

open FileStore

/-- What was read as a definition or as readings is read again from its text as long as its numbers
are finite, and so are the rule that was put and the data points that were appended to its file.
Otherwise the text is not read: the rule that was put cannot be got, and the data point is not
listed. -/
theorem read_back_of_finite (layout : Json.Layout) (raw : Raw) :
    (∀ spec, Spec.ofRaw? raw = some spec → spec.threshold.PrintsBack →
      Spec.ofText? (Json.write layout 0 spec.toJson) =
        if spec.threshold.isFinite then some spec else none) ∧
    (∀ samples, Samples.ofRaw? raw = some samples → samples.PrintBack →
      (Raw.ofText? (Json.write layout 0 samples.toJson)).bind Samples.ofRaw? =
        if samples.isFinite then some samples else none) ∧
    (∀ (store after : FileStore) (record : Record),
      Spec.ofRaw? raw = some record.spec → record.spec.threshold.PrintsBack →
      perform (putRule record) store = (.ok (), after) →
      getRule record.name after.files =
        if record.spec.threshold.isFinite then .ok record.sealed else .error .serialization) ∧
    ∀ (store after : FileStore) (name : String) (before points : List Point),
      Lists store.files name before → points ≠ [] →
      (∀ point ∈ points, point.samples.PrintBack) →
      perform (points.forM (appendData name)) store = (.ok (), after) →
      listData name after.files =
        .ok (Point.inOrder (before ++ points.filter fun point => point.samples.isFinite)) := by
  refine ⟨fun spec read prints => Spec.ofText?_write layout raw spec read prints,
    fun samples read print => ?_, fun store after record read prints put => ?_,
    fun store after name before points lists some print appended => ?_⟩
  · rw [Raw.ofText?_write layout 0 _ (samples.readsBack_toJson print), Option.bind_some,
      samples.ofRaw?_toJson_ite print]
  · rw [getRule_putRule put, recordOfText_text record (Spec.keepsPeriods_of_read raw _ read) prints]
  · obtain ⟨listed, there⟩ := lists_appended lists points print appended
    obtain ⟨valid, present⟩ := there some
    exact listData_of_lists listed valid present

def unlimited : Json :=
  .object [("MetricName", .string "load"), ("Statistic", .string "Sum"),
    ("ComparisonOperator", .string "LessThanThreshold"), ("Threshold", .string "inf"),
    ("Period", .ofInt 60)]

def unlimitedSpec : Spec :=
  ⟨"load", .sum, .lessThan, .infinite false, 60, none, none, none, none⟩

def gap : Json :=
  .object [("load", .object [("Value", .string "NaN")])]

def gapMinute : Point :=
  ⟨.epoch, Samples.empty.insert "load" ⟨.nan, none⟩⟩

theorem read_back_half_not_infinite :
    let prepared := (perform Layout.prepare (fresh .epoch)).2
    Spec.ofRaw? (.ofJson unlimited) = some unlimitedSpec ∧
      Spec.ofText? unlimitedSpec.toJson.pretty = none ∧
      Samples.ofRaw? (.ofJson gap) = some gapMinute.samples ∧
      (Raw.ofText? gapMinute.samples.toJson.pretty).bind Samples.ofRaw? = none ∧
      ∃ put after, perform (putRule WatchRequest.idleRecord) prepared = (.ok (), put) ∧
        getRule "idle" put.files = .ok WatchRequest.idleRecord.sealed ∧
        perform ([WatchRequest.minute, gapMinute].forM (appendData "idle")) put =
          (.ok (), after) ∧
        listData "idle" after.files = .ok [WatchRequest.minute] := by
  intro prepared
  obtain ⟨texts, -⟩ := read_back_of_finite .pretty (.ofJson unlimited)
  obtain ⟨-, readings, -, data⟩ := read_back_of_finite .pretty (.ofJson gap)
  obtain ⟨-, -, rules, -⟩ :=
    read_back_of_finite .pretty (.ofJson WatchRequest.idleRecord.spec.toJson)
  have unlimitedRead : Spec.ofRaw? (.ofJson unlimited) = some unlimitedSpec := by decide +kernel
  have gapRead : Samples.ofRaw? (.ofJson gap) = some gapMinute.samples := by decide +kernel
  have idle : WatchRequest.Nameable "idle" := by decide
  have half := WatchRequest.readsBack_half
  have idleRead := Spec.ofRaw?_toJson WatchRequest.idleRecord.spec half
    ⟨keptSeconds_of_small _ (by decide), by rintro _ ⟨⟩; exact keptSeconds_of_small _ (by decide)⟩
  have empty := (WatchRequest.sameWatches_prepare .epoch).holds
  obtain ⟨put, answered, holds⟩ := empty.putRule WatchRequest.idleRecord idle.1
  obtain ⟨between, first, holdsFirst⟩ :=
    holds.appendData_stored "idle" WatchRequest.minute idle _ (if_pos rfl)
  obtain ⟨after, second, -⟩ := holdsFirst.appendData_stored "idle" gapMinute idle _ (if_pos rfl)
  have appended : perform ([WatchRequest.minute, gapMinute].forM (appendData "idle")) put =
      (.ok (), after) := by
    change perform (appendData _ _ >>= fun _ => appendData _ _ >>= fun _ => pure ()) put = _
    rw [perform_then put first, perform_then between second]
    rfl
  have nothing := holds.lists "idle" idle (fun point member => by cases member)
  have print : ∀ point ∈ [WatchRequest.minute, gapMinute], point.samples.PrintBack := by
    simp only [List.mem_cons, List.not_mem_nil, or_false]
    rintro _ (rfl | rfl) sample member finite
    · rw [List.mem_singleton.mp member]
      exact half
    · rw [List.mem_singleton.mp member] at finite
      cases finite
  refine ⟨unlimitedRead, texts _ unlimitedRead (fun finite => by cases finite), gapRead,
    readings _ gapRead (print gapMinute (by simp)), put, after, answered,
    rules _ put WatchRequest.idleRecord idleRead (fun _ => half) answered, appended, ?_⟩
  have finite : ([WatchRequest.minute, gapMinute].filter fun point => point.samples.isFinite) =
      [WatchRequest.minute] := rfl
  rw [data put after "idle" [] _ nothing (by simp) print appended, finite, List.nil_append,
    Point.inOrder, List.mergeSort_singleton]

end Watch

end Orchestration
