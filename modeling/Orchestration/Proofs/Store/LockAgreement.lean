import Orchestration.Proofs.Store.Locks

/-!
# File and memory lock stores answer alike

A prepared store keeps one readable file for each lock record, whatever is asked of it.  In this
state every request on an accepted stack is answered, so a file-backed store answers as a store in
memory does, and a request on any other stack is refused and changes no record.
-/

set_option autoImplicit false

namespace Orchestration

namespace FileStore

/-! ## Files in order -/

def Readable (entries : Entries FileTree) : Prop :=
  ∀ name tree, Entries.get? entries name = some tree →
    ∃ record : LockRecord, tree = .file (some record.text)

/-- The lock file can be taken, and the files of the lock records hold records. -/
structure Ready (files : Files) : Prop where
  unlocked : Unlocked files
  records : ∃ entries, files.look Layout.locks = .ok (.directory entries) ∧
    Entries.Distinct entries ∧ Readable entries

theorem perform_prepare_fresh (start : Instant) :
    perform Layout.prepare (fresh start) = (.ok (), ⟨some (.directory
      [("locks", .directory []), ("watch", .directory [("rules", .directory []),
        ("data", .directory [])]), ("version", .file (some Layout.versionText))]), start⟩) :=
  rfl

theorem ready_prepare (start : Instant) :
    Ready (perform Layout.prepare (fresh start)).2.files := by
  rw [perform_prepare_fresh]
  refine ⟨⟨⟨_, rfl⟩, ?_⟩, [], rfl, List.nodup_nil, ?_⟩
  · intro below there
    cases there
  · intro name tree found
    cases found

namespace Ready

theorem read {files : Files} {entries : Entries FileTree}
    (there : files.look Layout.locks = .ok (.directory entries)) (readable : Readable entries)
    {stack : String} (accepted : keyFault? stack = none) :
    (Entries.get? entries stack = none ∧ lockRecord? files stack = .ok none) ∨
      ∃ record : LockRecord, Entries.get? entries stack = some (.file (some record.text)) ∧
        lockRecord? files stack = .ok (some record) := by
  have entry := Files.look_directory there stack (isFileName_of_key accepted)
  cases found : Entries.get? entries stack with
  | none =>
    rw [found] at entry
    exact .inl ⟨rfl, lockRecord?_missing accepted entry⟩
  | some tree =>
    obtain ⟨record, rfl⟩ := readable stack tree found
    rw [found] at entry
    exact .inr ⟨record, rfl, lockRecord?_file accepted record entry⟩

theorem guard {store : FileStore} (ready : Ready store.files) :
    (perform Layout.guard store).1 = .ok () ∧ Ready (perform Layout.guard store).2.files := by
  obtain ⟨answered, unlocked⟩ := ready.unlocked.guard
  refine ⟨answered, unlocked, ?_⟩
  rw [look_guard store Layout.locks (by decide) (by decide)]
  exact ready.records

theorem update {files : Files} {entries : Entries FileTree} (unlocked : Unlocked files)
    (distinct : Entries.Distinct entries) (readable : Readable entries)
    {stack : String} {change : Option FileTree → Except FileError (Option FileTree)}
    {changed : Option LockRecord}
    (after : (files.update (Layout.lockRecord stack) change).2.look Layout.locks =
      .ok (.directory (Entries.alter entries stack
        (changed.map fun record => .file (some record.text))))) :
    Ready (files.update (Layout.lockRecord stack) change).2 := by
  refine ⟨unlocked.update (lockFile_apart stack).symm change, _, after,
    Entries.distinct_alter entries distinct stack _, fun name tree found => ?_⟩
  by_cases same : name = stack
  · subst same
    rw [Entries.get?_alter_self entries distinct] at found
    obtain ⟨record, -, file⟩ := Option.map_eq_some_iff.mp found
    exact ⟨record, file.symm⟩
  · rw [Entries.get?_alter_of_ne entries stack name _ same] at found
    exact readable name tree found

theorem writeLock {store : FileStore} (ready : Ready store.files) (stack engine : String)
    (accepted : keyFault? stack = none) :
    ∃ after, perform (FileStore.writeLock stack engine) store = (.ok (), after) ∧
      Ready after.files := by
  obtain ⟨unlocked, entries, there, distinct, readable⟩ := ready
  have free : ∀ below, Entries.get? entries stack ≠ some (.directory below) := by
    intro below found
    obtain ⟨record, file⟩ := readable stack _ found
    cases file
  obtain ⟨written, after⟩ := Files.write_there there (isFileName_of_key accepted) free
    (some (LockRecord.mk stack engine store.clock).text)
  have made := Files.makeDirectories_there there
  rw [FileStore.writeLock, perform_get, perform_changed _ (by rw [made]), made, perform_change]
  exact ⟨_, Prod.ext (congrArg (Except.mapError _) written) rfl,
    @update _ entries unlocked distinct readable _ _ (some ⟨stack, engine, store.clock⟩) after⟩

theorem exists_read {files : Files} (ready : Ready files) {stack : String}
    (accepted : keyFault? stack = none) : ∃ found, lockRecord? files stack = .ok found := by
  obtain ⟨-, entries, there, -, readable⟩ := ready
  rcases read there readable accepted with ⟨-, missing⟩ | ⟨record, -, held⟩
  · exact ⟨none, missing⟩
  · exact ⟨some record, held⟩

theorem rejected {files : Files} (ready : Ready files) {stack : String} {e : StoreError}
    (failed : lockRecord? files stack = .error e) : keyFault? stack ≠ none := by
  intro accepted
  obtain ⟨found, read⟩ := ready.exists_read accepted
  rw [read] at failed
  cases failed

theorem removeFile {files : Files} (ready : Ready files) {stack : String} {record : LockRecord}
    (held : lockRecord? files stack = .ok (some record)) :
    (files.removeFile (Layout.lockRecord stack)).1 = .ok () ∧
      Ready (files.removeFile (Layout.lockRecord stack)).2 ∧
      lockRecord? (files.removeFile (Layout.lockRecord stack)).2 stack = .ok none := by
  obtain ⟨unlocked, entries, there, distinct, readable⟩ := ready
  have accepted := accepted_of_ok held
  rcases read there readable accepted with ⟨-, missing⟩ | ⟨record', found, -⟩
  · rw [missing] at held
    cases held
  · have valid := isFileName_of_key accepted
    obtain ⟨removed, after⟩ := Files.removeFile_there there valid found
    refine ⟨removed, @update _ entries unlocked distinct readable _ _ none after,
      lockRecord?_missing accepted ?_⟩
    have entry := Files.look_directory after stack valid
    rwa [Entries.get?_remove_self entries distinct] at entry

/-- The files are in order, and there is an answer if the stack is accepted. -/
def Serves {α : Type} (stack : String) (result : Except StoreError α × FileStore) : Prop :=
  Ready result.2.files ∧ (keyFault? stack = none → ∃ reply, result.1 = .ok reply)

theorem Serves.map {α β : Type} {stack : String} {result : Except StoreError α × FileStore}
    (serves : Serves stack result) (f : α → β) : Serves stack (result.1.map f, result.2) := by
  refine ⟨serves.1, fun accepted => ?_⟩
  obtain ⟨reply, answered⟩ := serves.2 accepted
  exact ⟨f reply, congrArg (Except.map f) answered⟩

theorem serves_locked {α : Type} {store : FileStore} (ready : Ready store.files) (stack : String)
    (next : Option LockRecord → FileOp α)
    (goesOn : ∀ locked found, Ready locked.files → lockRecord? locked.files stack = .ok found →
      ∃ reply after, perform (next found) locked = (.ok reply, after) ∧ Ready after.files) :
    Serves stack (perform (do
      Layout.guard
      let store ← get
      let found ← answer (lockRecord? store.files stack)
      next found) store) := by
  obtain ⟨answered, locked⟩ := ready.guard
  rw [perform_locked, answered]
  cases read : lockRecord? store.files stack with
  | error e => exact ⟨locked, fun accepted => absurd accepted (ready.rejected read)⟩
  | ok found =>
    rw [← lockRecord?_guard] at read
    obtain ⟨reply, after, performed, kept⟩ := goesOn _ found locked read
    simp only [performed]
    exact ⟨kept, fun _ => ⟨reply, rfl⟩⟩

theorem perform_request {store : FileStore} (ready : Ready store.files) (request : LockRequest) :
    Serves request.stack (request.perform store) := by
  cases request with
  | create stack engine =>
    have served : Serves stack (perform (createLock stack engine) store) := by
      apply ready.serves_locked
      intro locked found ready read
      cases found with
      | some record => exact ⟨_, locked, rfl, ready⟩
      | none =>
        obtain ⟨last, written, after⟩ := ready.writeLock stack engine (accepted_of_ok read)
        exact ⟨_, last, perform_then locked written _, after⟩
    exact served.map LockReply.engine
  | steal stack old new =>
    have served : Serves stack (perform (stealLock stack old new) store) := by
      apply ready.serves_locked
      intro locked found ready read
      cases found with
      | none => exact ⟨_, locked, rfl, ready⟩
      | some record =>
        by_cases held : record.engine = old
        · obtain ⟨last, written, after⟩ := ready.writeLock stack new (accepted_of_ok read)
          simp only [held, if_true]
          exact ⟨_, last, perform_then locked written _, after⟩
        · simp only [held, if_false]
          exact ⟨_, locked, rfl, ready⟩
    exact served.map LockReply.done
  | release stack engine =>
    have served : Serves stack (perform (releaseLock stack engine) store) := by
      apply ready.serves_locked
      intro locked found ready read
      cases found with
      | none => exact ⟨_, locked, rfl, ready⟩
      | some record =>
        by_cases held : record.engine = engine
        · obtain ⟨removed, after, -⟩ := ready.removeFile read
          simp only [held, if_true]
          exact ⟨_, _, perform_changed locked removed _, after⟩
        · simp only [held, if_false]
          exact ⟨_, locked, rfl, ready⟩
    exact served.map LockReply.done
  | holder stack =>
    refine ⟨ready, fun accepted => ?_⟩
    obtain ⟨found, read⟩ : ∃ found, lockRecord? store.files stack = .ok found :=
      ready.exists_read accepted
    simp only [LockRequest.perform, LockStore.holder, read]
    exact ⟨_, rfl⟩

theorem release_clears {store : FileStore} (ready : Ready store.files) (stack engine : String)
    (released : (LockStore.release stack engine store).1 = .ok true) :
    (LockStore.release stack engine store).2.records stack = none := by
  obtain ⟨answered, locked⟩ := ready.guard
  simp only [LockStore.release, releaseLock, perform_locked, answered] at released ⊢
  cases read : lockRecord? store.files stack with
  | error e =>
    rw [read] at released
    cases released
  | ok found =>
    rw [read] at released
    cases found with
    | none => cases released
    | some record =>
      by_cases held : record.engine = engine
      · rw [← lockRecord?_guard] at read
        obtain ⟨removed, -, missing⟩ := locked.removeFile read
        simp only [held, if_true, perform_bind, perform_change, removed]
        exact @records_of_ok { (perform Layout.guard store).2 with files := _ } stack none missing
      · simp only [held, if_false] at released
        cases released

end Ready

instance : OrderlyLockStore FileStore where
  Orderly store := Ready store.files
  orderly_perform request _ ready := (ready.perform_request request).1
  release_clears stack engine _ ready released := ready.release_clears stack engine released

theorem Ready.refuses_locked {α : Type} {store : FileStore} (ready : Ready store.files)
    {stack : String} {fault : KeyFault} (rejected : keyFault? stack = some fault)
    (next : Option LockRecord → FileOp α) :
    perform (do
      Layout.guard
      let store ← get
      let found ← answer (lockRecord? store.files stack)
      next found) store =
    (.error (.invalidKey (fault.message stack)), (perform Layout.guard store).2) := by
  rw [perform_locked, ready.guard.1, lockRecord?_rejected rejected]

theorem Ready.refuses {store : FileStore} (ready : Ready store.files) (request : LockRequest)
    (fault : KeyFault) (rejected : keyFault? request.stack = some fault) :
    (request.perform store).1 = .error (.invalidKey (fault.message request.stack)) ∧
      ∀ stack, lockRecord? (request.perform store).2.files stack =
        lockRecord? store.files stack := by
  have kept := lockRecord?_guard store
  cases request with
  | create stack engine =>
    change keyFault? stack = some fault at rejected
    simp only [LockRequest.perform, LockStore.create, createLock, ready.refuses_locked rejected]
    exact ⟨rfl, kept⟩
  | steal stack old new =>
    change keyFault? stack = some fault at rejected
    simp only [LockRequest.perform, LockStore.steal, stealLock, ready.refuses_locked rejected]
    exact ⟨rfl, kept⟩
  | release stack engine =>
    change keyFault? stack = some fault at rejected
    simp only [LockRequest.perform, LockStore.release, releaseLock, ready.refuses_locked rejected]
    exact ⟨rfl, kept⟩
  | holder stack =>
    change keyFault? stack = some fault at rejected
    have refused := @lockRecord?_rejected store.files _ _ rejected
    refine ⟨?_, fun _ => rfl⟩
    simp only [LockRequest.perform, LockStore.holder, refused]
    rfl

def shows (now : Instant) (store : FileStore) : FileStore :=
  { store with clock := now }

end FileStore

/-! ## Histories -/

structure TimedRequest where
  time : Instant
  request : LockRequest

namespace TimedRequest

variable {σ : Type} [LockStore σ]

/-- The answers to the requests of a history and the store after it, where `tick` is what passing
time does to a store. -/
def serve (tick : Instant → σ → σ) (store : σ) :
    List TimedRequest → List (LockRequest × Except StoreError LockReply) × σ
  | [] => ([], store)
  | ⟨time, request⟩ :: later =>
    let (answer, after) := request.perform (tick time store)
    let (answers, last) := serve tick after later
    ((request, answer) :: answers, last)

def accepted (request : LockRequest) : Bool :=
  (keyFault? request.stack).isNone

end TimedRequest

namespace MemoryStore

theorem exists_reply (request : LockRequest) (store : MemoryStore) :
    ∃ reply, (request.perform store).1 = .ok reply := by
  cases request with
  | create stack engine =>
    simp only [LockRequest.perform, LockStore.create, create]
    split <;> exact ⟨_, rfl⟩
  | steal stack old new =>
    simp only [LockRequest.perform, LockStore.steal, steal]
    split <;> exact ⟨_, rfl⟩
  | release stack engine =>
    simp only [LockRequest.perform, LockStore.release, release]
    split <;> exact ⟨_, rfl⟩
  | holder stack => exact ⟨_, rfl⟩

end MemoryStore

structure SameLocks (files : FileStore) (memory : MemoryStore) : Prop where
  ready : FileStore.Ready files.files
  distinct : Entries.Distinct memory.holders
  records : files.records = memory.records

namespace SameLocks

variable {files : FileStore} {memory : MemoryStore} (same : SameLocks files memory)

include same

theorem shows (now : Instant) : SameLocks (files.shows now) memory :=
  ⟨same.ready, same.distinct, same.records⟩

theorem perform (request : LockRequest) (accepted : keyFault? request.stack = none) :
    (request.perform files).1 = (request.perform memory).1 ∧
      SameLocks (request.perform files).2 (request.perform memory).2 := by
  obtain ⟨ready, answers⟩ := same.ready.perform_request request
  obtain ⟨reply, answered⟩ := answers accepted
  obtain ⟨reply', answered'⟩ := MemoryStore.exists_reply request memory
  obtain ⟨isReply, after⟩ := request.perform_of_ok files same.ready reply answered
  obtain ⟨isReply', after'⟩ := request.perform_of_ok memory same.distinct reply' answered'
  have records : LawfulLockStore.records files = LawfulLockStore.records memory := same.records
  refine ⟨?_, ready, MemoryStore.distinct_perform request memory same.distinct, ?_⟩
  · rw [answered, answered', isReply, isReply', records]
  · exact after.trans (by rw [records]; exact after'.symm)

theorem refuse (request : LockRequest) (fault : KeyFault)
    (rejected : keyFault? request.stack = some fault) :
    SameLocks (request.perform files).2 memory := by
  refine ⟨(same.ready.perform_request request).1, same.distinct, ?_⟩
  rw [← same.records]
  exact FileStore.records_congr (same.ready.refuses request fault rejected).2

end SameLocks

namespace TimedRequest

open FileStore (fresh shows)

theorem serve_requests {σ : Type} [LockStore σ] (tick : Instant → σ → σ) (store : σ)
    (history : List TimedRequest) :
    (serve tick store history).1.map Prod.fst = history.map TimedRequest.request := by
  induction history generalizing store with
  | nil => rfl
  | cons call later ih => exact congrArg (call.request :: ·) (ih _)

theorem serve_same (files : FileStore) (memory : MemoryStore) (same : SameLocks files memory)
    (history : List TimedRequest) :
    (serve shows files history).1.filter (fun entry => accepted entry.1) =
        (serve (fun _ store => store) memory
          (history.filter fun call => accepted call.request)).1 ∧
      SameLocks (serve shows files history).2
        (serve (fun _ store => store) memory
          (history.filter fun call => accepted call.request)).2 := by
  induction history generalizing files memory with
  | nil => exact ⟨rfl, same⟩
  | cons call later ih =>
    obtain ⟨time, request⟩ := call
    have same := same.shows time
    cases checked : keyFault? request.stack with
    | none =>
      have here : accepted request = true := by rw [accepted, checked]; rfl
      obtain ⟨answer, after⟩ := same.perform request checked
      obtain ⟨answers, last⟩ := ih _ _ after
      simp only [serve, List.filter_cons, here, if_true, answer, answers]
      exact ⟨trivial, last⟩
    | some fault =>
      have here : accepted request = false := by rw [accepted, checked]; rfl
      obtain ⟨answers, last⟩ := ih _ _ (same.refuse request fault checked)
      simp only [serve, List.filter_cons, here, Bool.false_eq_true, if_false]
      exact ⟨answers, last⟩

theorem sameLocks_prepare (start : Instant) :
    SameLocks (FileStore.perform Layout.prepare (fresh start)).2 MemoryStore.empty := by
  refine ⟨FileStore.ready_prepare start, List.nodup_nil, funext fun stack => ?_⟩
  cases checked : keyFault? stack with
  | none =>
    have locks : (FileStore.perform Layout.prepare (fresh start)).2.files.look Layout.locks =
        .ok (.directory []) := rfl
    exact FileStore.records_of_ok (FileStore.lockRecord?_missing checked
      (Files.look_directory locks stack (isFileName_of_key checked)))
  | some fault =>
    rw [FileStore.records, FileStore.lockRecord?_rejected checked]
    rfl

/-- File and memory lock stores are interchangeable: from a prepared store and an empty one they
answer every request on an accepted stack alike, whatever other requests are made in between, and a
request on a stack that is not accepted is refused and leaves every lock record as it was. -/
theorem files_answer_like_memory (start : Instant) (history : List TimedRequest) :
    let prepared := FileStore.perform Layout.prepare (fresh start)
    let served := serve shows prepared.2 history
    prepared.1 = .ok () ∧
      ((∀ call ∈ history, accepted call.request = true) →
        served.1 = (serve (fun _ store => store) MemoryStore.empty history).1) ∧
      served.1.filter (fun entry => accepted entry.1) =
        (serve (fun _ store => store) MemoryStore.empty
          (history.filter fun call => accepted call.request)).1 ∧
      ∀ (time : Instant) (request : LockRequest) (fault : KeyFault),
        keyFault? request.stack = some fault →
          (request.perform (served.2.shows time)).1 =
              .error (.invalidKey (fault.message request.stack)) ∧
            ∀ stack, FileStore.lockRecord? (request.perform (served.2.shows time)).2.files stack =
              FileStore.lockRecord? served.2.files stack := by
  intro prepared served
  obtain ⟨answers, last⟩ := serve_same _ _ (sameLocks_prepare start) history
  refine ⟨rfl, fun all => ?_, answers, fun time request fault rejected => ?_⟩
  · have requests : ∀ entry ∈ served.1, accepted entry.1 = true := by
      intro entry member
      have asked := List.mem_map_of_mem member (f := Prod.fst)
      rw [serve_requests] at asked
      obtain ⟨call, made, same⟩ := List.mem_map.mp asked
      exact same ▸ all call made
    rwa [List.filter_eq_self.mpr requests, List.filter_eq_self.mpr all] at answers
  · exact @FileStore.Ready.refuses (served.2.shows time) last.ready request fault rejected

/-- Green takes over from an engine with a name in need of escapes, which then comes too late. -/
def handover : List TimedRequest :=
  [⟨.epoch, .create "été" "\"red\"\n☃"⟩, ⟨.epoch, .create "été" "green"⟩,
    ⟨.epoch, .steal "été" "\"red\"\n☃" "green"⟩, ⟨.epoch, .release "été" "\"red\"\n☃"⟩,
    ⟨.epoch, .holder "été"⟩]

theorem files_answer_in_handover :
    (∀ call ∈ handover, accepted call.request = true) ∧
      (serve shows (FileStore.perform Layout.prepare (fresh .epoch)).2 handover).1.map Prod.snd =
        [.ok (.engine none), .ok (.engine (some "\"red\"\n☃")), .ok (.done true),
          .ok (.done false), .ok (.engine (some "green"))] := by
  have each : ∀ call ∈ handover, accepted call.request = true := by decide
  refine ⟨each, ?_⟩
  rw [((files_answer_like_memory .epoch handover).2.1 each)]
  rfl

end TimedRequest

end Orchestration
