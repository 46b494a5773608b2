import Orchestration.Proofs.Entries
import Orchestration.Proofs.Paths
import Orchestration.Store.Files

/-!
# Looking at files after a change

A change at a path is seen in the directory of that path and nowhere else: what stands at a path
that does not lead through the changed one, nor the other way round, stays.  Making directories is
seen at no path that could be followed before.
-/

set_option autoImplicit false

namespace Orchestration

namespace Entries

variable {α : Type}

def alter (entries : Entries α) (key : String) : Option α → Entries α
  | some value => put entries key value
  | none => remove entries key

theorem get?_alter_of_ne (entries : Entries α) (key other : String) (changed : Option α)
    (apart : other ≠ key) : get? (alter entries key changed) other = get? entries other := by
  cases changed with
  | some value => rw [alter, get?_put, if_neg (Ne.symm apart)]
  | none => exact get?_remove_of_ne entries key other apart

theorem get?_alter_self (entries : Entries α) (distinct : Distinct entries) (key : String)
    (changed : Option α) : get? (alter entries key changed) key = changed := by
  cases changed with
  | some value => rw [alter, get?_put, if_pos rfl]
  | none => exact get?_remove_self entries distinct key

theorem distinct_alter (entries : Entries α) (distinct : Distinct entries) (key : String)
    (changed : Option α) : Distinct (alter entries key changed) := by
  cases changed with
  | some value => exact distinct_put distinct key value
  | none => exact distinct_remove entries distinct key

end Entries

namespace FileTree

variable {change : Option FileTree → Except FileError (Option FileTree)}

/-! ## Looking -/

theorem look_cons (entries : Entries FileTree) (name : String) (rest : List String)
    (valid : isFileName name = true) : look (.directory entries) (name :: rest) =
      match Entries.get? entries name with
      | some below => below.look rest
      | none => .error .notFound := by
  rw [look]
  exact if_pos valid

theorem look_append (tree below : FileTree) (path rest : List String)
    (there : tree.look path = .ok below) : tree.look (path ++ rest) = below.look rest := by
  induction path generalizing tree with
  | nil =>
    cases there
    rfl
  | cons name path ih =>
    cases tree with
    | file content => cases there
    | directory entries =>
      rw [List.cons_append]
      rw [look] at there ⊢
      split
      · rename_i valid
        rw [if_pos valid] at there
        split
        · rename_i next found
          rw [found] at there
          exact ih next there
        · rename_i missing
          rw [missing] at there
          cases there
      · rename_i invalid
        rw [if_neg invalid] at there
        cases there

/-! ## Changing one entry -/

theorem update_name (name : String) (entries : Entries FileTree) (valid : isFileName name = true) :
    update change [name] (.directory entries) =
      (change (Entries.get? entries name)).map fun changed =>
        .directory (Entries.alter entries name changed) := by
  rw [update, if_pos valid]
  cases change (Entries.get? entries name) with
  | error e => rfl
  | ok changed => cases changed <;> rfl

theorem update_below (name next : String) (rest : List String) (entries : Entries FileTree)
    (below : FileTree) (valid : isFileName name = true)
    (found : Entries.get? entries name = some below) :
    update change (name :: next :: rest) (.directory entries) =
      (update change (next :: rest) below).map fun below =>
        .directory (Entries.put entries name below) := by
  rw [update, if_pos valid, found]

theorem update_cases {name : String} {rest : List String} {tree after : FileTree}
    (updated : update change (name :: rest) tree = .ok after) :
    ∃ entries, tree = .directory entries ∧ isFileName name = true ∧
      ((rest = [] ∧ ∃ changed, change (Entries.get? entries name) = .ok changed ∧
          after = .directory (Entries.alter entries name changed)) ∨
        ∃ below below', rest ≠ [] ∧ Entries.get? entries name = some below ∧
          update change rest below = .ok below' ∧
          after = .directory (Entries.put entries name below')) := by
  cases tree with
  | file content =>
    cases rest <;> cases updated
  | directory entries =>
    refine ⟨entries, rfl, ?_⟩
    by_cases valid : isFileName name = true
    · refine ⟨valid, ?_⟩
      cases rest with
      | nil =>
        rw [update_name name entries valid] at updated
        cases changes : change (Entries.get? entries name) with
        | error e =>
          rw [changes] at updated
          cases updated
        | ok changed =>
          rw [changes] at updated
          cases updated
          exact .inl ⟨rfl, changed, rfl, rfl⟩
      | cons next rest =>
        cases found : Entries.get? entries name with
        | none =>
          rw [update, if_pos valid, found] at updated
          cases updated
        | some below =>
          rw [update_below name next rest entries below valid found] at updated
          cases changes : update change (next :: rest) below with
          | error e =>
            rw [changes] at updated
            cases updated
          | ok below' =>
            rw [changes] at updated
            cases updated
            exact .inr ⟨below, below', List.cons_ne_nil _ _, rfl, changes, rfl⟩
    · cases rest <;> (rw [update, if_neg valid] at updated; cases updated)

theorem look_congr {first second : Entries FileTree} {name : String}
    (same : Entries.get? first name = Entries.get? second name) (rest : List String) :
    look (.directory first) (name :: rest) = look (.directory second) (name :: rest) := by
  rw [look, look, same]

theorem look_update_of_apart {path other : List String} {tree after : FileTree}
    (apart : Apart path other) (updated : update change path tree = .ok after) :
    after.look other = tree.look other := by
  induction path generalizing tree after other with
  | nil => exact absurd List.nil_prefix apart.1
  | cons name rest ih =>
    obtain ⟨first, more, rfl⟩ := apart.exists_cons
    obtain ⟨entries, rfl, valid, ⟨rfl, changed, -, rfl⟩ | ⟨below, below', -, found, inside, rfl⟩⟩ :=
      update_cases updated
    · have different : first ≠ name := by
        rintro rfl
        exact apart.1 (List.cons_prefix_cons.mpr ⟨rfl, List.nil_prefix⟩)
      exact look_congr (Entries.get?_alter_of_ne entries name first changed different) more
    · by_cases same : first = name
      · subst same
        rw [look_cons _ _ _ valid, look_cons _ _ _ valid, found, Entries.get?_put, if_pos rfl]
        exact ih apart.of_cons inside
      · exact look_congr (by rw [Entries.get?_put, if_neg (Ne.symm same)]) more

theorem look_parent_update {above : List String} {name : String} {tree after : FileTree}
    (updated : update change (above ++ [name]) tree = .ok after) :
    ∃ entries changed, tree.look above = .ok (.directory entries) ∧ isFileName name = true ∧
      change (Entries.get? entries name) = .ok changed ∧
      after.look above = .ok (.directory (Entries.alter entries name changed)) := by
  induction above generalizing tree after with
  | nil =>
    obtain ⟨entries, rfl, valid, ⟨-, changed, changes, rfl⟩ | ⟨_, _, more, -⟩⟩ :=
      update_cases updated
    · exact ⟨entries, changed, rfl, valid, changes, rfl⟩
    · exact absurd rfl more
  | cons first above ih =>
    obtain ⟨entries, rfl, valid, ⟨none, -⟩ | ⟨below, below', -, found, inside, rfl⟩⟩ :=
      update_cases updated
    · exact absurd none (by simp)
    · obtain ⟨inner, changed, there, named, changes, after⟩ := ih inside
      refine ⟨inner, changed, ?_, named, changes, ?_⟩
      · rw [look_cons _ _ _ valid, found]
        exact there
      · rw [look_cons _ _ _ valid, Entries.get?_put, if_pos rfl]
        exact after

theorem update_answers {above : List String} {name : String} {tree : FileTree}
    {entries : Entries FileTree} {changed : Option FileTree}
    (there : tree.look above = .ok (.directory entries)) (valid : isFileName name = true)
    (changes : change (Entries.get? entries name) = .ok changed) :
    ∃ after, update change (above ++ [name]) tree = .ok after := by
  induction above generalizing tree with
  | nil =>
    cases there
    exact ⟨_, by rw [List.nil_append, update_name name entries valid, changes]; rfl⟩
  | cons first above ih =>
    cases tree with
    | file content => cases there
    | directory outer =>
      rw [look] at there
      split at there
      · rename_i validFirst
        split at there
        · rename_i below found
          obtain ⟨after, inside⟩ := ih there
          obtain ⟨next, rest, parts⟩ : ∃ next rest, above ++ [name] = next :: rest :=
            List.exists_cons_of_ne_nil (by simp)
          rw [parts] at inside
          rw [List.cons_append, parts, update_below first next rest outer below validFirst found,
            inside]
          exact ⟨_, rfl⟩
        · cases there
      · cases there

/-! ## Making directories -/

theorem look_nowhere (other : List String) (names : ∀ name ∈ other, isFileName name = true)
    (deep : other ≠ []) : look (.directory []) other = .error .notFound := by
  obtain ⟨name, rest, rfl⟩ := List.exists_cons_of_ne_nil deep
  rw [look_cons _ _ _ (names name (List.mem_cons_self ..)), Entries.get?_nil]

def entriesOf : Files → Entries FileTree
  | some (.directory entries) => entries
  | _ => []

theorem look_entriesOf (files : Files) (other : List String)
    (names : ∀ name ∈ other, isFileName name = true) (deep : other ≠ [])
    (noFile : ∀ content, files ≠ some (.file content)) :
    look (.directory (entriesOf files)) other = files.look other := by
  match files with
  | none => exact look_nowhere other names deep
  | some (.directory entries) => rfl
  | some (.file content) => exact absurd rfl (noFile content)

theorem makeDirectories_cons (name : String) (rest : List String) (files : Files)
    (noFile : ∀ content, files ≠ some (.file content)) :
    makeDirectories (name :: rest) files =
      if isFileName name then
        ((makeDirectories rest (Entries.get? (entriesOf files) name)).1,
          .directory (Entries.put (entriesOf files) name
            (makeDirectories rest (Entries.get? (entriesOf files) name)).2))
      else (.error .refused, .directory (entriesOf files)) := by
  match files with
  | none => rfl
  | some (.directory entries) => rfl
  | some (.file content) => exact absurd rfl (noFile content)

theorem look_makeDirectories (path other : List String) (files : Files)
    (names : ∀ name ∈ other, isFileName name = true) (apart : ¬ other <+: path) :
    (makeDirectories path files).2.look other = files.look other := by
  have deep : other ≠ [] := by
    rintro rfl
    exact apart List.nil_prefix
  induction path generalizing files other with
  | nil =>
    match files with
    | none => exact look_nowhere other names deep
    | some (.directory entries) => rfl
    | some (.file content) => rfl
  | cons name rest ih =>
    by_cases file : ∃ content, files = some (.file content)
    · obtain ⟨content, rfl⟩ := file
      rfl
    · have noFile (content) : files ≠ some (.file content) := fun same => file ⟨content, same⟩
      rw [makeDirectories_cons name rest files noFile,
        ← look_entriesOf files other names deep noFile]
      split
      · obtain ⟨first, more, rfl⟩ := List.exists_cons_of_ne_nil deep
        by_cases same : first = name
        · subst same
          have valid := names first (List.mem_cons_self ..)
          rw [look_cons _ _ _ valid, look_cons _ _ _ valid, Entries.get?_put, if_pos rfl]
          have inside : ¬ more <+: rest := fun through =>
            apart (List.cons_prefix_cons.mpr ⟨rfl, through⟩)
          have deepMore : more ≠ [] := by
            rintro rfl
            exact inside List.nil_prefix
          have named : ∀ name ∈ more, isFileName name = true :=
            fun name member => names name (List.mem_cons_of_mem _ member)
          change look _ more = _
          rw [ih more _ named inside deepMore]
          cases Entries.get? (entriesOf files) first <;> rfl
        · exact look_congr (by rw [Entries.get?_put, if_neg (Ne.symm same)]) more
      · rfl

theorem makeDirectories_there (path : List String) (tree : FileTree) (entries : Entries FileTree)
    (there : tree.look path = .ok (.directory entries)) :
    makeDirectories path (some tree) = (.ok (), tree) := by
  induction path generalizing tree with
  | nil =>
    cases there
    rfl
  | cons name rest ih =>
    cases tree with
    | file content => cases there
    | directory outer =>
      rw [look] at there
      split at there
      · rename_i valid
        split at there
        · rename_i below found
          have inside := ih below there
          simp only [makeDirectories, valid, if_true, found, inside]
          rw [Entries.put_of_get? outer name below found]
        · cases there
      · cases there

end FileTree

namespace Files

variable {change : Option FileTree → Except FileError (Option FileTree)}

theorem look_directory {files : Files} {above : List String} {entries : Entries FileTree}
    (there : files.look above = .ok (.directory entries)) (name : String)
    (valid : FileTree.isFileName name = true) : files.look (above ++ [name]) =
      match Entries.get? entries name with
      | some found => .ok found
      | none => .error .notFound := by
  match files with
  | some tree =>
    change tree.look above = _ at there
    change tree.look (above ++ [name]) = _
    rw [tree.look_append _ above [name] there, FileTree.look_cons _ _ _ valid]
    rfl

theorem look_update_of_apart (files : Files) {path other : List String} (apart : Apart path other) :
    (files.update path change).2.look other = files.look other := by
  match files with
  | none => rfl
  | some tree =>
    rw [update]
    cases updated : tree.update change path with
    | error e => rfl
    | ok after => exact FileTree.look_update_of_apart apart updated

theorem update_error {files : Files} {path : List String} {e : FileError}
    (failed : (files.update path change).1 = .error e) : (files.update path change).2 = files := by
  match files with
  | none => rfl
  | some tree =>
    rw [update] at failed ⊢
    cases updated : tree.update change path with
    | error e => rfl
    | ok after =>
      rw [updated] at failed
      cases failed

theorem root_update (files : Files) (path : List String)
    (root : ∃ entries, files.look [] = .ok (.directory entries)) :
    ∃ entries, (files.update path change).2.look [] = .ok (.directory entries) := by
  match files with
  | none => exact root
  | some tree =>
    rw [update]
    cases updated : tree.update change path with
    | error e => exact root
    | ok after =>
      cases path with
      | nil => cases updated
      | cons name rest =>
        obtain ⟨entries, -, -, ⟨-, _, -, rfl⟩ | ⟨_, _, -, -, -, rfl⟩⟩ :=
          FileTree.update_cases updated
        · exact ⟨_, rfl⟩
        · exact ⟨_, rfl⟩

theorem look_parent_update {files : Files} {above : List String} {name : String}
    (updated : (files.update (above ++ [name]) change).1 = .ok ()) :
    ∃ entries changed, files.look above = .ok (.directory entries) ∧
      FileTree.isFileName name = true ∧ change (Entries.get? entries name) = .ok changed ∧
      (files.update (above ++ [name]) change).2.look above =
        .ok (.directory (Entries.alter entries name changed)) := by
  match files with
  | none => cases updated
  | some tree =>
    rw [update] at updated ⊢
    cases answer : tree.update change (above ++ [name]) with
    | error e =>
      rw [answer] at updated
      cases updated
    | ok after => exact FileTree.look_parent_update answer

theorem look_write {files : Files} {above : List String} {name : String} {content : Option String}
    (written : (files.write (above ++ [name]) content).1 = .ok ()) :
    (files.write (above ++ [name]) content).2.look (above ++ [name]) = .ok (.file content) := by
  obtain ⟨entries, changed, -, valid, changes, after⟩ := look_parent_update written
  have file : changed = some (.file content) := by
    split at changes
    · cases changes
    · cases changes
      rfl
  subst file
  rw [write, look_directory after name valid, Entries.alter, Entries.get?_put, if_pos rfl]

theorem present_directory {files : Files} {above : List String} {entries : Entries FileTree}
    (there : files.look above = .ok (.directory entries)) (name : String)
    (valid : FileTree.isFileName name = true) :
    files.present (above ++ [name]) = (Entries.get? entries name).isSome := by
  rw [present, look_directory there name valid]
  cases Entries.get? entries name <;> rfl

theorem fileNames_directory {files : Files} {above : List String} {entries : Entries FileTree}
    (there : files.look above = .ok (.directory entries))
    (plain : ∀ entry ∈ entries, ∃ content, entry.2 = .file content) :
    files.fileNames above = .ok (Entries.keys entries) := by
  rw [fileNames, there]
  clear there
  induction entries with
  | nil => rfl
  | cons entry entries ih =>
    obtain ⟨name, tree⟩ := entry
    obtain ⟨content, file⟩ := plain _ (List.mem_cons_self ..)
    have more := ih fun other member => plain other (List.mem_cons_of_mem _ member)
    simp only [Except.ok.injEq] at more file ⊢
    rw [List.filterMap_cons, file, more]
    rfl

theorem update_there {files : Files} {above : List String} {name : String}
    {entries : Entries FileTree} {changed : Option FileTree}
    (there : files.look above = .ok (.directory entries)) (valid : FileTree.isFileName name = true)
    (changes : change (Entries.get? entries name) = .ok changed) :
    (files.update (above ++ [name]) change).1 = .ok () ∧
      (files.update (above ++ [name]) change).2.look above =
        .ok (.directory (Entries.alter entries name changed)) := by
  have answered : (files.update (above ++ [name]) change).1 = .ok () := by
    match files with
    | none => cases there
    | some tree =>
      obtain ⟨after, updated⟩ := FileTree.update_answers there valid changes
      rw [update, updated]
  obtain ⟨found, changed', there', -, changes', after⟩ := look_parent_update answered
  cases there.symm.trans there'
  cases changes.symm.trans changes'
  exact ⟨answered, after⟩

section Directory

variable {files : Files} {above : List String} {name : String} {entries : Entries FileTree}
  (there : files.look above = .ok (.directory entries)) (valid : FileTree.isFileName name = true)

include there valid

theorem touch_there (free : ∀ below, Entries.get? entries name ≠ some (.directory below)) :
    ∃ content, (files.touch (above ++ [name])).1 = .ok () ∧
      (files.touch (above ++ [name])).2.look above =
        .ok (.directory (Entries.put entries name (.file content))) := by
  match found : Entries.get? entries name with
  | some (.directory below) => exact absurd found (free below)
  | some (.file content) =>
    refine ⟨content, @update_there _ _ _ _ _ (some (.file content)) there valid ?_⟩
    rw [found]
  | none =>
    refine ⟨some "", @update_there _ _ _ _ _ (some (.file (some ""))) there valid ?_⟩
    rw [found]

theorem write_there (free : ∀ below, Entries.get? entries name ≠ some (.directory below))
    (content : Option String) : (files.write (above ++ [name]) content).1 = .ok () ∧
      (files.write (above ++ [name]) content).2.look above =
        .ok (.directory (Entries.put entries name (.file content))) := by
  refine @update_there _ _ _ _ _ (some (.file content)) there valid ?_
  match found : Entries.get? entries name with
  | some (.directory below) => exact absurd found (free below)
  | some (.file content) => rfl
  | none => rfl

theorem append_there (before : Option String) (text : String)
    (found : Entries.get? entries name = before.map fun content => .file (some content)) :
    (files.append (above ++ [name]) text).1 = .ok () ∧
      (files.append (above ++ [name]) text).2.look above =
        .ok (.directory (Entries.put entries name (.file (some (before.getD "" ++ text))))) := by
  refine @update_there _ _ _ _ _ (some (.file (some (before.getD "" ++ text)))) there valid ?_
  rw [found]
  cases before with
  | none => rw [Option.getD_none, String.empty_append]; rfl
  | some content => rfl

theorem removeFile_there {content : Option String}
    (found : Entries.get? entries name = some (.file content)) :
    (files.removeFile (above ++ [name])).1 = .ok () ∧
      (files.removeFile (above ++ [name])).2.look above =
        .ok (.directory (Entries.remove entries name)) := by
  refine @update_there _ _ _ _ _ none there valid ?_
  rw [found]

end Directory

theorem look_makeDirectories (files : Files) (path other : List String)
    (names : ∀ name ∈ other, FileTree.isFileName name = true) (apart : ¬ other <+: path) :
    (files.makeDirectories path).2.look other = files.look other :=
  FileTree.look_makeDirectories path other files names apart

theorem makeDirectories_there {files : Files} {path : List String} {entries : Entries FileTree}
    (there : files.look path = .ok (.directory entries)) :
    files.makeDirectories path = (.ok (), files) := by
  match files with
  | none => cases there
  | some tree => rw [makeDirectories, FileTree.makeDirectories_there path tree entries there]

end Files

end Orchestration
