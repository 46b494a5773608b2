import Orchestration.Entries

/-! # Files

A directory tree as the file-backed store sees it below its root, which need not exist yet.  The
content of a file is its text, unless its bytes are no text.
-/

set_option autoImplicit false

namespace Orchestration

inductive FileError where
  | notFound
  | refused
  deriving DecidableEq

inductive FileTree where
  | file (content : Option String)
  | directory (entries : List (String × FileTree))

/-- The tree below the root, if the root exists. -/
abbrev Files : Type := Option FileTree

namespace FileTree

/-- File names have at most 255 bytes and no NUL. -/
def isFileName (name : String) : Bool :=
  name.utf8ByteSize ≤ 255 && name.toList.all (· != '\x00')

def look : FileTree → List String → Except FileError FileTree
  | tree, [] => .ok tree
  | .file _, _ :: _ => .error .refused
  | .directory entries, name :: rest =>
    if isFileName name then
      match Entries.get? entries name with
      | some below => look below rest
      | none => .error .notFound
    else .error .refused

/-- Replaces what stands at a path that is not empty: the change says what becomes of it.  The
directories on the way must exist. -/
def update (change : Option FileTree → Except FileError (Option FileTree)) :
    List String → FileTree → Except FileError FileTree
  | [], _ => .error .refused
  | _ :: _, .file _ => .error .refused
  | [name], .directory entries =>
    if isFileName name then
      (change (Entries.get? entries name)).map fun changed =>
        match changed with
        | some tree => .directory (Entries.put entries name tree)
        | none => .directory (Entries.remove entries name)
    else .error .refused
  | name :: next :: rest, .directory entries =>
    if isFileName name then
      match Entries.get? entries name with
      | none => .error .notFound
      | some below =>
        (update change (next :: rest) below).map fun below =>
          .directory (Entries.put entries name below)
    else .error .refused

/-- Makes a directory with those above it.  Those made before a failure stay. -/
def makeDirectories : List String → Files → Except FileError Unit × FileTree
  | [], none => (.ok (), .directory [])
  | [], some (.directory entries) => (.ok (), .directory entries)
  | _, some (.file content) => (.error .refused, .file content)
  | name :: rest, tree =>
    let entries := match tree with
      | some (.directory entries) => entries
      | _ => []
    if isFileName name then
      let (result, below) := makeDirectories rest (Entries.get? entries name)
      (result, .directory (Entries.put entries name below))
    else (.error .refused, .directory entries)

mutual

def paths (above : String) : FileTree → List String
  | .file _ => []
  | .directory entries => pathsOfEntries above entries

def pathsOfEntries (above : String) : List (String × FileTree) → List String
  | [] => []
  | (name, .file _) :: rest => (above ++ name) :: pathsOfEntries above rest
  | (name, .directory entries) :: rest =>
    (above ++ name ++ "/") :: (paths (above ++ name ++ "/") (.directory entries) ++
      pathsOfEntries above rest)

end

end FileTree

namespace Files

def look (files : Files) (path : List String) : Except FileError FileTree :=
  match files with
  | some tree => tree.look path
  | none => .error .notFound

def present (files : Files) (path : List String) : Bool :=
  match files.look path with
  | .ok _ => true
  | .error _ => false

def read (files : Files) (path : List String) : Except FileError String :=
  match files.look path with
  | .error e => .error e
  | .ok (.file (some text)) => .ok text
  | .ok _ => .error .refused

def fileNames (files : Files) (path : List String) : Except FileError (List String) :=
  match files.look path with
  | .error e => .error e
  | .ok (.directory entries) =>
    .ok (entries.filterMap fun (name, tree) =>
      match tree with
      | .file _ => some name
      | .directory _ => none)
  | .ok (.file _) => .error .refused

def makeDirectories (files : Files) (path : List String) : Except FileError Unit × Files :=
  let (result, tree) := FileTree.makeDirectories path files
  (result, some tree)

/-- Changes what stands at a path; on a failure nothing changes. -/
def update (files : Files) (path : List String)
    (change : Option FileTree → Except FileError (Option FileTree)) :
    Except FileError Unit × Files :=
  match files with
  | none => (.error .notFound, files)
  | some tree =>
    match tree.update change path with
    | .ok tree => (.ok (), some tree)
    | .error e => (.error e, files)

def write (files : Files) (path : List String) (content : Option String) :
    Except FileError Unit × Files :=
  files.update path fun present =>
    match present with
    | some (.directory _) => .error .refused
    | _ => .ok (some (.file content))

def touch (files : Files) (path : List String) : Except FileError Unit × Files :=
  files.update path fun present =>
    match present with
    | some (.directory _) => .error .refused
    | some file => .ok (some file)
    | none => .ok (some (.file (some "")))

def append (files : Files) (path : List String) (text : String) : Except FileError Unit × Files :=
  files.update path fun present =>
    match present with
    | some (.directory _) => .error .refused
    | some (.file content) => .ok (some (.file (content.map (· ++ text))))
    | none => .ok (some (.file (some text)))

def removeFile (files : Files) (path : List String) : Except FileError Unit × Files :=
  files.update path fun present =>
    match present with
    | some (.file _) => .ok none
    | some (.directory _) => .error .refused
    | none => .error .notFound

def list (files : Files) : List String :=
  match files with
  | some tree => (tree.paths "").mergeSort fun a b => !(decide (b < a))
  | none => []

end Files

end Orchestration
