import Orchestration.Migration.Parameters
import Orchestration.Schema

/-! # Applying rules

A rule walks its path through maps, and through every map of a list that it meets, and acts on the
target below each map that it reaches.  What was changed before an error stays changed.
-/

set_option autoImplicit false

namespace Orchestration.Migration

/-- What a rule writes: a value, whether it was found at the rule's value path, and the last key of
that path. -/
structure Source where
  value : Option Json
  fromPath : Bool
  name : String

/-- What is found at a value path: a populated value, nothing, or a parameter that is not
available. -/
inductive Lookup where
  | found (value : Json)
  | missing
  | skip

def valueAt (context : Context) : List String → Object → Change Object Lookup
  | [], data => (.ok .missing, data)
  | key :: rest, data =>
    match resolveSlot context data key with
    | (.error e, data) => (.error e, data)
    | (.ok false, data) => (.ok .skip, data)
    | (.ok true, data) =>
      match rest, Entries.get? data key with
      | [], some value => (.ok (if isPopulated value then .found value else .missing), data)
      | _ :: _, some (.object child) =>
        let (answer, child) := valueAt context rest child
        (answer, Entries.put data key (.object child))
      | _ :: _, some (.list _) => (.error .sourceInsideList, data)
      | _, _ => (.ok .missing, data)

/-- Appends the items of the source to the list at a key.  A list is created only where the schema
declares one. -/
def addTo (rule : Rule) (schema : Option Schema) (source : Source) (data : Object) (key : String) :
    Change Object Bool :=
  let addition := match rule.valueName with
    | some name =>
      match Entries.get? data name with
      | some .null | none => none
      | some value => some value
    | none => source.value
  match addition with
  | none => (.ok false, data)
  | some addition =>
    let items := match addition with
      | .list items => items
      | other => [other]
    let declared := ((schema.bind fun s => Entries.get? s key).map PropertyType.isList).getD false
    match Entries.get? data key with
    | some (.list present) => (.ok true, Entries.put data key (.list (present ++ items)))
    | none | some .null =>
      if declared then (.ok true, Entries.put data key (.list items))
      else (.error (.notAList key), data)
    | some _ => (.error (.notAList key), data)

/-- Writes the source at a key, or moves the sibling there.  Two populated spellings conflict. -/
def replaceAt (rule : Rule) (source : Source) (data : Object) (key : String) : Change Object Bool :=
  let populatedAt (k : String) := ((Entries.get? data k).map isPopulated).getD false
  match rule.valueName with
  | some name =>
    if populatedAt key && populatedAt name then (.error (.conflict key name), data)
    else
      let left := Entries.erase data name
      match Entries.get? data name with
      | some .null | none =>
        match source.value with
        | some value => (.ok true, Entries.put left key value)
        | none => (.ok false, left)
      | some sibling => (.ok true, Entries.put left key sibling)
  | none =>
    match source.value with
    | none => (.ok false, data)
    | some value =>
      if source.fromPath && populatedAt key then (.error (.conflict key source.name), data)
      else (.ok true, Entries.put data key value)

def deleteAt (data : Object) (key : String) : Change Object Bool :=
  (.ok (Entries.has data key), Entries.erase data key)

def findItem (context : Context) (finder : Finder) : Json → Except Error Json
  | .string name =>
    if name.isEmpty then .ok (.string name) else (context.find finder name).map .string
  | other => .ok other

def findIds (context : Context) (finder : Finder) : Json → Except Error (Option Json)
  | .string name =>
    if name.isEmpty then .ok none else (findItem context finder (.string name)).map some
  | .list items =>
    if items.isEmpty then .ok none
    else (items.mapM (findItem context finder)).map fun found => some (.list found)
  | _ => .ok none

/-- Replaces a name, or the names of a list, by ids.  A reference to another resource stands for an
id already; any other function is resolved first. -/
def resolveAt (context : Context) (rule : Rule) (data : Object) (key : String) :
    Change Object Bool :=
  match rule.finder, Entries.get? data key with
  | some finder, some current =>
    if context.function? current = some .getResource then (.ok false, data)
    else
      let value :=
        if (context.function? current).isSome then
          (context.resolve current).mapError Error.template
        else .ok current
      match value.bind (findIds context finder) with
      | .error e => (.error e, data)
      | .ok none => (.ok false, data)
      | .ok (some ids) => (.ok true, Entries.put data key ids)
  | _, _ => (.ok false, data)

def actAt (context : Context) (rule : Rule) (schema : Option Schema) (source : Source)
    (data : Object) (key : String) : Change Object Bool :=
  match rule.kind with
  | .add => addTo rule schema source data key
  | .replace => replaceAt rule source data key
  | .delete => deleteAt data key
  | .resolve => resolveAt context rule data key

/-- Goes through the maps of a list up to an error; the answer tells whether any wrote something. -/
def overMaps (step : Object → Change Object Bool) : List Json → Change (List Json) Bool
  | [] => (.ok false, [])
  | .object child :: rest =>
    match step child with
    | (.error e, child) => (.error e, .object child :: rest)
    | (.ok wrote, child) =>
      let (answer, rest) := overMaps step rest
      (answer.map (wrote || ·), .object child :: rest)
  | other :: rest =>
    let (answer, rest) := overMaps step rest
    (answer, other :: rest)

/-- Makes sure that there is something below a key: a missing map is created where the schema
declares one, unless the rule leaves missing maps alone. -/
def openBelow (rule : Rule) (schema : Option Schema) (data : Object) (key : String) : Object :=
  match Entries.get? data key with
  | none | some .null =>
    let declared := ((schema.bind fun s => Entries.get? s key).map PropertyType.isMap).getD false
    if declared && !rule.skipsMissing then Entries.put data key (.object []) else data
  | some _ => data

def walk (context : Context) (rule : Rule) (source : Source) :
    List String → Option Schema → Object → Change Object Bool
  | [], _, data => (.ok false, data)
  | [key], schema, data =>
    match resolveSlot context data key with
    | (.ok true, data) => actAt context rule schema source data key
    | stopped => stopped
  | key :: next :: rest, schema, data =>
    match resolveSlot context data key with
    | (.ok true, data) =>
      let data := openBelow rule schema data key
      let below := schema.bind fun s => s.child? key
      match Entries.get? data key with
      | some (.object child) =>
        let (answer, child) := walk context rule source (next :: rest) below child
        (answer, Entries.put data key (.object child))
      | some (.list items) =>
        let (answer, items) :=
          overMaps (fun child => walk context rule source (next :: rest) below child) items
        (answer, Entries.put data key (.list items))
      | _ => (.ok false, data)
    | stopped => stopped

def removeAt : List String → Object → Object
  | [], data => data
  | [key], data => Entries.erase data key
  | key :: next :: rest, data =>
    match Entries.get? data key with
    | some (.object child) => Entries.put data key (.object (removeAt (next :: rest) child))
    | _ => data

namespace Rule

def source (rule : Rule) (found : Option Json) : Source :=
  ⟨found <|> rule.value, found.isSome, ((rule.valuePath.getD []).getLast?).getD ""⟩

def write (context : Context) (schema : Schema) (rule : Rule) (found : Option Json)
    (data : Object) :
    Change Object Unit :=
  let source := rule.source found
  if (rule.kind == .add || rule.kind == .replace) && source.value.isNone &&
      rule.valueName.isNone then
    (.ok (), data)
  else
    match walk context rule source rule.path (some schema) data with
    | (.error e, data) => (.error e, data)
    | (.ok wrote, data) =>
      if wrote && source.fromPath && rule.kind == .replace then
        (.ok (), removeAt (rule.valuePath.getD []) data)
      else (.ok (), data)

def execute (context : Context) (schema : Schema) (rule : Rule) (data : Object) :
    Change Object Unit :=
  match rule.valuePath with
  | none => rule.write context schema none data
  | some path =>
    match valueAt context path data with
    | (.error e, data) => (.error e, data)
    | (.ok .skip, data) => (.ok (), data)
    | (.ok .missing, data) => rule.write context schema none data
    | (.ok (.found value), data) => rule.write context schema (some value) data

end Rule

def executeAll (context : Context) (schema : Schema) : List Rule → Object → Change Object Unit
  | [], data => (.ok (), data)
  | rule :: rest, data =>
    match rule.execute context schema data with
    | (.ok (), data) => executeAll context schema rest data
    | stopped => stopped

def migrate (context : Context) (schema : Schema) (rules : List Rule) (data : Object) :
    Change Object Unit :=
  match rules.forM Rule.validate with
  | .error e => (.error e, data)
  | .ok () => executeAll context schema rules data

end Orchestration.Migration
