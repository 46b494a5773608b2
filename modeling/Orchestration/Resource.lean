import Orchestration.Json.Path

/-! # Resources and stacks

The action that last ran on a resource or a stack and how far it came, and what follows from it:
whether attributes can be read, and whether a stack accepts alarms.
-/

set_option autoImplicit false

namespace Orchestration

inductive Action where
  | init
  | create
  | delete
  | update
  | rollback
  | suspend
  | resume
  | adopt
  | snapshot
  | check
  deriving DecidableEq

namespace Action

def name : Action → String
  | .init => "INIT"
  | .create => "CREATE"
  | .delete => "DELETE"
  | .update => "UPDATE"
  | .rollback => "ROLLBACK"
  | .suspend => "SUSPEND"
  | .resume => "RESUME"
  | .adopt => "ADOPT"
  | .snapshot => "SNAPSHOT"
  | .check => "CHECK"

def all : List Action :=
  [.init, .create, .delete, .update, .rollback, .suspend, .resume, .adopt, .snapshot, .check]

def ofName? (name : String) : Option Action :=
  all.find? fun action => action.name == name

def exposesAttributes : Action → Bool
  | .create | .adopt | .suspend | .resume | .update => true
  | _ => false

theorem ofName?_name (action : Action) : ofName? action.name = some action := by
  cases action <;> decide

end Action

inductive Status where
  | inProgress
  | failed
  | complete
  deriving DecidableEq

namespace Status

def name : Status → String
  | .inProgress => "IN_PROGRESS"
  | .failed => "FAILED"
  | .complete => "COMPLETE"

def all : List Status := [.inProgress, .failed, .complete]

def ofName? (name : String) : Option Status :=
  all.find? fun status => status.name == name

def readable : Status → Bool
  | .failed => false
  | _ => true

theorem ofName?_name (status : Status) : ofName? status.name = some status := by
  cases status <;> decide

end Status

/-- An action and how far it came, such as `CREATE_COMPLETE`. -/
structure Progress where
  action : Action
  status : Status
  deriving DecidableEq

namespace Progress

def name (progress : Progress) : String :=
  progress.action.name ++ "_" ++ progress.status.name

/-- Only a stack that finished a create or an update accepts alarms. -/
def acceptsAlarms (progress : Progress) : Bool :=
  progress.status == .complete && (progress.action == .create || progress.action == .update)

def attributesReadable (progress : Progress) : Bool :=
  progress.action.exposesAttributes && progress.status.readable

def toJson (progress : Progress) : Json :=
  .object [("action", .string progress.action.name), ("status", .string progress.status.name)]

end Progress

structure Resource where
  name : String
  progress : Progress
  physicalId : Option String
  attributes : Object

namespace Resource

def created (name : String) : Resource :=
  ⟨name, ⟨.create, .complete⟩, some (name ++ "-id"), []⟩

def pending (name : String) : Resource :=
  ⟨name, ⟨.init, .complete⟩, none, []⟩

def readable (resource : Resource) : Bool :=
  resource.progress.attributesReadable

/-- The physical id once there is one, before that the name. -/
def referenceId (resource : Resource) : String :=
  resource.physicalId.getD resource.name

def attributeNames (resource : Resource) : List String :=
  Entries.keys resource.attributes

def attribute? (resource : Resource) (name : String) (path : List Json) : Option Json :=
  (Entries.get? resource.attributes name).bind fun value => value.at? path

end Resource

/-- The resource of a parent stack that a provider template stands in for. -/
structure Facade where
  metadata : Json
  deletionPolicy : Json
  updatePolicy : Json

structure Stack where
  parameters : Object
  resources : Entries Resource
  files : Entries String
  facade : Option Facade

namespace Stack

def parameter? (stack : Stack) (name : String) : Option Json :=
  Entries.get? stack.parameters name

def resource? (stack : Stack) (name : String) : Option Resource :=
  Entries.get? stack.resources name

def file? (stack : Stack) (key : String) : Option String :=
  Entries.get? stack.files key

def setParameter (stack : Stack) (name : String) (value : Json) : Stack :=
  { stack with parameters := Entries.put stack.parameters name value }

def unsetParameter (stack : Stack) (name : String) : Stack :=
  { stack with parameters := Entries.remove stack.parameters name }

def updateResource (stack : Stack) (name : String) (change : Resource → Resource) : Stack :=
  match stack.resource? name with
  | some resource =>
    { stack with resources := Entries.put stack.resources name (change resource) }
  | none => stack

end Stack

end Orchestration
