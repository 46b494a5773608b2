import Orchestration.Digest.Algorithm
import Orchestration.Time.Rfc3339
import Orchestration.Watch.Spec

/-! # Watch records

What is stored of a watch rule and of its data.  A stored record carries a checksum over the pretty
text of the record without it.
-/

set_option autoImplicit false

namespace Orchestration.Watch

structure Record where
  name : String
  stackId : Option String
  spec : Spec
  state : State
  lastEvaluated : Instant
  createdAt : Instant
  updatedAt : Option Instant
  checksum : Option String
  deriving DecidableEq

structure Point where
  createdAt : Instant
  samples : Samples
  deriving DecidableEq

def instant? (raw : Raw) : Option Instant :=
  raw.text?.bind Instant.ofText?

def absent? {α : Type} (value? : Raw → Option α) : Option Raw → Option (Option α)
  | none => some none
  | some raw => raw.optional? value?

namespace Record

def fresh (name : String) (stackId : Option String) (spec : Spec) (now : Instant) : Record :=
  ⟨name, stackId, spec, .normal, now, now, none, none⟩

def fieldNames : List String :=
  ["name", "stack_id", "rule", "state", "last_evaluated", "created_at", "updated_at", "checksum"]

def ofRaw? (raw : Raw) : Option Record :=
  match raw.fields? fieldNames with
  | some [some name, stackId, some spec, some state, some lastEvaluated, some createdAt, updatedAt,
      checksum] => do
    some {
      name := ← name.text?
      stackId := ← absent? Raw.text? stackId
      spec := ← Spec.ofRaw? spec
      state := ← state.name?.bind State.ofName?
      lastEvaluated := ← instant? lastEvaluated
      createdAt := ← instant? createdAt
      updatedAt := ← absent? instant? updatedAt
      checksum := ← absent? Raw.text? checksum }
  | _ => none

def toJson (record : Record) : Json :=
  .object (
    [("name", .string record.name),
     ("stack_id", .ofText? record.stackId),
     ("rule", record.spec.toJson),
     ("state", .string record.state.name),
     ("last_evaluated", .string record.lastEvaluated.text),
     ("created_at", .string record.createdAt.text),
     ("updated_at", .ofText? (record.updatedAt.map Instant.text))] ++
    Spec.field "checksum" (record.checksum.map .string))

def text (record : Record) : String :=
  record.toJson.pretty

/-- The digest of the record without its checksum. -/
def digest (record : Record) : String :=
  Digest.hexOfText Digest.Blake3.digest { record with checksum := none }.text

def sealed (record : Record) : Record :=
  { record with checksum := some record.digest }

end Record

namespace Point

def ofRaw? (raw : Raw) : Option Point :=
  match raw.fields? ["created_at", "data"] with
  | some [some createdAt, some samples] => do
    some ⟨← instant? createdAt, ← Samples.ofRaw? samples⟩
  | _ => none

def toJson (point : Point) : Json :=
  .object [("created_at", .string point.createdAt.text), ("data", point.samples.toJson)]

def text (point : Point) : String :=
  point.toJson.compact

/-- Points in the order of their times; of equal times the one appended first comes first. -/
def inOrder (points : List Point) : List Point :=
  points.mergeSort fun a b => a.createdAt.le b.createdAt

end Point

end Orchestration.Watch
