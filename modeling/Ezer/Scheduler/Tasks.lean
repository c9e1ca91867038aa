import Ezer.Lib.Json

/-!
# Scheduled tasks

The tasks of the scheduler and the versions of its transitions, as they are
kept in memory and as they are written to the resources.
-/

namespace Ezer.Scheduler

open Lib

/-- A scheduled prompt; `τ` is the type of its times. -/
structure ScheduledTask (τ : Type) where
  id : String
  intervalSecs : UInt64
  prompt : String
  recurring : Bool
  durable : Bool
  createdAt : τ
  lastFiredAt : Option τ
  expiresAt : Option τ
  lastSubagentId : Option String
  iterationsSinceFresh : UInt32
  chainResetPending : Bool

namespace ScheduledTask

variable {τ : Type} (time : TextCodec τ)

/-- Whether a task is recurring where nothing says so. -/
def defaultRecurring : Bool := true

/-- The names of the fields, in their order. -/
def fieldNames : List String :=
  ["id", "intervalSecs", "prompt", "recurring", "durable", "createdAt", "lastFiredAt", "expiresAt",
    "lastSubagentId", "iterationsSinceFresh", "chainResetPending"]

/-- A task as JSON. -/
def toJson (task : ScheduledTask τ) : Json :=
  .object
    [("id", .string task.id),
      ("intervalSecs", .number task.intervalSecs.toNat),
      ("prompt", .string task.prompt),
      ("recurring", .bool task.recurring),
      ("durable", .bool task.durable),
      ("createdAt", time.toJson task.createdAt),
      ("lastFiredAt", Json.orNull time.toJson task.lastFiredAt),
      ("expiresAt", Json.orNull time.toJson task.expiresAt),
      ("lastSubagentId", Json.orNull .string task.lastSubagentId),
      ("iterationsSinceFresh", .number task.iterationsSinceFresh.toNat),
      ("chainResetPending", .bool task.chainResetPending)]

/-- Read a task. -/
def ofJson (json : Json) : Option (ScheduledTask τ) := do
  let f ← json.fields fieldNames
  let id ← f.required "id" Json.asStr
  let intervalSecs ← f.required "intervalSecs" Json.asU64
  let prompt ← f.required "prompt" Json.asStr
  let recurring ← f.orDefault "recurring" Json.asBool defaultRecurring
  let durable ← f.orDefault "durable" Json.asBool false
  let createdAt ← f.required "createdAt" time.ofJson
  let lastFiredAt ← f.optional "lastFiredAt" time.ofJson
  let expiresAt ← f.optional "expiresAt" time.ofJson
  let lastSubagentId ← f.orDefault "lastSubagentId" (Json.nullable Json.asStr) none
  let iterationsSinceFresh ← f.orDefault "iterationsSinceFresh" Json.asU32 0
  let chainResetPending ← f.orDefault "chainResetPending" Json.asBool false
  return {
    id, intervalSecs, prompt, recurring, durable, createdAt, lastFiredAt, expiresAt,
    lastSubagentId, iterationsSinceFresh, chainResetPending }

/-- A task that is written is read again. -/
@[simp] theorem ofJson_toJson (task : ScheduledTask τ) : ofJson time (task.toJson time) = some task := by
  simp [ofJson, toJson, Json.fields, Fields.required, Fields.orDefault, Fields.optional, Json.get?,
    Json.asStr, Json.asBool]

end ScheduledTask

/-- A point in the run of the scheduler; `υ` is the type of generation ids. -/
structure SchedulerVersion (υ : Type) where
  generation : υ
  revision : UInt64
  deriving DecidableEq

namespace SchedulerVersion

variable {υ : Type} (uuid : TextCodec υ)

/-- The names of the fields, in their order. -/
def fieldNames : List String := ["generation", "revision"]

/-- A version as JSON. -/
def toJson (version : SchedulerVersion υ) : Json :=
  .object
    [("generation", uuid.toJson version.generation), ("revision", .number version.revision.toNat)]

/-- Read a version. -/
def ofJson (json : Json) : Option (SchedulerVersion υ) := do
  let f ← json.fields fieldNames
  let generation ← f.required "generation" uuid.ofJson
  let revision ← f.required "revision" Json.asU64
  return { generation, revision }

/-- A version that is written is read again. -/
@[simp] theorem ofJson_toJson (version : SchedulerVersion υ) :
    ofJson uuid (version.toJson uuid) = some version := by
  simp [ofJson, toJson, Json.fields, Fields.required, Json.get?]

end SchedulerVersion

end Ezer.Scheduler
