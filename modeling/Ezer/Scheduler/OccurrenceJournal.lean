import Ezer.Scheduler.Tasks
import Mathlib.Data.Finset.Union

/-!
# The journal of one-shot occurrences

Receipts of the removals of one-shot tasks that are under way. Reading a journal
never fails: what cannot be read is quarantined, or blocks every one-shot task.
-/

namespace Ezer.Scheduler

open Lib

/-- The number of one-shot removals that may be under way. -/
def maxPendingOneShots : ℕ := 50

/-- The number of task ids a journal keeps in quarantine. -/
def maxQuarantinedTaskIds : ℕ := 50

/-- The number of bytes a quarantined task id may have. -/
def maxTaskIdBytes : ℕ := 256

/-- What can go wrong with a journal. -/
inductive OccurrenceJournalError where
  | taskNotFound (taskId : String)
  | notDurableOneShot (taskId : String)
  | taskAlreadyJournaled (taskId : String)
  | journalFull
  | invalidVersions
  | duplicateTransitionVersion
  | recoveryRequired
  | occurrenceNotFound

section

variable {υ τ : Type} (sortRand : υ → Bool)

/-- The id of an occurrence, a UUID of the sortable kind. -/
abbrev ScheduledOccurrenceId : Type := { id : υ // sortRand id = true }

/-- Two transitions in a row: a task fires and is removed. -/
structure ScheduledOccurrenceVersions where
  fire : SchedulerVersion υ
  removal : SchedulerVersion υ
  sortRand_generation : sortRand fire.generation = true
  fire_ne_zero : fire.revision ≠ 0
  removal_generation : removal.generation = fire.generation
  removal_revision : removal.revision.toNat = fire.revision.toNat + 1

/-- A one-shot task that was taken out, with the versions of its transitions. -/
structure OneShotOccurrence (τ : Type) where
  occurrenceId : ScheduledOccurrenceId sortRand
  task : ScheduledTask τ
  versions : ScheduledOccurrenceVersions sortRand
  durableOneShot : task.recurring = false ∧ task.durable = true

/-- The occurrences that are under way and what could not be read. -/
structure OccurrenceJournal (τ : Type) where
  entries : List (OneShotOccurrence sortRand τ) := []
  quarantinedTaskIds : List String := []
  blockAllOneShots : Bool := false
  overflowed : Bool := false

/-- The scheduled tasks and the journal of their removals. -/
structure SchedulerState (τ : Type) where
  tasks : List (ScheduledTask τ)
  occurrenceJournal : OccurrenceJournal sortRand τ

end

variable {υ τ : Type} {sortRand : υ → Bool}

/-- Read the id of an occurrence. -/
def ScheduledOccurrenceId.ofJson (uuid : TextCodec υ) (json : Json) :
    Option (ScheduledOccurrenceId sortRand) :=
  (uuid.ofJson json).bind fun id => if h : sortRand id = true then some ⟨id, h⟩ else none

/-- The id of an occurrence as JSON. -/
def ScheduledOccurrenceId.toJson (uuid : TextCodec υ) (id : ScheduledOccurrenceId sortRand) :
    Json :=
  uuid.toJson id.1

namespace ScheduledOccurrenceVersions

variable [DecidableEq υ]

/-- Pair two versions, if they belong to transitions in a row. -/
def tryNew (fire removal : SchedulerVersion υ) :
    Except OccurrenceJournalError (ScheduledOccurrenceVersions sortRand) :=
  if h : sortRand fire.generation = true ∧ fire.revision ≠ 0 ∧
      removal.generation = fire.generation ∧
      removal.revision.toNat = fire.revision.toNat + 1 then
    .ok ⟨fire, removal, h.1, h.2.1, h.2.2.1, h.2.2.2⟩
  else .error .invalidVersions

/-- Whether a version belongs to one of the transitions. -/
def contains (versions : ScheduledOccurrenceVersions sortRand) (version : SchedulerVersion υ) :
    Bool :=
  versions.fire == version || versions.removal == version

/-- The versions as JSON. -/
def toJson (uuid : TextCodec υ) (versions : ScheduledOccurrenceVersions sortRand) : Json :=
  .object
    [("fire", versions.fire.toJson uuid), ("removal", versions.removal.toJson uuid)]

/-- Read the versions. -/
def ofJson (uuid : TextCodec υ) (json : Json) : Option (ScheduledOccurrenceVersions sortRand) := do
  let f ← json.fields ["fire", "removal"]
  let fire ← f.required "fire" (SchedulerVersion.ofJson uuid)
  let removal ← f.required "removal" (SchedulerVersion.ofJson uuid)
  (tryNew fire removal).toOption

/-- The versions of an occurrence can be paired. -/
@[simp] theorem tryNew_self (versions : ScheduledOccurrenceVersions sortRand) :
    tryNew versions.fire versions.removal = .ok versions := by
  rw [tryNew, dif_pos]
  exact ⟨versions.sortRand_generation, versions.fire_ne_zero, versions.removal_generation,
    versions.removal_revision⟩

/-- Versions that are written are read again. -/
@[simp] theorem ofJson_toJson (uuid : TextCodec υ)
    (versions : ScheduledOccurrenceVersions sortRand) :
    ofJson uuid (versions.toJson uuid) = some versions := by
  simp [ofJson, toJson, Json.fields, Fields.required, Json.get?, Except.toOption]

end ScheduledOccurrenceVersions

namespace OneShotOccurrence

variable [DecidableEq υ] (uuid : TextCodec υ) (time : TextCodec τ)

/-- An occurrence as JSON. -/
def toJson (occurrence : OneShotOccurrence sortRand τ) : Json :=
  .object
    [("occurrenceId", ScheduledOccurrenceId.toJson uuid occurrence.occurrenceId),
      ("task", occurrence.task.toJson time),
      ("versions", occurrence.versions.toJson uuid)]

/-- Read an occurrence. -/
def ofJson (json : Json) : Option (OneShotOccurrence sortRand τ) := do
  let f ← json.fields ["occurrenceId", "task", "versions"]
  let occurrenceId ← f.required "occurrenceId" (ScheduledOccurrenceId.ofJson uuid)
  let task ← f.required "task" (ScheduledTask.ofJson time)
  let versions ← f.required "versions" (ScheduledOccurrenceVersions.ofJson uuid)
  if h : task.recurring = false ∧ task.durable = true then
    some ⟨occurrenceId, task, versions, h⟩
  else none

/-- An occurrence that is written is read again. -/
@[simp] theorem ofJson_toJson (occurrence : OneShotOccurrence sortRand τ) :
    ofJson uuid time (occurrence.toJson uuid time) = some occurrence := by
  simp [ofJson, toJson, Json.fields, Fields.required, Json.get?, ScheduledOccurrenceId.ofJson,
    ScheduledOccurrenceId.toJson, occurrence.occurrenceId.2, occurrence.durableOneShot]

end OneShotOccurrence

/-- The elements of a field that should be an array, and whether it is none. -/
def parseJsonArray : Option Json → List Json × Bool
  | none => ([], false)
  | some (.array values) => (values, false)
  | some _ => ([], true)

/-- The truth value of a field that should be one, and whether it is none. -/
def parseJsonBool : Option Json → Bool × Bool
  | none => (false, false)
  | some (.bool value) => (value, false)
  | some _ => (true, true)

/-- The id of the task an entry is about, as far as the entry can be read. -/
def quarantinedTaskId (value : Json) : Option String :=
  (value.get? "task").bind fun task => (task.get? "id").bind Json.asStr

namespace OccurrenceJournal

variable [DecidableEq υ]

/-- Whether nothing is recorded. -/
def isEmpty (journal : OccurrenceJournal sortRand τ) : Bool :=
  journal.entries.isEmpty && journal.quarantinedTaskIds.isEmpty &&
    !journal.blockAllOneShots && !journal.overflowed

/-- Put a task id in quarantine, or block every one-shot task. -/
def quarantineTaskId (journal : OccurrenceJournal sortRand τ) (taskId : String) :
    OccurrenceJournal sortRand τ :=
  if taskId.isEmpty || decide (maxTaskIdBytes < taskId.utf8ByteSize) then
    { journal with blockAllOneShots := true }
  else if taskId ∈ journal.quarantinedTaskIds then journal
  else if journal.quarantinedTaskIds.length = maxQuarantinedTaskIds then
    { journal with blockAllOneShots := true }
  else { journal with quarantinedTaskIds := journal.quarantinedTaskIds ++ [taskId] }

/-- The parts a journal is read from. -/
structure Parts where
  entries : List Json
  taskIds : List String
  blockAll : Bool
  overflowed : Bool
  isMalformed : Bool

/-- Take a value apart. -/
def parts : Json → Parts
  | .array entries => ⟨entries, [], false, false, false⟩
  | .object fields =>
    let field := fun name => (Json.object fields).get? name
    let (entries, badEntries) := parseJsonArray (field "entries")
    let (taskValues, badTaskIds) := parseJsonArray (field "quarantinedTaskIds")
    let badTaskElement := taskValues.any fun value => value.asStr.isNone
    let taskIds := taskValues.filterMap Json.asStr
    let (blockAll, badBlock) := parseJsonBool (field "blockAllOneShots")
    let (overflowed, badOverflow) := parseJsonBool (field "overflowed")
    ⟨entries, taskIds, blockAll, overflowed,
      badEntries || badTaskIds || badTaskElement || badBlock || badOverflow⟩
  | _ => ⟨[], [], true, false, true⟩

/-- A journal without its entries. -/
def begin (p : Parts) : OccurrenceJournal sortRand τ :=
  let journal : OccurrenceJournal sortRand τ :=
    { blockAllOneShots := p.blockAll || p.overflowed || p.isMalformed, overflowed := p.overflowed }
  let journal := p.taskIds.foldl quarantineTaskId journal
  if maxPendingOneShots < p.entries.length then
    { journal with blockAllOneShots := true, overflowed := true }
  else journal

/-- A journal as JSON. -/
def toJson (uuid : TextCodec υ) (time : TextCodec τ) (journal : OccurrenceJournal sortRand τ) :
    Json :=
  .object <|
    [("entries", .array (journal.entries.map (OneShotOccurrence.toJson uuid time)))] ++
    (if journal.quarantinedTaskIds.isEmpty then []
      else [("quarantinedTaskIds", .array (journal.quarantinedTaskIds.map .string))]) ++
    (if journal.blockAllOneShots then [("blockAllOneShots", .bool true)] else []) ++
    if journal.overflowed then [("overflowed", .bool true)] else []

end OccurrenceJournal

end Ezer.Scheduler
