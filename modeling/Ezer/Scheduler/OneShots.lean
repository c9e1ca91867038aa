import Ezer.Scheduler.JournalReading

/-!
# One-shot removals

A one-shot task is taken out under a receipt, and the receipt is cleared when
the removal is done. What a journal says after a restart is reconciled with the
tasks there are.
-/

namespace Ezer.Scheduler

open Lib OccurrenceJournal

/-- The versions of the transitions of some entries. -/
def versionsOf {υ τ : Type} {sortRand : υ → Bool}
    (entries : List (OneShotOccurrence sortRand τ)) : List (SchedulerVersion υ) :=
  entries.flatMap fun entry => [entry.versions.fire, entry.versions.removal]

section

variable {υ τ : Type} {sortRand : υ → Bool} [DecidableEq υ]

/-- Whether two entries agree in what should tell them apart. -/
def hasConflict (entries : List (OneShotOccurrence sortRand τ)) : Bool :=
  (entries.map fun entry => entry.occurrenceId).dedup.length != entries.length ||
    (entries.map fun entry => entry.task.id).dedup.length != entries.length ||
    (versionsOf entries).dedup.length != entries.length * 2

namespace SchedulerState

/-- Take a one-shot task out under a receipt with the given id. -/
def prepareOneShotOccurrenceWithId (state : SchedulerState sortRand τ)
    (occurrenceId : ScheduledOccurrenceId sortRand) (taskId : String)
    (versions : ScheduledOccurrenceVersions sortRand) :
    Except OccurrenceJournalError (OneShotOccurrence sortRand τ × SchedulerState sortRand τ) :=
  let journal := state.occurrenceJournal
  if !journal.quarantinedTaskIds.isEmpty || journal.blockAllOneShots || journal.overflowed ||
      hasConflict journal.entries then
    .error .recoveryRequired
  else if maxPendingOneShots ≤ journal.entries.length then .error .journalFull
  else if journal.entries.any fun occurrence => occurrence.task.id == taskId then
    .error (.taskAlreadyJournaled taskId)
  else if journal.entries.any fun occurrence =>
      occurrence.versions.contains versions.fire ||
        occurrence.versions.contains versions.removal then
    .error .duplicateTransitionVersion
  else
    match state.tasks.findIdx? fun task => task.id == taskId with
    | none => .error (.taskNotFound taskId)
    | some index =>
      match state.tasks[index]? with
      | none => .error (.taskNotFound taskId)
      | some task =>
        if h : task.recurring = false ∧ task.durable = true then
          let occurrence : OneShotOccurrence sortRand τ := ⟨occurrenceId, task, versions, h⟩
          .ok (occurrence,
            { tasks := state.tasks.eraseIdx index,
              occurrenceJournal := { journal with entries := journal.entries ++ [occurrence] } })
        else .error (.notDurableOneShot taskId)

/-- Clear the receipt of a removal that is done. -/
def finishOneShotRemoval (state : SchedulerState sortRand τ)
    (occurrenceId : ScheduledOccurrenceId sortRand) :
    Except OccurrenceJournalError (OneShotOccurrence sortRand τ × SchedulerState sortRand τ) :=
  let journal := state.occurrenceJournal
  match journal.entries.findIdx? fun occurrence => occurrence.occurrenceId == occurrenceId with
  | none => .error .occurrenceNotFound
  | some index =>
    match journal.entries[index]? with
    | none => .error .occurrenceNotFound
    | some occurrence =>
      .ok (occurrence,
        { state with
          occurrenceJournal := { journal with entries := journal.entries.eraseIdx index } })

end SchedulerState

end

end Ezer.Scheduler
