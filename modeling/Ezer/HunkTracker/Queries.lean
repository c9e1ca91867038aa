import Ezer.HunkTracker.Actions
import Mathlib.Data.Finset.Sort

/-!
# Queries and snapshots

Read-only views of the tracked hunks, and the snapshots that carry the state
over a session reload or a rewind.
-/

namespace Ezer.HunkTracker

/-- State preserved across session kill and reload cycles. -/
structure HunkTrackerSnapshot where
  fileStates : FileStates
  turnIndex : TurnIndex
  sessionStats : SessionStats

/-- The slice of the state that belongs to one turn. -/
structure HunkTurnDelta where
  promptIndex : ℕ
  fileStates : List (Path × FileHunkState)
  hunkIds : Finset HunkId

namespace HunkTrackerActor

/-- All hunks, file by file. -/
def getAllHunks (s : HunkTrackerActor) (env : Env) : List Hunk :=
  (s.files env).flatMap fun f => f.2.hunks

/-- The hunks of one path. -/
def getHunksForPath (s : HunkTrackerActor) (path : Path) : List Hunk :=
  ((s.fileStates.lookup path).map FileHunkState.hunks).getD []

/-- A specific hunk by id. -/
def getHunk (s : HunkTrackerActor) (env : Env) (id : HunkId) : Option Hunk :=
  (s.getAllHunks env).find? fun h => h.id = id

/-- The hunks of a turn, looked up through the turn index. -/
def getHunksForTurn (s : HunkTrackerActor) (env : Env) (promptIndex : ℕ) : List Hunk :=
  ((s.turnIndex promptIndex).sort (· ≤ ·)).filterMap (s.getHunk env)

/-- Snapshot of all hunk tracker state. -/
def takeSnapshot (s : HunkTrackerActor) : HunkTrackerSnapshot :=
  ⟨s.fileStates, s.turnIndex, s.sessionStats⟩

/-- The files that own the hunks of a turn, and the ids of that turn. -/
def takeTurnDelta (s : HunkTrackerActor) (env : Env) (promptIndex : ℕ) : HunkTurnDelta where
  promptIndex := promptIndex
  fileStates := (s.files env).filter fun f => f.2.hunks.any fun h => h.id ∈ s.turnIndex promptIndex
  hunkIds := s.turnIndex promptIndex

/-- Restore a snapshotted state. -/
def restoreSnapshot (s : HunkTrackerActor) (snapshot : HunkTrackerSnapshot) :
    HunkTrackerActor :=
  { s with
    fileStates := snapshot.fileStates
    turnIndex := snapshot.turnIndex
    sessionStats := snapshot.sessionStats }

end HunkTrackerActor

end Ezer.HunkTracker
