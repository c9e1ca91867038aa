import Ezer.HunkTracker.Queries

/-!
# Commands, rekeying and coalescing

The command loop of the actor. A command that can be coalesced drains the
queue: file notifications are merged per path, refreshes become flags, and all
other commands keep their order behind them.
-/

namespace Ezer.HunkTracker

open Ezer.Lib

/-- Commands that only read the state. -/
inductive HunkTrackerQuery where
  | getAllHunks
  | getHunksForPath (path : Path)
  | getFileHunkData (path : Path)
  | getHunksBySource (agent : Bool)
  | getHunk (id : HunkId)
  | isAgentFile (path : Path)
  | getAllTrackedPaths
  | getStagedFiles
  | getAllFileContents
  | getSessionSummary
  | getTurnHunks (promptIndex : ℕ)
  | snapshotState
  | snapshotTurnDelta (promptIndex : ℕ)

/-- Commands sent to the actor. -/
inductive HunkTrackerCommand where
  | recordAgentWrite (path : Path) (content : Text) (promptIndex : ℕ)
      (previousContent : Option Text)
  | handleFileChange (path : Path)
  | handleFileDeleted (path : Path)
  | refreshGitDirtyCache
  | resetBaseline (path : Path)
  | setMode (mode : TrackingMode)
  | setWorkingDir (workingDir : Path)
  | hunkAction (id : HunkId) (action : HunkAction)
  | fileAction (path : Path) (action : HunkAction)
  | allAction (action : HunkAction)
  | turnAction (promptIndex : ℕ) (action : HunkAction)
  | resetStats
  | refreshAllBaselines
  | restoreState (snapshot : HunkTrackerSnapshot)
  | query (query : HunkTrackerQuery)

/-- Move a file state to a new path, and its hunks with it. -/
def FileHunkState.rekey (state : FileHunkState) (path : Path) : FileHunkState :=
  { state with hunks := state.hunks.map fun h => { h with path := path } }

/-- Insert a rekeyed file state. On a collision the state that is there keeps
its contents and takes over the hunks and flags. -/
def mergeRekeyed (files : FileStates) (path : Path) (state : FileHunkState) : FileStates :=
  match files.lookup path with
  | none => files.insert path state
  | some dest =>
    files.insert path
      { dest with
        hunks := dest.hunks ++ state.hunks
        isAgentFile := dest.isAgentFile || state.isAgentFile
        baselineAccepted := dest.baselineAccepted || state.baselineAccepted }

/-- The new key of a path when the working directory moves. -/
def rekeyPath (oldCwd newCwd path : Path) : Path :=
  if path.startsWith newCwd then path
  else (rewriteSinglePath path oldCwd oldCwd newCwd).getD path

namespace HunkTrackerActor

/-- Rebase the file keys onto a new working directory. Files that are already
below it are inserted first, so that they keep their baseline. -/
def rekeyPathsForWorkingDir (s : HunkTrackerActor) (env : Env) (newCwd : Path) :
    HunkTrackerActor :=
  if newCwd = s.workingDir then s
  else
    let rewrite := rekeyPath s.workingDir newCwd
    let pairs := s.files env
    let already := pairs.filter fun f => f.1.startsWith newCwd
    let rewritten := pairs.filter fun f => !f.1.startsWith newCwd
    let next := already.foldl
      (fun (m : FileStates) f => m.insert (rewrite f.1) (f.2.rekey (rewrite f.1))) ∅
    let next := rewritten.foldl
      (fun m f => mergeRekeyed m (rewrite f.1) (f.2.rekey (rewrite f.1))) next
    { s with
      fileStates := next
      gitDirtyCache := (s.gitDirtyCache.map rewrite).dedup
      gitStagedCache := (s.gitStagedCache.map rewrite).dedup }

/-- Handle one command. -/
def handleCommand (s : HunkTrackerActor) (env : Env) : HunkTrackerCommand → HunkTrackerActor
  | .recordAgentWrite path content promptIndex previousContent =>
    s.recordAgentWrite env path content promptIndex previousContent
  | .handleFileChange path => s.handleFileChange env path
  | .handleFileDeleted path => s.handleFileDeleted env path
  | .refreshGitDirtyCache => s.refreshGitDirtyCache env none
  | .resetBaseline path => s.resetBaseline path
  | .setMode mode => s.setMode env mode
  | .setWorkingDir workingDir =>
    { s.rekeyPathsForWorkingDir env workingDir with
      workingDir := workingDir
      gitRepoState := .unknown
      repoSyncState := {} }
  | .hunkAction id action => (s.applyHunkAction env id action).1
  | .fileAction path action => (s.applyFileAction env path action).1
  | .allAction action => (s.applyAllAction env action).1
  | .turnAction promptIndex action => (s.applyTurnAction env promptIndex action).1
  | .resetStats => { s with sessionStats := {} }
  | .refreshAllBaselines => s.refreshAllBaselines env
  | .restoreState snapshot => s.restoreSnapshot snapshot
  | .query _ => s

end HunkTrackerActor

/-- Coalesced action for a single path within a batch. -/
inductive CoalescedPathAction where
  | changed
  | deleted
  | deletedThenChanged
  deriving DecidableEq

/-- A batch of coalesced commands drained from the channel. -/
structure CoalescedBatch where
  fileActions : AList fun _ : Path => CoalescedPathAction := ∅
  refreshAll : Bool := false
  refreshDirty : Bool := false
  otherCommands : List HunkTrackerCommand := []

namespace CoalescedBatch

/-- Merge one command into a batch. -/
def add (batch : CoalescedBatch) : HunkTrackerCommand → CoalescedBatch
  | .handleFileChange path =>
    let action :=
      match batch.fileActions.lookup path with
      | some .deleted => .deletedThenChanged
      | some action => action
      | none => .changed
    { batch with fileActions := batch.fileActions.insert path action }
  | .handleFileDeleted path =>
    { batch with fileActions := batch.fileActions.insert path .deleted }
  | .refreshAllBaselines => { batch with refreshAll := true }
  | .refreshGitDirtyCache => { batch with refreshDirty := true }
  | cmd => { batch with otherCommands := batch.otherCommands ++ [cmd] }

end CoalescedBatch

/-- Commands that can be coalesced into a batch. -/
def isCoalescable : HunkTrackerCommand → Bool
  | .handleFileChange _ | .handleFileDeleted _ | .refreshAllBaselines
  | .refreshGitDirtyCache => true
  | _ => false

/-- Drain the queue behind `first` into one batch. -/
def drainAndCoalesce (first : HunkTrackerCommand) (queue : List HunkTrackerCommand) :
    CoalescedBatch :=
  queue.foldl CoalescedBatch.add (CoalescedBatch.add {} first)

namespace HunkTrackerActor

end HunkTrackerActor

end Ezer.HunkTracker
