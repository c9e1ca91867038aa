import Ezer.HunkTracker.Mutations
import Mathlib.Data.List.Sort

/-!
# Accept and reject actions

Accepting patches the baseline, rejecting patches the current content and
writes it to disk. The session counters and the turn index are updated before
the write is attempted, as in the source. Several hunks of one file are applied
from the end of the file to its beginning.
-/

namespace Ezer.HunkTracker

open Ezer.Lib

/-- The counters after one more accepted or rejected hunk. -/
def SessionStats.count (stats : SessionStats) (info : HunkLineInfo) (accepted : Bool) :
    SessionStats :=
  if accepted then
    { stats with
      acceptedHunks := saturatingAdd stats.acceptedHunks 1
      acceptedLinesAdded := saturatingAdd stats.acceptedLinesAdded info.newCount
      acceptedLinesRemoved := saturatingAdd stats.acceptedLinesRemoved info.oldCount }
  else
    { stats with
      rejectedHunks := saturatingAdd stats.rejectedHunks 1
      rejectedLinesAdded := saturatingAdd stats.rejectedLinesAdded info.newCount
      rejectedLinesRemoved := saturatingAdd stats.rejectedLinesRemoved info.oldCount }

/-- The hunks of a list whose id is not among the given hunks. -/
def withoutHunks (hunks removed : List Hunk) : List Hunk :=
  hunks.filter fun h => h.id ∉ removed.map Hunk.id

/-- Patch a baseline with the new side of hunks, from the last one to the first. -/
def acceptPatches (baseline : Text) (hunks : List Hunk) : Text :=
  (hunks.insertionSort fun a b => b.lineInfo.oldStart ≤ a.lineInfo.oldStart).foldl
    (fun text h => patchLines text h.lineInfo.oldStart h.lineInfo.oldCount h.newText) baseline

/-- Patch a current text with the old side of hunks, from the last one to the first. -/
def rejectPatches (current : Text) (hunks : List Hunk) : Text :=
  (hunks.insertionSort fun a b => b.lineInfo.newStart ≤ a.lineInfo.newStart).foldl
    (fun text h =>
      patchLines text h.lineInfo.newStart h.lineInfo.newCount (h.oldText.getD [])) current

/-- What rejecting hunks of a file has to do on disk. -/
inductive RejectAction where
  | restoreDeleted (baseline : Text)
  | deleteCreated
  | revertChange (patched : Text)
  | noOp

/-- Rejecting restores a deleted file, deletes a created one and reverts the
hunks of any other text. -/
def rejectAction (state : FileHunkState) (hunks : List Hunk) : RejectAction :=
  match state.baseline, state.currentContent with
  | .full b, .missing => .restoreDeleted b
  | .missing, .full _ => .deleteCreated
  | _, .full c => .revertChange (rejectPatches c hunks)
  | _, _ => .noOp

namespace HunkTrackerActor

def updateSessionStats (s : HunkTrackerActor) (info : HunkLineInfo) (accepted : Bool) :
    HunkTrackerActor :=
  { s with sessionStats := s.sessionStats.count info accepted }

/-- `fs::write`. -/
def writeDisk (s : HunkTrackerActor) (path : Path) (text : Text) : HunkTrackerActor :=
  { s with disk := Function.update s.disk path ((s.disk path).write text) }

/-- `fs::remove_file`. -/
def removeDisk (s : HunkTrackerActor) (path : Path) : HunkTrackerActor :=
  { s with disk := Function.update s.disk path .missing }

/-- Accept hunks of one file and recompute what is left. A created file takes
its whole current content as baseline. -/
def acceptHunksBatch (s : HunkTrackerActor) (env : Env) (path : Path) (hunks : List Hunk) :
    HunkTrackerActor :=
  if hunks = [] then s
  else
    match s.fileStates.lookup path with
    | none => s
    | some state =>
      let events := removedEvents path hunks .accepted ++ [.baselineUpdated path]
      let left := withoutHunks state.hunks hunks
      match state.baseline with
      | .missing =>
        (s.setFile path
          { state with
            baseline := state.currentContent
            baselineAccepted := true
            hunks := left }).sendEvents events
      | _ =>
        let baseline :=
          match state.baseline with
          | .full b => .full (acceptPatches b hunks)
          | other => other
        let s := (s.setFile path
          { state with
            baseline := baseline
            baselineAccepted := true
            hunks := left }).sendEvents events
        s.recomputeHunks env path (some state.currentContent) (s.remainingSource path)

/-- Accept a single hunk. -/
def acceptHunk (s : HunkTrackerActor) (env : Env) (path : Path) (hunk : Hunk) :
    HunkTrackerActor :=
  s.acceptHunksBatch env path [hunk]

/-- Reject hunks of one file: write the disk first, and on success update the
state and recompute what is left. -/
def rejectHunksBatch (s : HunkTrackerActor) (env : Env) (path : Path) (hunks : List Hunk) :
    HunkTrackerActor × Except HunkActionError Unit :=
  if hunks = [] then (s, .ok ())
  else
    match s.fileStates.lookup path with
    | none => (s, .ok ())
    | some state =>
      let events := removedEvents path hunks .rejected
      let left := withoutHunks state.hunks hunks
      match rejectAction state hunks with
      | .restoreDeleted baseline =>
        if env.writeFails path then (s, .error (.writeError path))
        else
          (((s.writeDisk path baseline).setFile path
            { state with currentContent := .full baseline, hunks := left }).sendEvents events,
            .ok ())
      | .deleteCreated =>
        if env.removeFails path then (s, .error (.deleteError path))
        else
          (((s.removeDisk path).setFile path
            { state with currentContent := .missing, hunks := left }).sendEvents events, .ok ())
      | .revertChange patched =>
        if env.writeFails path then (s, .error (.writeError path))
        else
          let s := ((s.writeDisk path patched).setFile path
            { state with currentContent := .full patched, hunks := left }).sendEvents events
          (s.recomputeHunks env path (some (.full patched)) (s.remainingSource path), .ok ())
      | .noOp => (s, .ok ())

/-- Reject a single hunk. -/
def rejectHunk (s : HunkTrackerActor) (env : Env) (path : Path) (hunk : Hunk) :
    HunkTrackerActor × Except HunkActionError Unit :=
  s.rejectHunksBatch env path [hunk]

/-- Count a hunk as handled and drop it from the turn index. -/
def settleHunk (s : HunkTrackerActor) (action : HunkAction) (hunk : Hunk) : HunkTrackerActor :=
  (s.updateSessionStats hunk.lineInfo (action = .accept)).removeFromTurnIndex hunk.id hunk.source

/-- Find the file that holds a hunk id. -/
def findHunk (s : HunkTrackerActor) (env : Env) (id : HunkId) : Option (Path × Hunk) :=
  (s.files env).findSome? fun f => (f.2.hunks.find? fun h => h.id = id).map (f.1, ·)

/-- Apply an action to a specific hunk. -/
def applyHunkAction (s : HunkTrackerActor) (env : Env) (id : HunkId) (action : HunkAction) :
    HunkTrackerActor × Except HunkActionError Unit :=
  match s.findHunk env id with
  | none => (s, .error (.hunkNotFound id))
  | some (path, hunk) =>
    let s := s.settleHunk action hunk
    match action with
    | .accept => (s.acceptHunk env path hunk, .ok ())
    | .reject => s.rejectHunk env path hunk

/-- Apply an action to hunks of several files, file by file; a failure returns
at once. -/
def applyActionBatch (env : Env) (action : HunkAction) :
    List (Path × List Hunk) → List HunkId → HunkTrackerActor →
      HunkTrackerActor × Except HunkActionError (List HunkId)
  | [], affected, s => (s, .ok affected)
  | (path, hunks) :: rest, affected, s =>
    let s := hunks.foldl (fun s h => s.settleHunk action h) s
    let affected := affected ++ hunks.map Hunk.id
    match action with
    | .accept => applyActionBatch env action rest affected (s.acceptHunksBatch env path hunks)
    | .reject =>
      match s.rejectHunksBatch env path hunks with
      | (s, .error e) => (s, .error e)
      | (s, .ok ()) => applyActionBatch env action rest affected s

/-- Apply an action to all hunks of a file. -/
def applyFileAction (s : HunkTrackerActor) (env : Env) (path : Path) (action : HunkAction) :
    HunkTrackerActor × Except HunkActionError (List HunkId) :=
  match s.fileStates.lookup path with
  | none => (s, .ok [])
  | some state =>
    if state.hunks = [] then (s, .ok [])
    else applyActionBatch env action [(path, state.hunks)] [] s

/-- Apply an action to the selected hunks of every file that has any. -/
def applySelected (s : HunkTrackerActor) (env : Env) (action : HunkAction)
    (selected : Hunk → Bool) : HunkTrackerActor × Except HunkActionError (List HunkId) :=
  let filesWithHunks := ((s.files env).map fun f => (f.1, f.2.hunks.filter selected)).filter
    fun f => f.2 ≠ []
  applyActionBatch env action filesWithHunks [] s

/-- Apply an action to all hunks. -/
def applyAllAction (s : HunkTrackerActor) (env : Env) (action : HunkAction) :
    HunkTrackerActor × Except HunkActionError (List HunkId) :=
  s.applySelected env action fun _ => true

/-- Apply an action to all hunks of a turn. -/
def applyTurnAction (s : HunkTrackerActor) (env : Env) (promptIndex : ℕ) (action : HunkAction) :
    HunkTrackerActor × Except HunkActionError (List HunkId) :=
  s.applySelected env action fun h => h.source.promptIndex = some promptIndex

end HunkTrackerActor

end Ezer.HunkTracker
