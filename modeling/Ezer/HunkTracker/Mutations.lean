import Ezer.HunkTracker.Git

/-!
# Mutations

Handlers of agent writes, file notifications, baseline resets, refreshes and
mode switches. The order of the branches and of the state updates is that of
the source, since several claims depend on which update comes first.
-/

namespace Ezer.HunkTracker

open Ezer.Lib

/-- Strip a single trailing newline for equality comparison. -/
def stripSingleTrailingNewline (content : Text) : Text :=
  match stripSuffix '\n' content with
  | none => content
  | some q => (stripSuffix '\r' q).getD q

namespace HunkTrackerActor

/-- Start tracking a path without hunks. -/
def trackFile (s : HunkTrackerActor) (path : Path) (baseline current : FileContentState)
    (isAgentFile : Bool) : HunkTrackerActor :=
  (s.setFile path ⟨baseline, current, [], isAgentFile, false⟩).sendEvents
    [.fileAdded path isAgentFile]

/-- Record that an agent tool wrote to a file. -/
def recordAgentWrite (s : HunkTrackerActor) (env : Env) (path : Path) (content : Text)
    (promptIndex : ℕ) (previousContent : Option Text) : HunkTrackerActor :=
  let current := classifyString content
  if ¬current.isDiffable then
    match s.fileStates.lookup path with
    | none =>
      match previousContent with
      | some prev => s.trackFile path (classifyString prev) current true
      | none =>
        let (baseline, s) := s.readBaseline env path
        s.trackFile path baseline current true
    | some state =>
      s.setFile path { state with isAgentFile := true, currentContent := current, hunks := [] }
  else
    let s :=
      match s.fileStates.lookup path with
      | none =>
        let (head, s) := s.readBaseline env path
        let baseline :=
          if head = FileContentState.missing then
            (previousContent.map classifyString).getD .missing
          else head
        s.trackFile path baseline current true
      | some state => s.setFile path { state with isAgentFile := true }
    s.recomputeHunks env path (some current) (.agentEdit promptIndex)

/-- The preloaded baseline, else the one read from git on demand. -/
def baselineOr (s : HunkTrackerActor) (env : Env) (path : Path)
    (preloaded : Option FileContentState) : FileContentState × HunkTrackerActor :=
  match preloaded with
  | some b => (b, s)
  | none => s.readBaseline env path

/-- In the mode that follows every dirty file, a path that is neither in HEAD
nor dirty nor a directory is ignored by git. -/
def isGitignored (s : HunkTrackerActor) (path : Path) (baseline : FileContentState) : Bool :=
  s.mode = .allDirty && baseline = .missing && !(s.disk path).isDir &&
    s.relative path ∉ s.gitDirtyCache

/-- The content on disk is that of HEAD, up to one trailing newline. -/
def contentMatchesHead (s : HunkTrackerActor) (path : Path) (current head : FileContentState) :
    Bool :=
  match current, head with
  | .full c, .full h => stripSingleTrailingNewline c = stripSingleTrailingNewline h
  | .missing, .missing => true
  | .binary _, .binary _ => true
  | .tooLarge _, .tooLarge _ => true
  | .lfsPointer _, .lfsPointer _ => true
  | .symlink, .symlink => true
  | .symlink, .full _ => s.relative path ∉ s.gitDirtyCache
  | .full _, .symlink => s.relative path ∉ s.gitDirtyCache
  | _, _ => false

/-- An external edit is attributed by whether the agent has touched the file. -/
def externalSource (s : HunkTrackerActor) (path : Path) : HunkSource :=
  if ((s.fileStates.lookup path).map FileHunkState.isAgentFile).getD false then
    .externalEditOnAgentFile
  else .external

/-- Shared handling of one file change, with the baseline preloaded or read on
demand. -/
def processFileChange (s : HunkTrackerActor) (env : Env) (path : Path)
    (preloaded : Option FileContentState) : HunkTrackerActor :=
  let current := (s.disk path).readFileBounded
  match s.fileStates.lookup path with
  | none =>
    if s.mode = .agentOnly then s
    else
      let (baseline, s) := s.baselineOr env path preloaded
      if s.isGitignored path baseline then s
      else if ¬current.isDiffable then
        let s := s.trackFile path baseline current false
        if baseline.isDiffable then s.recomputeHunks env path none .external else s
      else
        let s := s.trackFile path baseline .missing false
        s.recomputeHunks env path (some current) (s.externalSource path)
  | some state =>
    if state.baselineAccepted then
      let (head, s) := s.baselineOr env path preloaded
      if s.contentMatchesHead path current head then
        -- The file was restored to HEAD: it appears clean from here on.
        s.setFile path
          { state with
            baseline := head
            currentContent := head
            baselineAccepted := false
            hunks := [] }
      else s.recomputeHunks env path (some current) (s.externalSource path)
    else s.recomputeHunks env path (some current) (s.externalSource path)

/-- A change notification for one file. -/
def handleFileChange (s : HunkTrackerActor) (env : Env) (path : Path) : HunkTrackerActor :=
  s.processFileChange env path none

/-- A deletion notification for one file. A path that still exists was
replaced, not deleted. -/
def handleFileDeleted (s : HunkTrackerActor) (env : Env) (path : Path) : HunkTrackerActor :=
  match s.fileStates.lookup path with
  | none =>
    if s.mode = .agentOnly then s
    else if (s.disk path).pathExists then s
    else
      let (baseline, s) := s.readBaseline env path
      if baseline = .missing then s
      else (s.trackFile path baseline .missing false).recomputeHunks env path none .external
  | some _ =>
    if (s.disk path).pathExists then s.handleFileChange env path
    else s.recomputeHunks env path none (s.externalSource path)

/-- Reset the baseline of a file to its current content. -/
def resetBaseline (s : HunkTrackerActor) (path : Path) : HunkTrackerActor :=
  match s.fileStates.lookup path with
  | none => s
  | some state =>
    let s := s.setFile path
      { state with baseline := state.currentContent, baselineAccepted := false, hunks := [] }
    (s.dropFromTurnIndex state.hunks).sendEvents
      (removedEvents path state.hunks .superseded ++ [.baselineUpdated path])

/-- Refresh the dirty and staged caches; following every dirty file, start
tracking the dirty files that are not tracked yet. -/
def refreshGitDirtyCache (s : HunkTrackerActor) (env : Env) (scope : Option (List Path)) :
    HunkTrackerActor :=
  if s.gitRepoState = .notARepo ∨ env.blockingFails then s
  else
    let opened := openOrDiscover env s.gitRepoState s.workingDir
    let (dirty, staged) := (opened.map fun o => scanStatus env o scope).getD ([], [])
    let s := s.cacheDiscovery opened
    let pathsToTrack := (env.order dirty).filter fun rel => !s.tracked (s.workingDir.join rel)
    let s := { s with gitDirtyCache := dirty, gitStagedCache := staged }
    if s.mode = .allDirty then
      pathsToTrack.foldl (fun s rel => s.handleFileChange env (s.workingDir.join rel)) s
    else s

/-- Whether a refreshed file is clean: equal texts up to one trailing newline;
for content that cannot be diffed, what the dirty cache says. -/
def isClean (s : HunkTrackerActor) (path : Path) (baseline current : FileContentState) : Bool :=
  let notDirty : Bool := s.relative path ∉ s.gitDirtyCache
  match baseline, current with
  | .full b, .full c => stripSingleTrailingNewline b = stripSingleTrailingNewline c
  | .binary _, .binary _ => notDirty
  | .tooLarge _, .tooLarge _ => notDirty
  | .symlink, .symlink => notDirty
  | .lfsPointer _, _ => notDirty
  | _, .lfsPointer _ => notDirty
  | .symlink, .full _ => notDirty
  | .full _, .symlink => notDirty
  | .missing, .missing => !(s.disk path).pathExists
  | .missing, _ => notDirty
  | _, _ => false

/-- Give one tracked file its new baseline and content: drop a clean file, or
clear its hunks when the agent has touched it, and recompute any other. -/
def refreshFile (s : HunkTrackerActor) (env : Env) (path : Path)
    (newBaseline newCurrent : FileContentState) : HunkTrackerActor :=
  match s.fileStates.lookup path with
  | none => s
  | some state =>
    let fresh :=
      { state with
        baseline := newBaseline
        currentContent := newCurrent
        baselineAccepted := false }
    if s.isClean path newBaseline newCurrent then
      if state.isAgentFile then
        ((s.setFile path { fresh with hunks := [] }).dropFromTurnIndex state.hunks).sendEvents
          (removedEvents path state.hunks .superseded ++ [.baselineUpdated path])
      else
        ((s.eraseFile path).dropFromTurnIndex state.hunks).sendEvents
          (removedEvents path state.hunks .superseded ++ [.fileRemoved path])
    else
      ((s.setFile path fresh).recomputeHunks env path (some newCurrent)
        (if state.isAgentFile then .externalEditOnAgentFile else .external)).sendEvents
        [.baselineUpdated path]

/-- Refresh the dirty cache, for the tracked files only when no other file is
followed. -/
def refreshDirtyForMode (s : HunkTrackerActor) (env : Env) : HunkTrackerActor :=
  match s.mode with
  | .allDirty => s.refreshGitDirtyCache env none
  | .agentOnly =>
    match (s.paths env).filterMap fun p : Path => p.stripPrefix s.workingDir with
    | [] => { s with gitDirtyCache := [], gitStagedCache := [] }
    | rels => s.refreshGitDirtyCache env (some rels)

/-- Refresh every tracked file outside `skip`, with one read of HEAD and one of
the disk in front. -/
def refreshTracked (s : HunkTrackerActor) (env : Env) (skip : List Path) : HunkTrackerActor :=
  let paths := (s.paths env).filter fun p => p ∉ skip
  let (baselines, s) := s.readBaselinesBatch env paths
  let disk := s.disk
  let current := fun p =>
    if env.readTaskFails p then FileContentState.missing else (disk p).readFileBounded
  paths.foldl (fun s p => s.refreshFile env p ((baselines p).getD .missing) (current p)) s

/-- Refresh all baselines from git HEAD and all contents from disk, except for
the paths in `skip`. Nothing happens when HEAD and index have not moved. -/
def refreshAllBaselinesExcept (s : HunkTrackerActor) (env : Env) (skip : List Path) :
    HunkTrackerActor :=
  if s.mode = .agentOnly ∧ s.fileStates.keys = [] then s
  else
    let (sync, s) := s.readRepoSyncState env
    if sync = some s.repoSyncState then s
    else
      let s := { s with repoSyncState := sync.getD s.repoSyncState }
      (s.refreshDirtyForMode env).refreshTracked env skip

/-- Refresh all baselines. -/
def refreshAllBaselines (s : HunkTrackerActor) (env : Env) : HunkTrackerActor :=
  s.refreshAllBaselinesExcept env []

/-- Stop tracking one file. -/
def untrackFile (s : HunkTrackerActor) (path : Path) : HunkTrackerActor :=
  match s.fileStates.lookup path with
  | none => s
  | some state =>
    ((s.eraseFile path).dropFromTurnIndex state.hunks).sendEvents
      (removedEvents path state.hunks .superseded ++ [.fileRemoved path])

/-- Switch the tracking mode: track the dirty files, or drop the files that the
agent has not touched. -/
def setMode (s : HunkTrackerActor) (env : Env) (mode : TrackingMode) : HunkTrackerActor :=
  let oldMode := s.mode
  let s := { s with mode := mode }
  if oldMode = .agentOnly ∧ mode = .allDirty then s.refreshGitDirtyCache env none
  else if oldMode = .allDirty ∧ mode = .agentOnly then
    (((s.files env).filter fun f => !f.2.isAgentFile).map Prod.fst).foldl untrackFile s
  else s

end HunkTrackerActor

end Ezer.HunkTracker
