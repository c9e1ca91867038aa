import Ezer.HunkTracker.Hunks

/-!
# Git reads

The repository is discovered once and cached in the actor. Baselines are read
from the HEAD tree, one path at a time or in a batch, and the status scan gives
the dirty and the staged paths below the working directory.
-/

namespace Ezer.HunkTracker

open Ezer.Lib

/-- The repository to read, its prefix, and a discovery to be cached. -/
structure OpenedRepo where
  root : Path
  workPrefix : Path
  discovered : Option GitRepoState

/-- Use the cached repository or discover it. -/
def openOrDiscover (env : Env) (cached : GitRepoState) (workingDir : Path) : Option OpenedRepo :=
  match cached with
  | .discovered root workPrefix => some ⟨root, workPrefix, none⟩
  | .unknown =>
    (env.discover workingDir).map fun (root, workPrefix) =>
      ⟨root, workPrefix, some (.discovered root workPrefix)⟩
  | .notARepo => none

/-- Canonicalize a path, or its parent when the path itself is gone. -/
def canonicalizeOrParent (env : Env) (path : Path) : Path :=
  (env.canonicalize path).getD
    (((path.parent.bind env.canonicalize).bind fun cp =>
      path.fileName.map fun name => cp.join [name]).getD path)

/-- The HEAD content of an absolute path. -/
def headContent (env : Env) (opened : OpenedRepo) (workingDir path : Path) : FileContentState :=
  match (canonicalizeOrParent env path).stripPrefix
      ((env.canonicalize workingDir).getD workingDir) with
  | none => .missing
  | some rel =>
    match (env.repo opened.root).headTree.bind fun tree => tree (opened.workPrefix.join rel) with
    | some .link => .symlink
    | some (.blob content) => classifyBytes content
    | _ => .missing

/-- The dirty and the staged paths of a status scan, relative to the working
directory. A failed scan and an empty index report nothing. -/
def scanStatus (env : Env) (opened : OpenedRepo) (scope : Option (List Path)) :
    List Path × List Path :=
  let repo := env.repo opened.root
  if repo.indexEmpty then ([], [])
  else
    match repo.status (scope.map fun rels => rels.map opened.workPrefix.join) with
    | none => ([], [])
    | some items =>
      let below := fun (is : List StatusItem) =>
        (is.filterMap fun i => i.location.stripPrefix opened.workPrefix).dedup
      (below items, below (items.filter StatusItem.treeIndex))

namespace HunkTrackerActor

/-- Cache the outcome of a first discovery. -/
def cacheDiscovery (s : HunkTrackerActor) (opened : Option OpenedRepo) : HunkTrackerActor :=
  match opened with
  | some o => { s with gitRepoState := o.discovered.getD s.gitRepoState }
  | none => if s.gitRepoState = .unknown then { s with gitRepoState := .notARepo } else s

/-- Read the git HEAD commit and the index time. -/
def readRepoSyncState (s : HunkTrackerActor) (env : Env) :
    Option RepoSyncState × HunkTrackerActor :=
  if s.gitRepoState = .notARepo ∨ env.blockingFails then (none, s)
  else
    let opened := openOrDiscover env s.gitRepoState s.workingDir
    (opened.map fun o => (env.repo o.root).syncState, s.cacheDiscovery opened)

/-- Read the baseline of one path from git HEAD. -/
def readBaseline (s : HunkTrackerActor) (env : Env) (path : Path) :
    FileContentState × HunkTrackerActor :=
  if s.gitRepoState = .notARepo ∨ env.blockingFails then (.missing, s)
  else
    let opened := openOrDiscover env s.gitRepoState s.workingDir
    ((opened.map fun o => headContent env o s.workingDir path).getD .missing,
      s.cacheDiscovery opened)

/-- Read the baselines of several paths with one look at HEAD. -/
def readBaselinesBatch (s : HunkTrackerActor) (env : Env) (paths : List Path) :
    (Path → Option FileContentState) × HunkTrackerActor :=
  if paths = [] ∨ s.gitRepoState = .notARepo ∨ env.blockingFails then (fun _ => none, s)
  else
    let opened := openOrDiscover env s.gitRepoState s.workingDir
    (fun p =>
        if p ∈ paths then
          some ((opened.map fun o => headContent env o s.workingDir p).getD .missing)
        else none,
      s.cacheDiscovery opened)

end HunkTrackerActor

end Ezer.HunkTracker
