import Ezer.HunkTracker.Content
import Mathlib.Data.Finset.Basic

/-!
# Actor state and its surroundings

The actor owns the file map, the turn index, the git caches and the session
counters. The disk it reads and writes, the events it has sent and the supply
of ids are kept in the same record. Everything else a command meets, that is
the repository, the failures of its system calls, the diff and the iteration
order of the hash maps, is an environment chosen anew for each command.
-/

namespace Ezer.HunkTracker

open Ezer.Lib

/-- An entry of the HEAD tree. -/
inductive TreeEntry where
  | link
  | blob (content : FileBytes)
  | other

/-- One item of `git status`: its repository path, and whether it is a staged
change between HEAD and the index. -/
structure StatusItem where
  location : Path
  treeIndex : Bool

/-- Git state used to decide when to refresh baselines. -/
structure RepoSyncState where
  headOid : Option ℕ := none
  indexMtime : Option ℕ := none
  deriving DecidableEq

/-- A repository as the actor queries it. -/
structure GitRepo where
  /-- The HEAD tree by repository path, when HEAD peels to a commit. -/
  headTree : Option (Path → Option TreeEntry)
  syncState : RepoSyncState
  /-- The index file is absent or has no byte. -/
  indexEmpty : Bool
  /-- `git status` for pathspecs, or for the whole worktree; `none` on failure. -/
  status : Option (List Path) → Option (List StatusItem)

/-- Cached discovery of the repository. -/
inductive GitRepoState where
  | unknown
  | notARepo
  /-- The worktree root and the working directory's path below it. -/
  | discovered (root workPrefix : Path)
  deriving DecidableEq

/-- What one command meets outside the actor. -/
structure Env where
  diffLines : DiffLines
  /-- `gix::discover` with the prefix of the working directory. -/
  discover : Path → Option (Path × Path)
  repo : Path → GitRepo
  canonicalize : Path → Option Path
  /-- A blocking task is cancelled or panics. -/
  blockingFails : Bool
  /-- The parallel read of a path fails to join. -/
  readTaskFails : Path → Bool
  writeFails : Path → Bool
  removeFails : Path → Bool
  /-- The iteration order of a hash map with these keys. -/
  order : List Path → List Path
  order_perm : ∀ ps, (order ps).Perm ps

/-- An environment outside any repository in which every system call succeeds. -/
def Env.plain (diff : DiffLines) : Env where
  diffLines := diff
  discover := fun _ => none
  repo := fun _ => ⟨none, {}, true, fun _ => none⟩
  canonicalize := some
  blockingFails := false
  readTaskFails := fun _ => false
  writeFails := fun _ => false
  removeFails := fun _ => false
  order := id
  order_perm := fun _ => .refl _

/-- State of a single tracked file. -/
structure FileHunkState where
  baseline : FileContentState
  currentContent : FileContentState
  hunks : List Hunk
  isAgentFile : Bool
  baselineAccepted : Bool
  deriving DecidableEq

/-- The tracked files by absolute path. -/
abbrev FileStates := AList fun _ : Path => FileHunkState

/-- Hunk ids by prompt index; an absent key is the empty set. -/
abbrev TurnIndex := ℕ → Finset HunkId

namespace TurnIndex

/-- Remove one id from the set of its turn. -/
def remove (index : TurnIndex) (id : HunkId) (source : HunkSource) : TurnIndex :=
  match source.promptIndex with
  | some p => Function.update index p ((index p).erase id)
  | none => index

/-- Insert one id into the set of its turn. -/
def insert (index : TurnIndex) (id : HunkId) (source : HunkSource) : TurnIndex :=
  match source.promptIndex with
  | some p => Function.update index p (Insert.insert id (index p))
  | none => index

/-- Remove the ids of a list of hunks, one by one. -/
def drop (index : TurnIndex) (hunks : List Hunk) : TurnIndex :=
  hunks.foldl (fun index h => index.remove h.id h.source) index

/-- Insert the ids of a list of hunks, one by one. -/
def add (index : TurnIndex) (hunks : List Hunk) : TurnIndex :=
  hunks.foldl (fun index h => index.insert h.id h.source) index

theorem mem_remove {index : TurnIndex} {source : HunkSource} {p : ℕ} {id id' : HunkId} :
    id ∈ index.remove id' source p ↔
      id ∈ index p ∧ (source.promptIndex = some p → id' ≠ id) := by
  cases hp : source.promptIndex with
  | none => simp [remove, hp]
  | some q =>
    by_cases hq : q = p
    · subst hq
      simp [remove, hp, and_comm, eq_comm]
    · simp [remove, hp, hq, Function.update_of_ne (Ne.symm hq)]

theorem mem_insert {index : TurnIndex} {source : HunkSource} {p : ℕ} {id id' : HunkId} :
    id ∈ index.insert id' source p ↔
      id ∈ index p ∨ (source.promptIndex = some p ∧ id' = id) := by
  cases hp : source.promptIndex with
  | none => simp [insert, hp]
  | some q =>
    by_cases hq : q = p
    · subst hq
      simp [insert, hp, or_comm, eq_comm]
    · simp [insert, hp, hq, Function.update_of_ne (Ne.symm hq)]

/-- What is left in the set of a turn after dropping hunks. -/
theorem mem_drop {index : TurnIndex} {hunks : List Hunk} {p : ℕ} {id : HunkId} :
    id ∈ index.drop hunks p ↔
      id ∈ index p ∧ ∀ h ∈ hunks, h.source.promptIndex = some p → h.id ≠ id := by
  induction hunks generalizing index with
  | nil => simp [drop]
  | cons h hunks ih =>
    have hstep := @ih (index.remove h.id h.source)
    rw [mem_remove] at hstep
    simp only [drop, List.foldl_cons, List.forall_mem_cons] at hstep ⊢
    rw [hstep]
    tauto

/-- What is in the set of a turn after adding hunks. -/
theorem mem_add {index : TurnIndex} {hunks : List Hunk} {p : ℕ} {id : HunkId} :
    id ∈ index.add hunks p ↔
      id ∈ index p ∨ ∃ h ∈ hunks, h.source.promptIndex = some p ∧ h.id = id := by
  induction hunks generalizing index with
  | nil => simp [add]
  | cons h hunks ih =>
    have hstep := @ih (index.insert h.id h.source)
    rw [mem_insert] at hstep
    simp only [add, List.foldl_cons, List.exists_mem_cons_iff] at hstep ⊢
    rw [hstep]
    tauto

end TurnIndex

/-- The actor that owns all hunk tracking state. -/
structure HunkTrackerActor where
  workingDir : Path
  fileStates : FileStates
  turnIndex : TurnIndex
  gitDirtyCache : List Path
  gitStagedCache : List Path
  gitRepoState : GitRepoState
  repoSyncState : RepoSyncState
  mode : TrackingMode
  sessionStats : SessionStats
  /-- The file system the actor reads and writes. -/
  disk : Path → DiskEntry
  /-- The events sent so far, oldest first. -/
  events : List HunkEvent
  /-- The next id to be drawn. -/
  uuid : ℕ

namespace HunkTrackerActor

/-- The state every actor starts from. -/
def new (workingDir : Path) (mode : TrackingMode) (disk : Path → DiskEntry) (uuid : ℕ) :
    HunkTrackerActor where
  workingDir := workingDir
  fileStates := ∅
  turnIndex := fun _ => ∅
  gitDirtyCache := []
  gitStagedCache := []
  gitRepoState := .unknown
  repoSyncState := {}
  mode := mode
  sessionStats := {}
  disk := disk
  events := []
  uuid := uuid

/-- Append events to the channel. -/
def sendEvents (s : HunkTrackerActor) (es : List HunkEvent) : HunkTrackerActor :=
  { s with events := s.events ++ es }

/-- Store the state of one file. -/
def setFile (s : HunkTrackerActor) (path : Path) (state : FileHunkState) : HunkTrackerActor :=
  { s with fileStates := s.fileStates.insert path state }

/-- Drop one file from the map. -/
def eraseFile (s : HunkTrackerActor) (path : Path) : HunkTrackerActor :=
  { s with fileStates := s.fileStates.erase path }

/-- Whether a path is tracked. -/
def tracked (s : HunkTrackerActor) (path : Path) : Bool := (s.fileStates.lookup path).isSome

/-- The keys of the file map in iteration order. -/
def paths (s : HunkTrackerActor) (env : Env) : List Path := env.order s.fileStates.keys

/-- The entries of the file map in iteration order. -/
def files (s : HunkTrackerActor) (env : Env) : List (Path × FileHunkState) :=
  (s.paths env).filterMap fun p => (s.fileStates.lookup p).map (p, ·)

/-- The path relative to the working directory, or as it is. -/
def relative (s : HunkTrackerActor) (path : Path) : Path :=
  (path.stripPrefix s.workingDir).getD path

/-- Remove one hunk id from the set of its turn. -/
def removeFromTurnIndex (s : HunkTrackerActor) (id : HunkId) (source : HunkSource) :
    HunkTrackerActor :=
  { s with turnIndex := s.turnIndex.remove id source }

/-- Remove the ids of a list of hunks from the sets of their turns. -/
def dropFromTurnIndex (s : HunkTrackerActor) (hunks : List Hunk) : HunkTrackerActor :=
  { s with turnIndex := s.turnIndex.drop hunks }

/-- Insert the ids of a list of hunks into the sets of their turns. -/
def addToTurnIndex (s : HunkTrackerActor) (hunks : List Hunk) : HunkTrackerActor :=
  { s with turnIndex := s.turnIndex.add hunks }

/-- One removal event per hunk. -/
def removedEvents (path : Path) (hunks : List Hunk) (reason : HunkRemovalReason) :
    List HunkEvent :=
  hunks.map fun h => .hunkRemoved path h.id reason

end HunkTrackerActor

end Ezer.HunkTracker
