import Ezer.Lib.Lines
import Mathlib.Data.List.AList
import Mathlib.Algebra.GroupWithZero.Nat

/-!
# Core types of the hunk tracker

Hunks, their sources and positions, the content states of a tracked file, the
events sent to subscribers and the paths that key the tracker's maps. Paths
are component lists, so that two spellings of one path are one key. Times and
presentation fields, which no decision reads, are left out.
-/

namespace Ezer.HunkTracker

open Ezer.Lib

/-- One component of a path; only an absolute path holds the root. -/
inductive Component where
  | rootDir
  | normal (name : Text)
  deriving DecidableEq

/-- A path is the list of its components, which is how paths compare. -/
abbrev Path := List Component

instance : LawfulBEq Path := inferInstance

namespace Path

/-- `Path::starts_with`: component-wise prefix. -/
def startsWith (path base : Path) : Bool := base.isPrefixOf path

/-- `Path::strip_prefix`: what is left of a path below a base. -/
def stripPrefix (path base : Path) : Option Path :=
  if path.startsWith base then some (path.drop base.length) else none

/-- `Path::join`: an absolute argument replaces the base. -/
def join (base rel : Path) : Path :=
  if rel.head? = some .rootDir then rel else base ++ rel

/-- `Path::parent`: all but the last component. -/
def parent (path : Path) : Option Path :=
  if path = [] ∨ path = [.rootDir] then none else some path.dropLast

/-- `Path::file_name`: the last component when it is a name. -/
def fileName (path : Path) : Option Component :=
  match path.getLast? with
  | some (.normal name) => some (.normal name)
  | _ => none

end Path

/-- UUIDs are numbered in the order in which they are drawn, so that fresh
ones never repeat. -/
abbrev HunkId := ℕ

/-- Line information for a hunk, mirroring a unified diff header. -/
structure HunkLineInfo where
  oldStart : ℕ
  oldCount : ℕ
  newStart : ℕ
  newCount : ℕ
  deriving DecidableEq

/-- Who made a change. -/
inductive HunkSource where
  | agentEdit (promptIndex : ℕ)
  | externalEditOnAgentFile
  | external
  deriving DecidableEq

namespace HunkSource

def isAgentEdit : HunkSource → Bool
  | agentEdit _ => true
  | _ => false

def isExternal : HunkSource → Bool
  | external | externalEditOnAgentFile => true
  | agentEdit _ => false

/-- The prompt index of an agent edit. -/
def promptIndex : HunkSource → Option ℕ
  | agentEdit p => some p
  | _ => none

end HunkSource

/-- A single contiguous change of one file. -/
structure Hunk where
  id : HunkId
  path : Path
  lineInfo : HunkLineInfo
  source : HunkSource
  oldText : Option Text
  newText : Text
  deriving DecidableEq

namespace Hunk

/-- The hunk of a file that was created, with no baseline. -/
def fileCreated (id : HunkId) (path : Path) (content : Text) (source : HunkSource) : Hunk where
  id := id
  path := path
  lineInfo := ⟨0, 0, 1, max (lines content).length 1⟩
  source := source
  oldText := none
  newText := content

/-- The hunk of a file that was deleted. -/
def fileDeleted (id : HunkId) (path : Path) (content : Text) (source : HunkSource) : Hunk where
  id := id
  path := path
  lineInfo := ⟨1, max (lines content).length 1, 0, 0⟩
  source := source
  oldText := some content
  newText := []

end Hunk

/-- Action to take on a hunk. -/
inductive HunkAction where
  | accept
  | reject
  deriving DecidableEq

/-- Failure of an accept or reject action. -/
inductive HunkActionError where
  | hunkNotFound (id : HunkId)
  | writeError (path : Path)
  | deleteError (path : Path)
  deriving DecidableEq

/-- Which files the tracker follows. -/
inductive TrackingMode where
  | agentOnly
  | allDirty
  deriving DecidableEq

/-- The values of `usize`. -/
abbrev Usize := Fin (2 ^ 64)

instance neZeroUsize : NeZero (2 ^ 64 : ℕ) := ⟨by decide⟩

/-- The largest value of the counters. -/
def usizeMax : Usize := ⟨2 ^ 64 - 1, by decide⟩

/-- `usize::saturating_add`. -/
def saturatingAdd (a : Usize) (b : ℕ) : Usize :=
  ⟨min (a + b) (2 ^ 64 - 1), by omega⟩

theorem saturatingAdd_saturatingAdd (a : Usize) (b c : ℕ) :
    saturatingAdd (saturatingAdd a b) c = saturatingAdd a (b + c) := by
  apply Fin.ext
  simp only [saturatingAdd]
  omega

/-- Only adding nothing and adding to a full counter change nothing. -/
theorem saturatingAdd_eq_self_iff {a : Usize} {b : ℕ} :
    saturatingAdd a b = a ↔ b = 0 ∨ a = usizeMax := by
  rw [Fin.ext_iff, Fin.ext_iff]
  simp only [saturatingAdd, usizeMax]
  omega

/-- Counters of the accepted and rejected hunks of a session. -/
structure SessionStats where
  acceptedHunks : Usize := 0
  rejectedHunks : Usize := 0
  acceptedLinesAdded : Usize := 0
  acceptedLinesRemoved : Usize := 0
  rejectedLinesAdded : Usize := 0
  rejectedLinesRemoved : Usize := 0
  deriving DecidableEq

/-- Files above this size keep only their length. -/
def maxTrackedTextBytes : ℕ := 1024 * 1024

/-- The content of a file at one reference point, without unbounded text. -/
inductive FileContentState where
  | missing
  | binary (byteLen : Option ℕ)
  | tooLarge (byteLen : ℕ)
  | lfsPointer (byteLen : ℕ)
  | symlink
  | full (text : Text)
  deriving DecidableEq

/-- Only full text can be diffed. -/
def FileContentState.isDiffable : FileContentState → Bool
  | full _ => true
  | _ => false

/-- Why a hunk was removed. -/
inductive HunkRemovalReason where
  | accepted
  | rejected
  | superseded

/-- Events sent to the subscribers when hunks change. -/
inductive HunkEvent where
  | hunkAdded (path : Path) (hunk : Hunk)
  | hunkRemoved (path : Path) (hunkId : HunkId) (reason : HunkRemovalReason)
  | hunkMoved (path : Path) (hunkId : HunkId) (newLineInfo : HunkLineInfo)
  | hunkContentChanged (path : Path) (hunk : Hunk) (triggerSource : HunkSource)
      (prevLinesAdded prevLinesRemoved : ℕ)
  | fileAdded (path : Path) (isAgentFile : Bool)
  | fileRemoved (path : Path)
  | baselineUpdated (path : Path)

/-- Rewrite an absolute path from one directory to another, trying the
canonical spelling of the old directory first. -/
def rewriteSinglePath (path oldCwd canonicalOld newCwd : Path) : Option Path :=
  (path.stripPrefix canonicalOld <|> path.stripPrefix oldCwd).map newCwd.join

end Ezer.HunkTracker
