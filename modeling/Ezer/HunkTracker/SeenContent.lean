import Ezer.HunkTracker.Runs

/-!
# Stored content after a change notification

A change notification reads the file and stores what it finds, except in two
branches. A file that is not tracked yet, cannot be diffed and has a text in
HEAD is recomputed as if it were gone, and an accepted file that matches HEAD
takes over the content of HEAD, which need not be that of the disk.
-/

namespace Ezer.HunkTracker

open Ezer.Lib

namespace HunkTrackerActor

/-- If a path is tracked, its stored content is the given one. -/
def StoresContent (s : HunkTrackerActor) (path : Path) (content : FileContentState) : Prop :=
  ∀ state, s.fileStates.lookup path = some state → state.currentContent = content

/-- A change notification stores what is on disk. An untracked file is left out
or can be diffed or is gone or has no text in HEAD; a tracked file is not taken
as restored, or has exactly the content of HEAD. -/
def SeesContent (s : HunkTrackerActor) (env : Env) (path : Path)
    (preloaded : Option FileContentState) : Prop :=
  let current := (s.disk path).readFileBounded
  let head := (s.baselineOr env path preloaded).1
  match s.fileStates.lookup path with
  | none =>
    s.mode = .agentOnly ∨ s.isGitignored path head = true ∨ current.isDiffable = true ∨
      current = .missing ∨ head.isDiffable = false
  | some _ => s.restoredToHead env path preloaded = true → head = current

section Stores

variable {s : HunkTrackerActor} {env : Env} {path : Path} {content : FileContentState}

theorem storesContent_of_none (h : s.fileStates.lookup path = none) :
    s.StoresContent path content := by
  intro state hl
  rw [h] at hl
  cases hl

theorem storesContent_iff_of_some {state : FileHunkState}
    (h : s.fileStates.lookup path = some state) :
    s.StoresContent path content ↔ state.currentContent = content := by
  constructor
  · exact fun hs => hs state h
  · intro hs state' hl
    obtain rfl := Option.some.inj (h.symm.trans hl)
    exact hs

/-- Recomputing a tracked file stores the content it is recomputed for. -/
theorem storesContent_recomputeHunks {state : FileHunkState}
    (h : s.fileStates.lookup path = some state) (newCurrent : Option FileContentState)
    (source : HunkSource) :
    (s.recomputeHunks env path newCurrent source).StoresContent path content ↔
      newCurrent.getD .missing = content := by
  have hlookup : (s.recomputeHunks env path newCurrent source).fileStates.lookup path =
      some { state with
        currentContent := newCurrent.getD .missing
        hunks := claimIds state.hunks [] (s.freshHunks env path state newCurrent source) } := by
    rw [recomputeHunks_of_some h]
    exact AList.lookup_insert _
  exact storesContent_iff_of_some hlookup

theorem storesContent_trackFile (baseline current : FileContentState) (isAgentFile : Bool) :
    (s.trackFile path baseline current isAgentFile).StoresContent path content ↔
      current = content :=
  storesContent_iff_of_some (lookup_trackFile s path baseline current isAgentFile)

theorem isGitignored_baselineOr (s : HunkTrackerActor) (env : Env) (path : Path)
    (preloaded : Option FileContentState) (baseline : FileContentState) :
    (s.baselineOr env path preloaded).2.isGitignored path baseline =
      s.isGitignored path baseline := by
  have hcache : ∀ opened, (s.cacheDiscovery opened).isGitignored path baseline =
      s.isGitignored path baseline := by
    intro opened
    unfold cacheDiscovery
    split
    · rfl
    · split <;> rfl
  cases preloaded with
  | some b => rfl
  | none =>
    rw [baselineOr, readBaseline]
    split
    · rfl
    · exact hcache _

theorem processFileChange_storesContent_of_none (hl : s.fileStates.lookup path = none)
    (preloaded : Option FileContentState) :
    (s.processFileChange env path preloaded).StoresContent path (s.disk path).readFileBounded ↔
      s.SeesContent env path preloaded := by
  have hfiles : (s.baselineOr env path preloaded).2.fileStates.lookup path = none := by
    rw [(sameHunks_baselineOr s env path preloaded).files_eq, hl]
  simp only [processFileChange, SeesContent, hl, isGitignored_baselineOr]
  by_cases hmode : s.mode = .agentOnly
  · simp [hmode, storesContent_of_none hl]
  by_cases hignored : s.isGitignored path (s.baselineOr env path preloaded).1 = true
  · simp [hmode, hignored, storesContent_of_none hfiles]
  rw [if_neg hmode, if_neg hignored]
  by_cases hcurrent : (s.disk path).readFileBounded.isDiffable = true
  · rw [if_neg (not_not.mpr hcurrent), storesContent_recomputeHunks (lookup_trackFile _ _ _ _ _)]
    simp [hcurrent]
  · rw [if_pos hcurrent]
    by_cases hhead : (s.baselineOr env path preloaded).1.isDiffable = true
    · rw [if_pos hhead, storesContent_recomputeHunks (lookup_trackFile _ _ _ _ _)]
      simp [hmode, hignored, hcurrent, hhead, eq_comm]
    · rw [if_neg hhead, storesContent_trackFile]
      simp [hhead]

theorem processFileChange_storesContent_of_some {state : FileHunkState}
    (hl : s.fileStates.lookup path = some state) (preloaded : Option FileContentState) :
    (s.processFileChange env path preloaded).StoresContent path (s.disk path).readFileBounded ↔
      s.SeesContent env path preloaded := by
  have hfiles : (s.baselineOr env path preloaded).2.fileStates.lookup path = some state := by
    rw [(sameHunks_baselineOr s env path preloaded).files_eq, hl]
  simp only [processFileChange, SeesContent, restoredToHead, hl]
  by_cases haccepted : state.baselineAccepted = true
  · rw [if_pos haccepted]
    by_cases hmatch : (s.baselineOr env path preloaded).2.contentMatchesHead path
        (s.disk path).readFileBounded (s.baselineOr env path preloaded).1 = true
    · rw [if_pos hmatch, storesContent_iff_of_some (AList.lookup_insert _)]
      simp [haccepted, hmatch]
    · rw [if_neg hmatch, storesContent_recomputeHunks hfiles]
      simp [hmatch]
  · rw [if_neg haccepted, storesContent_recomputeHunks hl]
    simp [haccepted]

end Stores

/-- After a change notification a tracked file is stored with the content read
from disk exactly when the notification sees it. -/
theorem processFileChange_storesContent_iff (s : HunkTrackerActor) (env : Env) (path : Path)
    (preloaded : Option FileContentState) :
    (s.processFileChange env path preloaded).StoresContent path (s.disk path).readFileBounded ↔
      s.SeesContent env path preloaded := by
  cases hl : s.fileStates.lookup path with
  | none => exact processFileChange_storesContent_of_none hl preloaded
  | some state => exact processFileChange_storesContent_of_some hl preloaded

end HunkTrackerActor

/-- A repository at the root whose HEAD holds the text `a` in the file `f`. -/
def textInHead : Env :=
  { Env.plain replaceLines with
    discover := fun _ => some ([.rootDir], [])
    repo := fun _ =>
      { headTree := some fun p =>
          if p = [.normal ['f']] then some (.blob (.utf8 ['a'])) else none
        syncState := {}
        indexEmpty := false
        status := fun _ => some [⟨[.normal ['f']], false⟩] } }

/-- An actor at the root that follows every dirty file, when `f` holds a null byte. -/
def binaryOnDisk : HunkTrackerActor :=
  .new [.rootDir] .allDirty
    (fun p => if p = [.rootDir, .normal ['f']] then .file (.utf8 ['\x00']) true else .missing) 0

/-- A text of HEAD that was replaced by a binary file is stored as deleted, and
rejecting its hunk writes the text over the binary file. -/
theorem binaryOnDisk_stored_as_missing :
    ¬(binaryOnDisk.processFileChange textInHead [.rootDir, .normal ['f']] none).StoresContent
        [.rootDir, .normal ['f']]
        (binaryOnDisk.disk [.rootDir, .normal ['f']]).readFileBounded ∧
      ((binaryOnDisk.processFileChange textInHead [.rootDir, .normal ['f']] none).handleCommand
        textInHead (.allAction .reject)).disk [.rootDir, .normal ['f']] =
          .file (.utf8 ['a']) true := by
  have hl : (binaryOnDisk.processFileChange textInHead [.rootDir, .normal ['f']]
      none).fileStates.lookup [.rootDir, .normal ['f']] =
        some ⟨.full ['a'], .missing,
          [.fileDeleted 0 [.rootDir, .normal ['f']] ['a'] .external], false, false⟩ := by
    decide
  have hdisk : (binaryOnDisk.disk [.rootDir, .normal ['f']]).readFileBounded =
      .binary (some 1) := by decide
  refine ⟨fun h => ?_, by decide⟩
  have hcontent := h _ hl
  rw [hdisk] at hcontent
  cases hcontent

end Ezer.HunkTracker
