import Ezer.ApplyPatch.RoundTrip
import Ezer.ApplyPatch.Tool

/-!
# Sections of a patch, one after another

The changes of all sections of a patch are computed before the first one is
made. The outcome is that of applying the sections one by one as long as no
earlier section matters to the change of a later one. Two updates of one file
matter to each other, and the first one is lost.
-/

namespace Ezer.ApplyPatch

open Ezer.Lib

variable {Path : Type} [DecidableEq Path]

/-- The files after applying the sections one after another, each as a patch of its own,
if all of them succeed. -/
def applySections (context : Context Path) :
    FileSystem Path → List Hunk → Option (FileSystem Path)
  | fs, [] => some fs
  | fs, hunk :: hunks =>
    match applyHunks context fs [hunk] with
    | (.ok (.success _ _), fs) => applySections context fs hunks
    | _ => none

/-- A write that the policy permits is carried out. -/
def MemoryAccess.Agrees (memory : MemoryAccess Path) : Prop :=
  ∀ path contents b, memory.preflightWrite path contents = .ok b →
    ∃ b', memory.writeFile path contents = .ok b'

/-- What a change does, without the content that it finds. -/
def FileChange.effect : FileChange Path → FileChange Path
  | .add path content => .add path content
  | .delete path _ => .delete path []
  | .update path _ newContent => .update path [] newContent
  | .move sourcePath destPath _ newContent => .move sourcePath destPath [] newContent

/-- Two changes do the same, or neither can be computed. -/
def SameChange : Except Text (FileChange Path) → Except Text (FileChange Path) → Prop
  | .ok change, .ok change' => change.effect = change'.effect
  | .error _, .error _ => True
  | _, _ => False

/-- Every section makes the same change of the original files as of the files that the
sections before it leave. -/
def SectionsAgree (context : Context Path) (original : FileSystem Path) :
    FileSystem Path → List Hunk → Prop
  | _, [] => True
  | fs, hunk :: hunks =>
    SameChange (computeChange context original hunk) (computeChange context fs hunk) ∧
      ∀ change, computeChange context fs hunk = .ok change →
        SectionsAgree context original (applyChange context fs change).2 hunks

section Changes

variable {context : Context Path} {fs original : FileSystem Path}

/-- The files that making a change leaves, if it can be made. -/
def changed (context : Context Path) (fs : FileSystem Path) (change : FileChange Path) :
    Option (FileSystem Path) :=
  match applyChange context fs change with
  | (.ok _, fs) => some fs
  | (.error _, _) => none

theorem changed_effect (change : FileChange Path) :
    changed context fs change.effect = changed context fs change := by
  unfold changed
  cases change with
  | add path content => rfl
  | delete path originalContent =>
    simp only [FileChange.effect, applyChange]
    cases deleteFile fs path <;> rfl
  | update path originalContent newContent =>
    simp only [FileChange.effect, applyChange]
    cases writeViaMemory context fs path (encodeUtf8 newContent) <;> rfl
  | move sourcePath destPath originalContent newContent =>
    simp only [FileChange.effect, applyChange]
    cases deleteFile (writeFile fs destPath (encodeUtf8 newContent)) sourcePath <;> rfl

variable {change : FileChange Path}

theorem changed_congr {change' : FileChange Path} (h : change.effect = change'.effect) :
    changed context fs change = changed context fs change' := by
  rw [← changed_effect change, h, changed_effect]

omit [DecidableEq Path] in
theorem preflight_effect (change : FileChange Path) :
    preflightMemoryChange context change.effect = preflightMemoryChange context change := by
  cases change <;> rfl

omit [DecidableEq Path] in
theorem preflight_congr {change' : FileChange Path} (h : change.effect = change'.effect) :
    preflightMemoryChange context change = preflightMemoryChange context change' := by
  rw [← preflight_effect change, h, preflight_effect]

theorem writeViaMemory_ok (hagrees : ∀ memory, context.memory = some memory → memory.Agrees)
    {path : Path} {contents : List UInt8} {b : Bool}
    (h : preflightMemoryWrite context path contents = .ok b) :
    writeViaMemory context fs path contents = .ok (writeFile fs path contents) := by
  unfold preflightMemoryWrite at h
  unfold writeViaMemory
  cases hmemory : context.memory with
  | none => rfl
  | some memory =>
    rw [hmemory] at h
    obtain ⟨b', hb'⟩ := hagrees memory hmemory path contents b h
    dsimp only
    rw [hb']

omit [DecidableEq Path] in
theorem read_of_readFileAsString {path : Path} {content : Text}
    (h : readFileAsString fs path = .ok content) : ∃ bytes, fs path = some bytes := by
  unfold readFileAsString at h
  split at h
  · exact ⟨_, ‹_›⟩
  · cases h

theorem deleteFile_ok {path : Path} {bytes : List UInt8} (h : fs path = some bytes) :
    deleteFile fs path = .ok (Function.update fs path none) := by
  unfold deleteFile
  rw [h]

/-- What a computed change needs of the files. -/
def FileChange.Applicable (fs : FileSystem Path) : FileChange Path → Prop
  | .add _ _ | .update _ _ _ => True
  | .delete path _ => ∃ bytes, fs path = some bytes
  | .move sourcePath _ _ _ => ∃ bytes, fs sourcePath = some bytes

omit [DecidableEq Path] in
theorem applicable_of_computeChange {hunk : Hunk}
    (h : computeChange context fs hunk = .ok change) : change.Applicable fs := by
  cases hunk with
  | addFile path contents =>
    cases h
    trivial
  | deleteFile path =>
    unfold computeChange at h
    dsimp only at h
    split at h
    · cases h
    · rename_i content hread
      cases h
      exact read_of_readFileAsString hread
  | updateFile path movePath chunks =>
    unfold computeChange at h
    dsimp only at h
    split at h
    · cases h
    · rename_i content hread
      split at h
      · cases h
      · split at h
        · cases h
          exact read_of_readFileAsString hread
        · cases h
          trivial

/-- A change that is computed and permitted can be made. -/
theorem applyChange_ok (hagrees : ∀ memory, context.memory = some memory → memory.Agrees)
    (happlicable : change.Applicable fs)
    (hpreflight : preflightMemoryChange context change = .ok ()) :
    ∃ result fs', applyChange context fs change = (.ok result, fs') := by
  cases change with
  | add path content =>
    simp only [preflightMemoryChange] at hpreflight
    cases hwrite : preflightMemoryWrite context path (encodeUtf8 content) with
    | error e =>
      rw [hwrite] at hpreflight
      cases hpreflight
    | ok b =>
      simp only [applyChange]
      rw [writeViaMemory_ok hagrees hwrite]
      exact ⟨_, _, rfl⟩
  | delete path originalContent =>
    obtain ⟨bytes, hbytes⟩ := happlicable
    simp only [applyChange]
    rw [deleteFile_ok hbytes]
    exact ⟨_, _, rfl⟩
  | update path originalContent newContent =>
    simp only [preflightMemoryChange] at hpreflight
    cases hwrite : preflightMemoryWrite context path (encodeUtf8 newContent) with
    | error e =>
      rw [hwrite] at hpreflight
      cases hpreflight
    | ok b =>
      simp only [applyChange]
      rw [writeViaMemory_ok hagrees hwrite]
      exact ⟨_, _, rfl⟩
  | move sourcePath destPath originalContent newContent =>
    obtain ⟨bytes, hbytes⟩ := happlicable
    have hsource : ∃ bytes', writeFile fs destPath (encodeUtf8 newContent) sourcePath =
        some bytes' := by
      unfold writeFile
      by_cases hsame : sourcePath = destPath
      · subst hsame
        exact ⟨_, Function.update_self ..⟩
      · rw [Function.update_of_ne hsame]
        exact ⟨bytes, hbytes⟩
    obtain ⟨bytes', hbytes'⟩ := hsource
    simp only [applyChange]
    rw [deleteFile_ok hbytes']
    exact ⟨_, _, rfl⟩

end Changes

section Runs

variable {context : Context Path} {fs original : FileSystem Path}

variable {hunk : Hunk} {message : Text}

theorem applySections_error
    (h : computeChange context fs hunk = .error message) (hunks : List Hunk) :
    applySections context fs (hunk :: hunks) = none := by
  simp [applySections, applyHunks, computeAllChanges, h]

theorem applySections_refused {change : FileChange Path}
    (h : computeChange context fs hunk = .ok change)
    (hpreflight : preflightMemoryChange context change = .error message) (hunks : List Hunk) :
    applySections context fs (hunk :: hunks) = none := by
  simp [applySections, applyHunks, computeAllChanges, h, preflightMemoryChanges, hpreflight]

theorem applySections_ok {change : FileChange Path}
    {result : ApplyPatchFileResult Path} {fs' : FileSystem Path}
    (h : computeChange context fs hunk = .ok change)
    (hpreflight : preflightMemoryChange context change = .ok ())
    (happly : applyChange context fs change = (.ok result, fs')) (hunks : List Hunk) :
    applySections context fs (hunk :: hunks) = applySections context fs' hunks := by
  simp [applySections, applyHunks, computeAllChanges, h, preflightMemoryChanges, hpreflight,
    applyChanges, happly]

variable {hunks : List Hunk}

/-- The changes computed from the original files and made at once leave what the sections
leave one after another. -/
theorem applyChanges_agree (hagrees : ∀ memory, context.memory = some memory → memory.Agrees)
    (h : SectionsAgree context original fs hunks) :
    match computeAllChanges context original hunks with
    | .error _ => applySections context fs hunks = none
    | .ok changes =>
      match preflightMemoryChanges context changes with
      | .error _ => applySections context fs hunks = none
      | .ok () => ∃ results fs', applyChanges context fs changes = (.ok results, fs') ∧
          applySections context fs hunks = some fs' := by
  induction hunks generalizing fs with
  | nil => exact ⟨[], fs, rfl, rfl⟩
  | cons hunk hunks ih =>
    obtain ⟨hsame, hrest⟩ := h
    unfold computeAllChanges
    cases horiginal : computeChange context original hunk with
    | error e =>
      cases hcurrent : computeChange context fs hunk with
      | error e' => exact applySections_error hcurrent hunks
      | ok change' =>
        rw [horiginal, hcurrent] at hsame
        exact hsame.elim
    | ok change =>
      cases hcurrent : computeChange context fs hunk with
      | error e' =>
        rw [horiginal, hcurrent] at hsame
        exact hsame.elim
      | ok change' =>
        rw [horiginal, hcurrent] at hsame
        have hpreflights := @preflight_congr Path context change change' hsame
        cases hpreflight : preflightMemoryChange context change' with
        | error e =>
          have hnone := applySections_refused hcurrent hpreflight hunks
          dsimp only
          cases computeAllChanges context original hunks with
          | error e' => exact hnone
          | ok changes =>
            dsimp only
            unfold preflightMemoryChanges
            rw [hpreflights, hpreflight]
            exact hnone
        | ok u =>
          obtain ⟨result', fs₁, happly'⟩ := applyChange_ok hagrees
            (applicable_of_computeChange hcurrent) hpreflight
          have hchanged : changed context fs change = some fs₁ := by
            rw [changed_congr hsame]
            unfold changed
            rw [happly']
          have hone := applySections_ok hcurrent hpreflight happly' hunks
          have hnext := ih (by
            have hagree := hrest change' hcurrent
            rwa [happly'] at hagree)
          rw [hone]
          dsimp only
          cases hall : computeAllChanges context original hunks with
          | error e =>
            rw [hall] at hnext
            exact hnext
          | ok changes =>
            rw [hall] at hnext
            dsimp only at hnext ⊢
            unfold preflightMemoryChanges
            rw [hpreflights, hpreflight]
            dsimp only
            cases hrestflight : preflightMemoryChanges context changes with
            | error e =>
              rw [hrestflight] at hnext
              exact hnext
            | ok u =>
              rw [hrestflight] at hnext
              obtain ⟨results, fs', hresults, hsections⟩ := hnext
              unfold changed at hchanged
              split at hchanged
              · rename_i result fs₂ happly
                cases hchanged
                refine ⟨result :: results, fs', ?_, hsections⟩
                unfold applyChanges
                rw [happly]
                dsimp only
                rw [hresults]
              · cases hchanged

omit [DecidableEq Path] in
theorem computeAllChanges_error
    (hmem : hunk ∈ hunks) (h : computeChange context fs hunk = .error message) :
    ∃ message', computeAllChanges context fs hunks = .error message' := by
  induction hunks with
  | nil => cases hmem
  | cons head hunks ih =>
    unfold computeAllChanges
    cases hhead : computeChange context fs head with
    | error e => exact ⟨e, rfl⟩
    | ok change =>
      rcases List.mem_cons.mp hmem with rfl | hmem
      · rw [h] at hhead
        cases hhead
      · obtain ⟨e, he⟩ := ih hmem
        rw [he]
        exact ⟨e, rfl⟩

theorem applyHunks_unchanged
    (hmem : hunk ∈ hunks) (h : computeChange context fs hunk = .error message) :
    (applyHunks context fs hunks).2 = fs := by
  obtain ⟨e, he⟩ := computeAllChanges_error hmem h
  unfold applyHunks
  split
  · rfl
  · rw [he]

theorem applyHunks_agree (hagrees : ∀ memory, context.memory = some memory → memory.Agrees)
    (h : SectionsAgree context fs fs hunks) :
    (applyHunks context fs hunks).2 = (applySections context fs hunks).getD fs := by
  have hsections := applyChanges_agree hagrees h
  unfold applyHunks
  cases hhunks : hunks with
  | nil => rfl
  | cons hunk hunks =>
    rw [hhunks] at hsections
    rw [if_neg (by simp)]
    cases hall : computeAllChanges context fs (hunk :: hunks) with
    | error e =>
      rw [hall] at hsections
      dsimp only at hsections ⊢
      rw [hsections]
      rfl
    | ok changes =>
      rw [hall] at hsections
      dsimp only at hsections ⊢
      cases hpreflight : preflightMemoryChanges context changes with
      | error e =>
        rw [hpreflight] at hsections
        dsimp only at hsections ⊢
        rw [hsections]
        rfl
      | ok u =>
        rw [hpreflight] at hsections
        obtain ⟨results, fs', hresults, hsections⟩ := hsections
        dsimp only
        rw [hresults, hsections]
        rfl

/-- A patch with a section that cannot be applied to the files leaves them as they were.
Where no section matters to the change of a later one, a patch leaves the files that its
sections leave one after another, and the files as they were if one of them fails. -/
theorem run_eq_applySections (context : Context Path) (fs : FileSystem Path) (patch : Text)
    (hagrees : ∀ memory, context.memory = some memory → memory.Agrees) :
    (∀ parsed, parsePatch patch = .ok parsed →
      ∀ hunk ∈ parsed.hunks, ∀ message, computeChange context fs hunk = .error message →
        (run context fs patch).2 = fs) ∧
    ((∀ parsed, parsePatch patch = .ok parsed → SectionsAgree context fs fs parsed.hunks) →
      (run context fs patch).2 =
        match parsePatch patch with
        | .error _ => fs
        | .ok parsed => (applySections context fs parsed.hunks).getD fs) := by
  constructor
  · intro parsed hparsed hunk hmem message hmessage
    unfold run
    rw [hparsed]
    exact applyHunks_unchanged hmem hmessage
  · intro hagree
    unfold run
    cases hparse : parsePatch patch with
    | error e => cases e <;> rfl
    | ok parsed => exact applyHunks_agree hagrees (hagree parsed hparse)

end Runs

/-- Paths that name their files, and no memory files. -/
def plain : Context Text := ⟨id, id, none⟩

/-- Two files. -/
def twoFiles : FileSystem Text
  | ['a'] => some [120, 10, 121, 10]
  | ['b'] => some [122, 10]
  | _ => none

/-- An update of one line. -/
def updateLine (path old new : Text) : Hunk :=
  .updateFile path none [⟨none, [old], [new], false⟩]

/-- Updates of the two files. -/
def twoUpdates : List Hunk := [updateLine ['a'] ['x'] ['X'], updateLine ['b'] ['z'] ['Z']]

theorem parsePatch_twoUpdates :
    parsePatch (renderPatch twoUpdates) = .ok ⟨twoUpdates, renderPatch twoUpdates⟩ := by
  decide +kernel

/-- The first update. -/
def firstUpdate : FileChange Text :=
  .update ['a'] ['x', '\n', 'y', '\n'] ['X', '\n', 'y', '\n']

theorem sectionsAgree_twoUpdates : SectionsAgree plain twoFiles twoFiles twoUpdates := by
  have hfirst : computeChange plain twoFiles (updateLine ['a'] ['x'] ['X']) =
      .ok firstUpdate := by rfl
  have hsecond : computeChange plain twoFiles (updateLine ['b'] ['z'] ['Z']) =
      .ok (.update ['b'] ['z', '\n'] ['Z', '\n']) := by rfl
  have hafter : computeChange plain (applyChange plain twoFiles firstUpdate).2
      (updateLine ['b'] ['z'] ['Z']) = .ok (.update ['b'] ['z', '\n'] ['Z', '\n']) := by rfl
  constructor
  · rw [hfirst]
    exact Eq.refl firstUpdate.effect
  · intro change hchange
    rw [hfirst] at hchange
    cases hchange
    constructor
    · rw [hsecond, hafter]
      exact Eq.refl _
    · intro change hchange
      trivial

/-- Updates of two files are both made. -/
theorem run_two_files :
    (run plain twoFiles (renderPatch twoUpdates)).2 =
      match parsePatch (renderPatch twoUpdates) with
      | .error _ => twoFiles
      | .ok parsed => (applySections plain twoFiles parsed.hunks).getD twoFiles := by
  apply (run_eq_applySections plain twoFiles (renderPatch twoUpdates) ?_).2
  · intro parsed hparsed
    rw [parsePatch_twoUpdates] at hparsed
    cases hparsed
    exact sectionsAgree_twoUpdates
  · intro memory hmemory
    cases hmemory

/-- Of two updates of one file the first one is lost. -/
theorem run_first_update_lost :
    (run plain twoFiles (renderPatch [updateLine ['a'] ['x'] ['X'],
      updateLine ['a'] ['y'] ['Y']])).2 ['a'] = some [120, 10, 89, 10] ∧
    (applySections plain twoFiles [updateLine ['a'] ['x'] ['X'],
      updateLine ['a'] ['y'] ['Y']]).bind (· ['a']) = some [88, 10, 89, 10] := by
  decide +kernel

end Ezer.ApplyPatch
