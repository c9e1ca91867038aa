import Ezer.HunkTracker.Types
import Mathlib.Data.List.MinMax

/-!
# Diff computation and hunk matching

The line diff itself is the third-party `similar` crate: a parameter that
returns an edit script, or nothing when it runs into the time limit. The hunks
are the maximal runs of the script without an equal line. Text is patched by
the index of its line feed separated lines.
-/

namespace Ezer.HunkTracker

open Ezer.Lib

/-- The tag of one change of an edit script. -/
inductive ChangeTag where
  | equal
  | delete
  | insert
  deriving DecidableEq

/-- One line of an edit script. -/
structure Change where
  tag : ChangeTag
  value : Text
  deriving DecidableEq

/-- `TextDiff::diff_lines` under the time limit; `none` when it is reached. -/
abbrev DiffLines := Text → Text → Option (List Change)

/-- The edit script of two texts without a common line. -/
def replaceLines : DiffLines := fun old new =>
  some ((tokenizeLines old).map (Change.mk .delete) ++ (tokenizeLines new).map (Change.mk .insert))

/-- The byte length of a text in UTF-8. -/
def utf8Len (t : Text) : ℕ := (t.map Char.utf8Size).sum

/-- Files above this size are not diffed. -/
def maxDiffFileSize : ℕ := 1024 * 1024

/-- Accumulator of the lines of one hunk. -/
structure HunkBuilder where
  oldStart : ℕ
  newStart : ℕ
  oldLines : List Text := []
  newLines : List Text := []

namespace HunkBuilder

def addOldLine (b : HunkBuilder) (line : Text) : HunkBuilder :=
  { b with oldLines := b.oldLines ++ [line] }

def addNewLine (b : HunkBuilder) (line : Text) : HunkBuilder :=
  { b with newLines := b.newLines ++ [line] }

/-- The finished hunk under a freshly drawn id. -/
def build (b : HunkBuilder) (path : Path) (source : HunkSource) (id : HunkId) : Hunk where
  id := id
  path := path
  lineInfo := ⟨b.oldStart, b.oldLines.length, b.newStart, b.newLines.length⟩
  source := source
  oldText := if b.oldLines.isEmpty then none else some b.oldLines.flatten
  newText := b.newLines.flatten

end HunkBuilder

/-- The loop over the edit script: an equal line finishes the hunk in progress,
any other line opens one at the current positions or extends it. -/
def collectHunks : List Change → ℕ → ℕ → Option HunkBuilder → List HunkBuilder
  | [], _, _, current => current.toList
  | ⟨.equal, _⟩ :: cs, oldLine, newLine, current =>
    current.toList ++ collectHunks cs (oldLine + 1) (newLine + 1) none
  | ⟨.delete, v⟩ :: cs, oldLine, newLine, current =>
    collectHunks cs (oldLine + 1) newLine
      (some ((current.getD ⟨oldLine, newLine, [], []⟩).addOldLine v))
  | ⟨.insert, v⟩ :: cs, oldLine, newLine, current =>
    collectHunks cs oldLine (newLine + 1)
      (some ((current.getD ⟨oldLine, newLine, [], []⟩).addNewLine v))

/-- One builder starts after another one on both sides. -/
def HunkBuilder.Before (a b : HunkBuilder) : Prop :=
  a.oldStart < b.oldStart ∧ a.newStart < b.newStart

private theorem collectHunks_before (cs : List Change) (o n : ℕ) (cur : Option HunkBuilder)
    (hcur : ∀ c ∈ cur, c.oldStart ≤ o ∧ c.newStart ≤ n) :
    (collectHunks cs o n cur).Pairwise HunkBuilder.Before ∧
      ∀ b ∈ collectHunks cs o n cur, (cur.map HunkBuilder.oldStart).getD o ≤ b.oldStart ∧
        (cur.map HunkBuilder.newStart).getD n ≤ b.newStart := by
  induction cs generalizing o n cur with
  | nil =>
    cases cur with
    | none | some => simp [collectHunks]
  | cons c cs ih =>
    obtain ⟨tag, v⟩ := c
    cases tag with
    | equal =>
      obtain ⟨hsorted, hge⟩ := ih (o + 1) (n + 1) none (by simp)
      simp only [Option.map_none, Option.getD_none] at hge
      cases cur with
      | none =>
        refine ⟨by simpa [collectHunks] using hsorted, fun b hb => ?_⟩
        have hb' := hge b (by simpa [collectHunks] using hb)
        simp only [Option.map_none, Option.getD_none]
        omega
      | some c =>
        have hc := hcur c rfl
        have hsplit : collectHunks (⟨.equal, v⟩ :: cs) o n (some c) =
            c :: collectHunks cs (o + 1) (n + 1) none := rfl
        rw [hsplit]
        constructor
        · refine List.pairwise_cons.mpr ⟨fun b hb => ?_, hsorted⟩
          have hb' := hge b hb
          unfold HunkBuilder.Before
          omega
        · intro b hb
          simp only [Option.map_some, Option.getD_some]
          rcases List.mem_cons.mp hb with rfl | hb
          · exact ⟨le_rfl, le_rfl⟩
          · have hb' := hge b hb
            omega
    | delete =>
      have hih := ih (o + 1) n (some ((cur.getD ⟨o, n, [], []⟩).addOldLine v)) (by
        rintro c ⟨⟩
        cases cur with
        | none => simp [HunkBuilder.addOldLine]
        | some c =>
          have hc := hcur c rfl
          simp only [Option.getD_some, HunkBuilder.addOldLine]
          omega)
      cases cur <;> simpa [collectHunks, HunkBuilder.addOldLine] using hih
    | insert =>
      have hih := ih o (n + 1) (some ((cur.getD ⟨o, n, [], []⟩).addNewLine v)) (by
        rintro c ⟨⟩
        cases cur with
        | none => simp [HunkBuilder.addNewLine]
        | some c =>
          have hc := hcur c rfl
          simp only [Option.getD_some, HunkBuilder.addNewLine]
          omega)
      cases cur <;> simpa [collectHunks, HunkBuilder.addNewLine] using hih

/-- The collected hunks start one after the other in both texts. -/
theorem collectHunks_sorted (cs : List Change) :
    (collectHunks cs 1 1 none).Pairwise HunkBuilder.Before :=
  (collectHunks_before cs 1 1 none (by simp)).1

/-- Build a list of finished hunks under consecutive fresh ids. -/
def buildHunks (path : Path) (source : HunkSource) (bs : List HunkBuilder) (uuid : ℕ) :
    List Hunk :=
  bs.mapIdx fun i b => b.build path source (uuid + i)

/-- Diff the baseline against the current text. No hunk is reported for equal
texts, for a text above the size limit and when the diff times out. -/
def computeHunks (diff : DiffLines) (path : Path) (baseline current : Text)
    (source : HunkSource) (uuid : ℕ) : List Hunk :=
  if baseline = current then []
  else if utf8Len baseline > maxDiffFileSize ∨ utf8Len current > maxDiffFileSize then []
  else
    match diff baseline current with
    | none => []
    | some changes => buildHunks path source (collectHunks changes 1 1 none) uuid

/-- Replace `removeCount` lines from the 1-indexed `startLine` on by the lines
of `insertText`. Lines are rejoined by line feeds, and a final line feed is
written when the content had one and something is left. -/
def patchLines (content : Text) (startLine removeCount : ℕ) (insertText : Text) : Text :=
  let ls := lines content
  let startIdx := startLine - 1
  let endIdx := min (startIdx + removeCount) ls.length
  let result := ls.take (min startIdx ls.length) ++ lines insertText ++ ls.drop endIdx
  let output := joinLines result
  if endsWithNewline content && !output.isEmpty then output ++ ['\n'] else output

/-- Two hunks carry the same change, possibly at different positions. -/
def hunksMatchContent (a b : Hunk) : Bool :=
  a.path = b.path && a.oldText = b.oldText && a.newText = b.newText

/-- Same content at a different position. -/
def hunkMoved (old new : Hunk) : Bool :=
  hunksMatchContent old new && old.lineInfo ≠ new.lineInfo

/-- Two hunks touch in the baseline. An insertion touches a hunk whose range,
ends included, holds its position. -/
def hunksOverlap (a b : Hunk) : Bool :=
  let aStart := a.lineInfo.oldStart
  let aEnd := a.lineInfo.oldStart + a.lineInfo.oldCount
  let bStart := b.lineInfo.oldStart
  let bEnd := b.lineInfo.oldStart + b.lineInfo.oldCount
  if a.path ≠ b.path then false
  else if a.lineInfo.oldCount = 0 ∧ b.lineInfo.oldCount = 0 then aStart = bStart
  else if a.lineInfo.oldCount = 0 then aStart ≥ bStart ∧ aStart ≤ bEnd
  else if b.lineInfo.oldCount = 0 then bStart ≥ aStart ∧ bStart ≤ aEnd
  else ¬(aEnd < bStart ∨ bEnd < aStart)

/-- The number of baseline lines two hunks share. -/
def calculateOverlapSize (a b : HunkLineInfo) : ℕ :=
  min (a.oldStart + a.oldCount) (b.oldStart + b.oldCount) - max a.oldStart b.oldStart

/-- The distance of two line numbers. -/
def absDiff (a b : ℕ) : ℕ := (a - b) + (b - a)

/-- `Iterator::max_by_key`: the last of the elements with the largest key. -/
def maxByKey (f : Hunk → ℕ) (hs : List Hunk) : Option Hunk := hs.reverse.argmax f

/-- The old hunk a new hunk continues: the content match nearest by position,
else the overlapping hunk that shares the most baseline lines. -/
def findMatchingOldHunk (new : Hunk) (old : List Hunk) : Option Hunk :=
  let contentMatches := old.filter fun o => hunksMatchContent o new
  if contentMatches ≠ [] then
    contentMatches.argmin fun o => absDiff o.lineInfo.newStart new.lineInfo.newStart
  else
    maxByKey (fun o => calculateOverlapSize o.lineInfo new.lineInfo)
      (old.filter fun o => hunksOverlap o new)

end Ezer.HunkTracker
