import Ezer.HunkTracker.Actor

/-!
# Hunk recomputation and diff events

Recomputing a file diffs its baseline against the new content, carries the ids
and agent attribution of matching old hunks over, updates the turn index and
reports the difference of the two hunk lists as events.
-/

namespace Ezer.HunkTracker

open Ezer.Lib

/-- The hunks of a baseline and a current content, under fresh ids. Only full
text on both sides is diffed line by line; a created or deleted file is one
hunk; every other pair has none. -/
def diffStates (diff : DiffLines) (path : Path) (baseline current : FileContentState)
    (source : HunkSource) (uuid : ℕ) : List Hunk :=
  match baseline, current with
  | .full b, .full c => computeHunks diff path b c source uuid
  | .full b, .missing => if b.isEmpty then [] else [Hunk.fileDeleted uuid path b source]
  | .missing, .full c => if c.isEmpty then [] else [Hunk.fileCreated uuid path c source]
  | _, _ => []

/-- Take over the identity of an old hunk; an external edit keeps the agent's
attribution. -/
def Hunk.inherit (new old : Hunk) : Hunk :=
  { new with
    id := old.id
    source :=
      if new.source.isExternal && old.source.isAgentEdit then old.source else new.source }

/-- Preserve ids and sources of matching old hunks in file order. An old hunk
is claimed at most once; a new hunk whose match is taken keeps its fresh id. -/
def claimIds (old : List Hunk) : List HunkId → List Hunk → List Hunk
  | _, [] => []
  | claimed, n :: ns =>
    match findMatchingOldHunk n old with
    | some best =>
      if best.id ∈ claimed then n :: claimIds old claimed ns
      else n.inherit best :: claimIds old (best.id :: claimed) ns
    | none => n :: claimIds old claimed ns

theorem findMatchingOldHunk_mem {n best : Hunk} {old : List Hunk}
    (h : findMatchingOldHunk n old = some best) : best ∈ old := by
  unfold findMatchingOldHunk at h
  simp only at h
  split at h
  · exact List.mem_of_mem_filter (List.argmin_mem (by simpa using h))
  · have hmem := List.argmax_mem (f := fun o => calculateOverlapSize o.lineInfo n.lineInfo)
      (l := (old.filter fun o => hunksOverlap o n).reverse) (m := best) (by simpa [maxByKey] using h)
    exact List.mem_of_mem_filter (List.mem_reverse.mp hmem)

/-- A hunk after matching is a fresh one, or a fresh one under the id of its
match. -/
theorem mem_claimIds {old : List Hunk} {claimed : List HunkId} {fresh : List Hunk} {x : Hunk}
    (h : x ∈ claimIds old claimed fresh) :
    ∃ n ∈ fresh, x = n ∨ ∃ best ∈ old, findMatchingOldHunk n old = some best ∧
      best.id ∉ claimed ∧ x = n.inherit best := by
  induction fresh generalizing claimed with
  | nil => simp [claimIds] at h
  | cons n fresh ih =>
    rw [claimIds] at h
    split at h
    · rename_i best hbest
      split at h
      · rcases List.mem_cons.mp h with rfl | h
        · exact ⟨x, by simp, Or.inl rfl⟩
        · obtain ⟨m, hm, hx⟩ := ih h
          exact ⟨m, by simp [hm], hx⟩
      · rename_i hclaimed
        rcases List.mem_cons.mp h with rfl | h
        · exact ⟨n, by simp, Or.inr ⟨best, findMatchingOldHunk_mem hbest, hbest, hclaimed, rfl⟩⟩
        · obtain ⟨m, hm, hx⟩ := ih h
          refine ⟨m, by simp [hm], hx.imp_right ?_⟩
          rintro ⟨b, hb, hmatch, hnot, rfl⟩
          exact ⟨b, hb, hmatch, fun hc => hnot (by simp [hc]), rfl⟩
    · rcases List.mem_cons.mp h with rfl | h
      · exact ⟨x, by simp, Or.inl rfl⟩
      · obtain ⟨m, hm, hx⟩ := ih h
        exact ⟨m, by simp [hm], hx⟩

theorem length_claimIds (old : List Hunk) (claimed : List HunkId) (fresh : List Hunk) :
    (claimIds old claimed fresh).length = fresh.length := by
  induction fresh generalizing claimed with
  | nil => rfl
  | cons n fresh ih =>
    rw [claimIds]
    split
    · split
      · simp [ih]
      · simp [ih]
    · simp [ih]

/-- Matching keeps ids distinct when the fresh ones are new. -/
theorem nodup_claimIds {old fresh : List Hunk} (hfresh : (fresh.map Hunk.id).Nodup)
    (hnew : ∀ n ∈ fresh, ∀ o ∈ old, n.id ≠ o.id) (claimed : List HunkId) :
    ((claimIds old claimed fresh).map Hunk.id).Nodup := by
  induction fresh generalizing claimed with
  | nil => simp [claimIds]
  | cons n fresh ih =>
    obtain ⟨hn, hnodup⟩ := List.nodup_cons.mp hfresh
    have hnew' : ∀ m ∈ fresh, ∀ o ∈ old, m.id ≠ o.id := fun m hm => hnew m (by simp [hm])
    have hhead : ∀ claimed, n.id ∉ (claimIds old claimed fresh).map Hunk.id := by
      intro claimed hmem
      obtain ⟨x, hx, hid⟩ := List.mem_map.mp hmem
      obtain ⟨m, hm, rfl | ⟨best, hbest, -, -, rfl⟩⟩ := mem_claimIds hx
      · exact hn (hid ▸ List.mem_map_of_mem hm)
      · exact hnew n (by simp) best hbest hid.symm
    rw [claimIds]
    split
    · rename_i best hbest
      split
      · exact List.nodup_cons.mpr ⟨hhead _, ih hnodup hnew' _⟩
      · refine List.nodup_cons.mpr ⟨fun hmem => ?_, ih hnodup hnew' _⟩
        obtain ⟨x, hx, hid⟩ := List.mem_map.mp hmem
        obtain ⟨m, hm, rfl | ⟨b, -, -, hnot, rfl⟩⟩ := mem_claimIds hx
        · exact hnew' x hm best (findMatchingOldHunk_mem hbest) hid
        · exact hnot (by simp [show b.id = best.id from hid])
    · exact List.nodup_cons.mpr ⟨hhead _, ih hnodup hnew' _⟩

/-- What all hunks of a fresh diff have in common. -/
structure FreshDiff (path : Path) (source : HunkSource) (uuid : ℕ) (hunks : List Hunk) : Prop where
  path_eq : ∀ h ∈ hunks, h.path = path
  source_eq : ∀ h ∈ hunks, h.source = source
  nodup : (hunks.map Hunk.id).Nodup
  id_ge : ∀ h ∈ hunks, uuid ≤ h.id
  id_lt : ∀ h ∈ hunks, h.id < uuid + hunks.length
  sorted : hunks.Pairwise fun a b => a.lineInfo.newStart < b.lineInfo.newStart

theorem freshDiff_buildHunks (path : Path) (source : HunkSource) {bs : List HunkBuilder}
    (hsorted : bs.Pairwise HunkBuilder.Before) (uuid : ℕ) :
    FreshDiff path source uuid (buildHunks path source bs uuid) := by
  have hmem : ∀ h ∈ buildHunks path source bs uuid, ∃ i, ∃ hi : i < bs.length,
      h = bs[i].build path source (uuid + i) := by
    intro h hh
    obtain ⟨i, hi, rfl⟩ := List.mem_mapIdx.mp hh
    exact ⟨i, hi, rfl⟩
  refine ⟨fun h hh => ?_, fun h hh => ?_, ?_, fun h hh => ?_, fun h hh => ?_, ?_⟩
  · obtain ⟨i, hi, rfl⟩ := hmem h hh
    rfl
  · obtain ⟨i, hi, rfl⟩ := hmem h hh
    rfl
  · rw [List.Nodup, List.pairwise_map, List.pairwise_iff_getElem]
    intro i j hi hj hij
    simp [buildHunks, HunkBuilder.build]
    omega
  · obtain ⟨i, hi, rfl⟩ := hmem h hh
    simp [HunkBuilder.build]
  · obtain ⟨i, hi, rfl⟩ := hmem h hh
    simpa [HunkBuilder.build, buildHunks] using hi
  · rw [List.pairwise_iff_getElem]
    intro i j hi hj hij
    have hbs := List.pairwise_iff_getElem.mp hsorted i j (by simpa [buildHunks] using hi)
      (by simpa [buildHunks] using hj) hij
    simpa [buildHunks, HunkBuilder.build] using hbs.2

theorem freshDiff_diffStates (diff : DiffLines) (path : Path) (baseline current : FileContentState)
    (source : HunkSource) (uuid : ℕ) :
    FreshDiff path source uuid (diffStates diff path baseline current source uuid) := by
  have hnil : FreshDiff path source uuid [] := by constructor <;> simp
  unfold diffStates
  split
  · unfold computeHunks
    split
    · exact hnil
    · split
      · exact hnil
      · split
        · exact hnil
        · exact freshDiff_buildHunks _ _ (collectHunks_sorted _) _
  · split
    · exact hnil
    · constructor <;> simp [Hunk.fileDeleted]
  · split
    · exact hnil
    · constructor <;> simp [Hunk.fileCreated]
  · exact hnil

/-- Removal events: an old hunk is gone when no new hunk overlaps or repeats it. -/
def supersededEvents (path : Path) (old new : List Hunk) : List HunkEvent :=
  HunkTrackerActor.removedEvents path
    (old.filter fun o => !new.any fun n => hunksOverlap o n || hunksMatchContent o n) .superseded

/-- The event of one new hunk, if any. The first old hunk with the same content
decides between a move and silence; otherwise any overlap makes it a change
whose previous counts come from the hunk with the same id, else from the first
overlapping one. -/
def newHunkEvent (path : Path) (old : List Hunk) (trigger : HunkSource) (n : Hunk) :
    Option HunkEvent :=
  match old.find? (fun o => hunksMatchContent o n) with
  | some o => if hunkMoved o n then some (.hunkMoved path o.id n.lineInfo) else none
  | none =>
    if !old.any (fun o => hunksOverlap o n) then some (.hunkAdded path n)
    else
      let prev := old.find? (fun o => o.id = n.id) <|> old.find? (fun o => hunksOverlap o n)
      let counts := (prev.map fun h => (h.lineInfo.newCount, h.lineInfo.oldCount)).getD (0, 0)
      some (.hunkContentChanged path n trigger counts.1 counts.2)

/-- Events for the difference between old and new hunks. -/
def hunkDiffEvents (path : Path) (old new : List Hunk) (trigger : HunkSource) :
    List HunkEvent :=
  supersededEvents path old new ++ new.filterMap (newHunkEvent path old trigger)

namespace HunkTrackerActor

def emitHunkDiffEvents (s : HunkTrackerActor) (path : Path) (old new : List Hunk)
    (trigger : HunkSource) : HunkTrackerActor :=
  s.sendEvents (hunkDiffEvents path old new trigger)

/-- Recompute the hunks of a tracked file for a new content. -/
def recomputeHunks (s : HunkTrackerActor) (env : Env) (path : Path)
    (newCurrent : Option FileContentState) (source : HunkSource) : HunkTrackerActor :=
  match s.fileStates.lookup path with
  | none => s
  | some state =>
    let old := state.hunks
    let current := newCurrent.getD .missing
    let fresh := diffStates env.diffLines path state.baseline current source s.uuid
    let new := claimIds old [] fresh
    let s := { s.setFile path { state with currentContent := current, hunks := new } with
      uuid := s.uuid + fresh.length }
    ((s.dropFromTurnIndex old).addToTurnIndex new).emitHunkDiffEvents path old new source

/-- The hunks a recomputation of a file starts from, under fresh ids. -/
def freshHunks (s : HunkTrackerActor) (env : Env) (path : Path) (state : FileHunkState)
    (newCurrent : Option FileContentState) (source : HunkSource) : List Hunk :=
  diffStates env.diffLines path state.baseline (newCurrent.getD .missing) source s.uuid

section Recompute

variable {s : HunkTrackerActor} {path : Path} {state : FileHunkState}

theorem recomputeHunks_of_none (h : s.fileStates.lookup path = none) (env : Env)
    (newCurrent : Option FileContentState) (source : HunkSource) :
    s.recomputeHunks env path newCurrent source = s := by
  rw [recomputeHunks, h]

variable (h : s.fileStates.lookup path = some state) (env : Env)
  (newCurrent : Option FileContentState) (source : HunkSource)
include h

/-- What a recomputation does to a tracked file and the rest of the actor. -/
theorem recomputeHunks_of_some :
    s.recomputeHunks env path newCurrent source =
      { s with
        fileStates := s.fileStates.insert path
          { state with
            currentContent := newCurrent.getD .missing
            hunks := claimIds state.hunks [] (s.freshHunks env path state newCurrent source) }
        turnIndex := (s.turnIndex.drop state.hunks).add
          (claimIds state.hunks [] (s.freshHunks env path state newCurrent source))
        uuid := s.uuid + (s.freshHunks env path state newCurrent source).length
        events := s.events ++ hunkDiffEvents path state.hunks
          (claimIds state.hunks [] (s.freshHunks env path state newCurrent source)) source } := by
  rw [recomputeHunks, h]
  rfl

end Recompute

/-- The source of the first hunk left in a file, else external. -/
def remainingSource (s : HunkTrackerActor) (path : Path) : HunkSource :=
  (((s.fileStates.lookup path).bind fun state => state.hunks.head?).map Hunk.source).getD .external

end HunkTrackerActor

end Ezer.HunkTracker
