import Ezer.HunkTracker.Invariant
import Mathlib.Data.List.TakeWhile

/-!
# Failing actions

An action fails when its hunk is unknown or when the write or deletion of one
of its files fails. Files after the failure are untouched, and so are the hunks
and contents of the file that failed. Its hunks have been counted and taken out
of the turn index before, so a retry counts them again.
-/

namespace Ezer.HunkTracker

/-- The error of a result, if any. -/
def errorOf {α : Type} : Except HunkActionError α → Option HunkActionError
  | .error e => some e
  | .ok _ => none

/-- The counters after hunks are accepted or rejected one by one. -/
def SessionStats.countAll (stats : SessionStats) (hunks : List Hunk) (accepted : Bool) :
    SessionStats :=
  hunks.foldl (fun stats h => stats.count h.lineInfo accepted) stats

/-- The lines that hunks add. -/
def linesAdded (hunks : List Hunk) : ℕ := (hunks.map fun h => h.lineInfo.newCount).sum

/-- The lines that hunks remove. -/
def linesRemoved (hunks : List Hunk) : ℕ := (hunks.map fun h => h.lineInfo.oldCount).sum

namespace SessionStats

theorem countAll_append (stats : SessionStats) (hunks hunks' : List Hunk) (accepted : Bool) :
    stats.countAll (hunks ++ hunks') accepted =
      (stats.countAll hunks accepted).countAll hunks' accepted := by
  unfold countAll
  rw [List.foldl_append]

/-- Rejected hunks are counted with saturation in three counters. -/
theorem countAll_rejected (stats : SessionStats) (hunks : List Hunk) :
    stats.countAll hunks false =
      { stats with
        rejectedHunks := saturatingAdd stats.rejectedHunks hunks.length
        rejectedLinesAdded := saturatingAdd stats.rejectedLinesAdded (linesAdded hunks)
        rejectedLinesRemoved := saturatingAdd stats.rejectedLinesRemoved (linesRemoved hunks) } := by
  have hzero : ∀ a : Usize, saturatingAdd a 0 = a := fun a => saturatingAdd_eq_self_iff.mpr (Or.inl rfl)
  induction hunks generalizing stats with
  | nil => simp [countAll, linesAdded, linesRemoved, hzero]
  | cons h hunks ih =>
    have hstep : stats.countAll (h :: hunks) false =
        (stats.count h.lineInfo false).countAll hunks false := rfl
    rw [hstep, ih]
    simp [count, saturatingAdd_saturatingAdd, linesAdded, linesRemoved, Nat.add_comm]

/-- Rejecting hunks after others leaves the counters alone when they are full,
or have nothing to add. -/
structure Full (stats : SessionStats) (before hunks : List Hunk) : Prop where
  count : usizeMax ≤ stats.rejectedHunks + before.length
  added : linesAdded hunks = 0 ∨ usizeMax ≤ stats.rejectedLinesAdded + linesAdded before
  removed : linesRemoved hunks = 0 ∨ usizeMax ≤ stats.rejectedLinesRemoved + linesRemoved before

theorem full_iff {stats : SessionStats} {before hunks : List Hunk} (hne : hunks ≠ []) :
    stats.countAll (before ++ hunks) false = stats.countAll before false ↔
      stats.Full before hunks := by
  have hpos : 0 < hunks.length := List.length_pos_of_ne_nil hne
  have hadd : ∀ (a : Usize) (b c : ℕ), saturatingAdd (saturatingAdd a b) c = saturatingAdd a b ↔
      c = 0 ∨ usizeMax ≤ a + b := by
    intro a b c
    rw [saturatingAdd_eq_self_iff, Fin.ext_iff]
    simp only [saturatingAdd, usizeMax]
    omega
  rw [countAll_append, countAll_rejected _ hunks, countAll_rejected]
  simp only [SessionStats.mk.injEq, true_and, hadd]
  constructor
  · rintro ⟨hcount, hadded, hremoved⟩
    exact ⟨hcount.resolve_left hpos.ne', hadded, hremoved⟩
  · intro h
    exact ⟨Or.inr h.count, h.added, h.removed⟩

end SessionStats

namespace HunkTrackerActor

/-- The error an action command returns, if any. -/
def actionError (s : HunkTrackerActor) (env : Env) :
    HunkTrackerCommand → Option HunkActionError
  | .hunkAction id action => errorOf (s.applyHunkAction env id action).2
  | .fileAction path action => errorOf (s.applyFileAction env path action).2
  | .allAction action => errorOf (s.applyAllAction env action).2
  | .turnAction promptIndex action => errorOf (s.applyTurnAction env promptIndex action).2
  | _ => none

/-- The error of rejecting hunks of a file whose write or deletion fails. -/
def rejectError (s : HunkTrackerActor) (f : Path × List Hunk) : Option HunkActionError :=
  (s.fileStates.lookup f.1).bind fun state =>
    match rejectAction state f.2 with
    | .restoreDeleted _ | .revertChange _ => some (.writeError f.1)
    | .deleteCreated => some (.deleteError f.1)
    | .noOp => none

/-- A change of one file and its hunks that leaves the rest of the actor alone. -/
structure FileFrame (s t : HunkTrackerActor) (path : Path) (hunks : List Hunk) : Prop where
  files : ∀ q, q ≠ path → t.fileStates.lookup q = s.fileStates.lookup q
  stats : t.sessionStats = s.sessionStats
  uuid : s.uuid ≤ t.uuid
  index : ∀ id < s.uuid, (∀ k ∈ hunks, k.id ≠ id) → ∀ p,
    id ∈ t.turnIndex p ↔ id ∈ s.turnIndex p

section Frame

variable {env : Env} {s t : HunkTrackerActor} {path : Path} {state : FileHunkState}

private theorem FileFrame.trans {u : HunkTrackerActor} {hunks hunks' : List Hunk}
    (h : s.FileFrame t path hunks) (h' : t.FileFrame u path hunks') (hsub : hunks' ⊆ hunks) :
    s.FileFrame u path hunks := by
  refine ⟨fun q hq => (h'.files q hq).trans (h.files q hq), h'.stats.trans h.stats,
    h.uuid.trans h'.uuid, fun id hid hother p => ?_⟩
  rw [h'.index id (lt_of_lt_of_le hid h.uuid) (fun k hk => hother k (hsub hk)) p]
  exact h.index id hid hother p

private theorem recomputeHunks_frame (h : s.fileStates.lookup path = some state)
    (newCurrent : Option FileContentState) (source : HunkSource) :
    s.FileFrame (s.recomputeHunks env path newCurrent source) path state.hunks := by
  refine ⟨fun q hq => lookup_recomputeHunks_ne hq _ _, ?_, ?_, fun id hid hother p => ?_⟩
  · rw [recomputeHunks_of_some h]
  · rw [recomputeHunks_of_some h]
    exact Nat.le_add_right _ _
  · rw [recomputeHunks_of_some h, TurnIndex.mem_add, TurnIndex.mem_drop]
    constructor
    · rintro (⟨hmem, -⟩ | ⟨k, hk, -, rfl⟩)
      · exact hmem
      · obtain ⟨n, hn, rfl | ⟨best, hbest, -, -, rfl⟩⟩ := mem_claimIds hk
        · have hge := (freshDiff_diffStates _ _ _ _ _ _).id_ge k hn
          exact absurd hid (not_lt_of_ge hge)
        · exact absurd rfl (hother best hbest)
    · exact fun hmem => Or.inl ⟨hmem, fun k hk _ => hother k hk⟩

theorem rejectHunksBatch_frame (env : Env) (h : s.fileStates.lookup path = some state)
    (hunks : List Hunk) :
    s.FileFrame (s.rejectHunksBatch env path hunks).1 path state.hunks := by
  have hself : s.FileFrame s path state.hunks :=
    ⟨fun _ _ => rfl, rfl, le_rfl, fun _ _ _ _ => Iff.rfl⟩
  have hset : ∀ (d : Path → DiskEntry) (st : FileHunkState) (es : List HunkEvent),
      s.FileFrame ((({ s with disk := d }).setFile path st).sendEvents es) path state.hunks :=
    fun d st es => ⟨fun q hq => AList.lookup_insert_ne hq, rfl, le_rfl, fun _ _ _ _ => Iff.rfl⟩
  unfold rejectHunksBatch
  split
  · exact hself
  · simp only [h]
    split
    · split
      · exact hself
      · exact hset _ _ _
    · split
      · exact hself
      · exact hset _ _ _
    · rename_i patched hr
      split
      · exact hself
      · refine (hset (s.writeDisk path patched).disk _ _).trans
          (recomputeHunks_frame (AList.lookup_insert _) _ _) ?_
        exact List.filter_subset_self _
    · exact hself

/-- A failing write or deletion is the error, and leaves the actor alone. -/
theorem rejectHunksBatch_of_fails (h : s.fileStates.lookup path = some state) {hunks : List Hunk}
    (hne : hunks ≠ []) (hfails : rejectIoFails env path state hunks = true) :
    ∃ e, s.rejectError (path, hunks) = some e ∧
      s.rejectHunksBatch env path hunks = (s, .error e) := by
  unfold rejectHunksBatch rejectError
  unfold rejectIoFails at hfails
  simp only [hne, if_false, h, Option.bind_some]
  cases hr : rejectAction state hunks with
  | restoreDeleted | revertChange =>
    rw [hr] at hfails
    exact ⟨.writeError path, rfl, if_pos hfails⟩
  | deleteCreated =>
    rw [hr] at hfails
    exact ⟨.deleteError path, rfl, if_pos hfails⟩
  | noOp =>
    rw [hr] at hfails
    cases hfails

/-- What rejecting hunks of several files does: the files of `done` are handled,
the hunks of the file that fails are counted and leave the index. -/
structure BatchFrame (s t : HunkTrackerActor) (done failed : List (Path × List Hunk)) : Prop where
  files : ∀ q, q ∉ done.map Prod.fst → t.fileStates.lookup q = s.fileStates.lookup q
  stats : t.sessionStats = s.sessionStats.countAll ((done ++ failed).flatMap Prod.snd) false
  index : ∀ id < s.uuid, (∀ f ∈ done, ∀ state, s.fileStates.lookup f.1 = some state →
    ∀ k ∈ state.hunks, k.id ≠ id) → ∀ p,
      id ∈ t.turnIndex p ↔ id ∈ s.turnIndex.drop (failed.flatMap Prod.snd) p

/-- Settling the hunks of the first file of a batch. -/
private def settled (s : HunkTrackerActor) (hunks : List Hunk) : HunkTrackerActor :=
  hunks.foldl (fun s h => s.settleHunk .reject h) s

private theorem settled_eq (s : HunkTrackerActor) (hunks : List Hunk) :
    s.settled hunks =
      { s with
        sessionStats := s.sessionStats.countAll hunks false
        turnIndex := s.turnIndex.drop hunks } :=
  settleHunk_foldl .reject hunks s

private theorem BatchFrame.failed (s : HunkTrackerActor) (f : Path × List Hunk) :
    s.BatchFrame (s.settled f.2) [] [f] := by
  rw [settled_eq]
  refine ⟨fun _ _ => rfl, ?_, fun id _ _ p => ?_⟩
  · simp
  · simp

/-- One file that is handled, before a batch of others. -/
private theorem BatchFrame.cons {u : HunkTrackerActor} {hunks : List Hunk}
    {done failed : List (Path × List Hunk)} (hl : s.fileStates.lookup path = some state)
    (hsub : hunks ⊆ state.hunks) (hframe : (s.settled hunks).FileFrame t path state.hunks)
    (hnot : path ∉ (done ++ failed).map Prod.fst)
    (h : t.BatchFrame u done failed) : s.BatchFrame u ((path, hunks) :: done) failed := by
  rw [settled_eq] at hframe
  refine ⟨fun q hq => ?_, ?_, fun id hid hother p => ?_⟩
  · obtain ⟨hpath, hdone⟩ := not_or.mp (fun hmem => hq (List.mem_cons.mpr hmem))
    exact (h.files q hdone).trans (hframe.files q hpath)
  · rw [h.stats, hframe.stats, List.cons_append, List.flatMap_cons, SessionStats.countAll_append]
  · have hhead : ∀ k ∈ state.hunks, k.id ≠ id := hother (path, hunks) (by simp) state hl
    have hrest : ∀ f ∈ done, ∀ st, t.fileStates.lookup f.1 = some st →
        ∀ k ∈ st.hunks, k.id ≠ id := by
      intro f hf st hst
      refine hother f (by simp [hf]) st ?_
      rw [← hst]
      refine (hframe.files f.1 fun he => hnot ?_).symm
      exact List.mem_map.mpr ⟨f, by simp [hf], he⟩
    rw [h.index id (lt_of_lt_of_le hid hframe.uuid) hrest p, TurnIndex.mem_drop,
      hframe.index id hid hhead p, TurnIndex.mem_drop, TurnIndex.mem_drop]
    refine and_congr_left fun _ => and_iff_left ?_
    exact fun k hk _ => hhead k (hsub hk)

private theorem applyActionBatch_reject (path : Path) (hunks : List Hunk)
    (fs : List (Path × List Hunk)) (affected : List HunkId) :
    applyActionBatch env .reject ((path, hunks) :: fs) affected s =
      match (s.settled hunks).rejectHunksBatch env path hunks with
      | (t, .error e) => (t, .error e)
      | (t, .ok ()) => applyActionBatch env .reject fs (affected ++ hunks.map Hunk.id) t := rfl

/-- Rejecting hunks of several files handles them up to the first failure, whose
error it returns. -/
theorem rejectBatch_frame {fs : List (Path × List Hunk)} {fails : Path × List Hunk → Bool}
    {err : Path × List Hunk → Option HunkActionError} (h : s.Targets fs) (hne : ∀ f ∈ fs, f.2 ≠ [])
    (hfails : ∀ f ∈ fs, s.rejectFails env f = fails f) (herr : ∀ f ∈ fs, s.rejectError f = err f)
    (affected : List HunkId) :
    s.BatchFrame (applyActionBatch env .reject fs affected s).1
        (fs.takeWhile fun f => !fails f) (fs.find? fails).toList ∧
      errorOf (applyActionBatch env .reject fs affected s).2 = (fs.find? fails).bind err := by
  induction fs generalizing s affected with
  | nil =>
    refine ⟨⟨fun _ _ => rfl, rfl, fun _ _ _ _ => Iff.rfl⟩, rfl⟩
  | cons f fs ih =>
    obtain ⟨path, hunks⟩ := f
    obtain ⟨state, hl, hsub⟩ := h.tracked (path, hunks) (by simp)
    have hnil : hunks ≠ [] := hne (path, hunks) (by simp)
    have hio : fails (path, hunks) = rejectIoFails env path state hunks := by
      rw [← hfails (path, hunks) (by simp)]
      simp [rejectFails, hl]
    have hlsettled : (s.settled hunks).fileStates.lookup path = some state := by
      rw [settled_eq]
      exact hl
    rw [applyActionBatch_reject]
    cases hb : rejectIoFails env path state hunks with
    | true =>
      obtain ⟨e, he, hres⟩ := rejectHunksBatch_of_fails hlsettled hnil hb
      rw [hb] at hio
      have heq : (s.settled hunks).rejectError (path, hunks) = s.rejectError (path, hunks) := by
        rw [settled_eq]
        rfl
      rw [hres, List.takeWhile_cons_of_neg (by simp [hio]), List.find?_cons_of_pos hio]
      refine ⟨BatchFrame.failed s (path, hunks), ?_⟩
      rw [Option.bind_some, ← herr (path, hunks) (by simp), ← heq, he]
      rfl
    | false =>
      have hframe := rejectHunksBatch_frame env hlsettled hunks
      have hok := (rejectHunksBatch_ok_iff hlsettled hnil).mpr hb
      rw [hb] at hio
      generalize (s.settled hunks).rejectHunksBatch env path hunks = res at hframe hok
      obtain ⟨t, r⟩ := res
      obtain rfl : r = .ok () := hok
      have hlookup : ∀ q, q ≠ path → t.fileStates.lookup q = s.fileStates.lookup q := by
        intro q hq
        rw [hframe.files q hq, settled_eq]
      have hnot : path ∉ fs.map Prod.fst := (List.nodup_cons.mp h.nodup).1
      have hother : ∀ g ∈ fs, t.fileStates.lookup g.1 = s.fileStates.lookup g.1 :=
        fun g hg => hlookup g.1 fun he => hnot (List.mem_map.mpr ⟨g, hg, he⟩)
      obtain ⟨hrest, herror⟩ := ih (h.rest hlookup) (fun g hg => hne g (by simp [hg]))
        (fun g hg => by rw [← hfails g (by simp [hg]), rejectFails, rejectFails, hother g hg])
        (fun g hg => by rw [← herr g (by simp [hg]), rejectError, rejectError, hother g hg])
        (affected ++ hunks.map Hunk.id)
      rw [List.takeWhile_cons_of_pos (by simp [hio]), List.find?_cons_of_neg (by simp [hio])]
      refine ⟨hrest.cons hl hsub hframe ?_, herror⟩
      intro hmem
      obtain ⟨g, hg, rfl⟩ := List.mem_map.mp hmem
      refine hnot (List.mem_map_of_mem ?_)
      rcases List.mem_append.mp hg with hg | hg
      · exact (List.takeWhile_sublist _).subset hg
      · exact List.mem_of_find?_eq_some (Option.mem_toList.mp hg)

end Frame

/-- The error of an action on a hunk that no file has. -/
def unknownHunk (s : HunkTrackerActor) (env : Env) : HunkTrackerCommand → Option HunkActionError
  | .hunkAction id _ => if (s.findHunk env id).isNone then some (.hunkNotFound id) else none
  | _ => none

section Errors

variable {env : Env} {s : HunkTrackerActor} {cmd : HunkTrackerCommand} {action : HunkAction}

private theorem acceptBatch_ok (fs : List (Path × List Hunk)) (affected : List HunkId)
    (s : HunkTrackerActor) : errorOf (applyActionBatch env .accept fs affected s).2 = none := by
  induction fs generalizing s affected with
  | nil => rfl
  | cons f fs ih => exact ih _ _

private theorem applyHunkAction_error {id : HunkId} {f : Path × Hunk}
    (h : s.findHunk env id = some f) (action : HunkAction) :
    errorOf (s.applyHunkAction env id action).2 =
      errorOf (applyActionBatch env action [(f.1, [f.2])] [] s).2 := by
  obtain ⟨path, hunk⟩ := f
  unfold applyHunkAction
  rw [h]
  cases action with
  | accept => rfl
  | reject =>
    simp only [applyActionBatch, List.foldl_cons, List.foldl_nil, rejectHunk]
    generalize (s.settleHunk .reject hunk).rejectHunksBatch env path [hunk] = res
    obtain ⟨t, r⟩ := res
    cases r <;> rfl

private theorem actionError_batch (h : cmd.action? = some action) :
    s.actionError env cmd = (s.unknownHunk env cmd <|>
      errorOf (applyActionBatch env action (s.actionTargets env cmd) [] s).2) := by
  cases cmd with
  | hunkAction id a =>
    obtain rfl : a = action := by simpa [HunkTrackerCommand.action?] using h
    simp only [actionError, unknownHunk, actionTargets]
    cases hf : s.findHunk env id with
    | none =>
      simp only [applyHunkAction, hf]
      rfl
    | some f => exact applyHunkAction_error hf a
  | fileAction path a =>
    obtain rfl : a = action := by simpa [HunkTrackerCommand.action?] using h
    simp only [actionError, unknownHunk, actionTargets, applyFileAction]
    cases s.fileStates.lookup path with
    | none => rfl
    | some state =>
      by_cases he : state.hunks = []
      · simp only [he, if_true]
        rfl
      · simp only [he, if_false]
        rfl
  | allAction a =>
    obtain rfl : a = action := by simpa [HunkTrackerCommand.action?] using h
    rfl
  | turnAction p a =>
    obtain rfl : a = action := by simpa [HunkTrackerCommand.action?] using h
    rfl
  | _ => simp [HunkTrackerCommand.action?] at h

/-- What rejecting the targets of a command does, and the error it returns. -/
private theorem rejectTargets_frame (s : HunkTrackerActor) (env : Env) (cmd : HunkTrackerCommand) :
    s.BatchFrame (applyActionBatch env .reject (s.actionTargets env cmd) [] s).1
        (s.rejectedFiles env cmd) (s.failedFile env cmd).toList ∧
      errorOf (applyActionBatch env .reject (s.actionTargets env cmd) [] s).2 =
        (s.failedFile env cmd).bind s.rejectError :=
  rejectBatch_frame (targets_actionTargets s env cmd) actionTargets_ne_nil (fun _ _ => rfl)
    (fun _ _ => rfl) []

/-- An action fails on an unknown hunk, and a reject at the first file whose write
or deletion fails. -/
theorem actionError_eq (h : cmd.action? = some action) :
    s.actionError env cmd = (s.unknownHunk env cmd <|>
      match action with
      | .accept => none
      | .reject => (s.failedFile env cmd).bind s.rejectError) := by
  rw [actionError_batch h]
  cases action with
  | accept => rw [acceptBatch_ok]
  | reject => rw [(rejectTargets_frame s env cmd).2]

private theorem actionTargets_of_unknownHunk {e : HunkActionError}
    (h : s.unknownHunk env cmd = some e) : s.actionTargets env cmd = [] := by
  cases cmd with
  | hunkAction id a =>
    simp only [unknownHunk] at h
    simp only [actionTargets]
    cases hf : s.findHunk env id with
    | none => rfl
    | some f => simp [hf] at h
  | _ => cases h

end Errors

/-- The files that are not processed are as before: their states, the index
entries of their hunks, and what they contribute to the counters. -/
structure UnprocessedUntouched (s t : HunkTrackerActor) (processed : List (Path × List Hunk)) :
    Prop where
  files : ∀ q, q ∉ processed.map Prod.fst → t.fileStates.lookup q = s.fileStates.lookup q
  index : ∀ q state, q ∉ processed.map Prod.fst → s.fileStates.lookup q = some state →
    ∀ h ∈ state.hunks, ∀ p, h.id ∈ t.turnIndex p ↔ h.id ∈ s.turnIndex p
  stats : t.sessionStats = s.sessionStats.countAll (processed.flatMap Prod.snd) false

/-- Settling hunks after others goes unnoticed: their turns do not list them and
the counters are full. -/
structure SettlesNothing (s : HunkTrackerActor) (before hunks : List Hunk) : Prop where
  index : ∀ h ∈ hunks, ∀ p, h.source.promptIndex = some p → h.id ∉ s.turnIndex p
  stats : s.sessionStats.Full before hunks

private theorem UnprocessedUntouched.refl (s : HunkTrackerActor) :
    s.UnprocessedUntouched s [] :=
  ⟨fun _ _ => rfl, fun _ _ _ _ _ _ _ => Iff.rfl, rfl⟩

section Failure

variable {s t : HunkTrackerActor} {done : List (Path × List Hunk)}

/-- The hunks of files outside a batch are apart from those of the batch. -/
private theorem BatchFrame.mem_index {failed : List (Path × List Hunk)}
    (h : s.BatchFrame t done failed) (hs : HunkInv s) {q : Path} {state : FileHunkState}
    (hq : q ∉ done.map Prod.fst) (hl : s.fileStates.lookup q = some state) {k : Hunk}
    (hk : k ∈ state.hunks) (p : ℕ) :
    k.id ∈ t.turnIndex p ↔ k.id ∈ s.turnIndex.drop (failed.flatMap Prod.snd) p := by
  refine h.index k.id (hs.drawn hl k hk) (fun f hf st hst m hm => ?_) p
  refine hs.disjoint (fun he => hq ?_) hst hl m hm k hk
  exact List.mem_map.mpr ⟨f, hf, he⟩

private theorem BatchFrame.untouched (h : s.BatchFrame t done []) (hs : HunkInv s) :
    s.UnprocessedUntouched t done := by
  refine ⟨h.files, fun q state hq hl k hk p => h.mem_index hs hq hl hk p, ?_⟩
  rw [h.stats, List.append_nil]

private theorem BatchFrame.untouched_iff {f : Path × List Hunk} {state : FileHunkState}
    (h : s.BatchFrame t done [f]) (hs : HunkInv s) (hf : f.1 ∉ done.map Prod.fst)
    (hl : s.fileStates.lookup f.1 = some state) (hsub : f.2 ⊆ state.hunks) (hne : f.2 ≠ []) :
    s.UnprocessedUntouched t done ↔ s.SettlesNothing (done.flatMap Prod.snd) f.2 := by
  have hstats : t.sessionStats = s.sessionStats.countAll (done.flatMap Prod.snd) false ↔
      s.sessionStats.Full (done.flatMap Prod.snd) f.2 := by
    rw [h.stats, ← SessionStats.full_iff hne, List.flatMap_append, List.flatMap_singleton]
  have hdrop : ∀ p id, id ∈ s.turnIndex.drop ([f].flatMap Prod.snd) p ↔
      id ∈ s.turnIndex p ∧ ∀ k ∈ f.2, k.source.promptIndex = some p → k.id ≠ id := by
    intro p id
    rw [List.flatMap_singleton, TurnIndex.mem_drop]
  constructor
  · intro hun
    refine ⟨fun k hk p hp hmem => ?_, hstats.mp hun.stats⟩
    have hdropped := (h.mem_index hs hf hl (hsub hk) p).mp
      ((hun.index f.1 state hf hl k (hsub hk) p).mpr hmem)
    exact ((hdrop p k.id).mp hdropped).2 k hk hp rfl
  · intro hset
    refine ⟨h.files, fun q st hq hst k hk p => ?_, hstats.mpr hset.stats⟩
    rw [h.mem_index hs hq hst hk p, hdrop]
    refine and_iff_left_of_imp fun hmem m hm hp hid => ?_
    exact hset.index m hm p hp (hid ▸ hmem)

/-- When an action fails, the files it has not processed are untouched exactly
when the hunks of the file that failed go unnoticed in the index and the
counters. -/
theorem actionError_untouched_iff {env : Env} {cmd : HunkTrackerCommand} {e : HunkActionError}
    (hs : Reachable OwnSnapshots true s) (hcmd : cmd.action?.isSome = true)
    (herr : s.actionError env cmd = some e) :
    s.UnprocessedUntouched (s.handleCommand env cmd) (s.rejectedFiles env cmd) ↔
      ∀ f ∈ s.failedFile env cmd,
        s.SettlesNothing ((s.rejectedFiles env cmd).flatMap Prod.snd) f.2 := by
  obtain ⟨action, haction⟩ := Option.isSome_iff_exists.mp hcmd
  have hinv : HunkInv s := reachable_hunkInv (fun _ _ _ hop => hop) hs
  rw [actionError_eq haction] at herr
  rw [handleCommand_action haction]
  cases action with
  | accept =>
    have htargets : s.actionTargets env cmd = [] :=
      actionTargets_of_unknownHunk (by simpa using herr)
    unfold rejectedFiles failedFile
    rw [htargets]
    exact iff_of_true (UnprocessedUntouched.refl s) (by simp)
  | reject =>
    have hframe := (rejectTargets_frame s env cmd).1
    cases hfailed : s.failedFile env cmd with
    | none =>
      rw [hfailed] at hframe
      exact iff_of_true (hframe.untouched hinv) (by simp)
    | some f =>
      rw [hfailed] at hframe
      have hmem : f ∈ s.actionTargets env cmd := List.mem_of_find?_eq_some hfailed
      obtain ⟨state, hl, hsub⟩ := (targets_actionTargets s env cmd).tracked f hmem
      have hnot : f.1 ∉ (s.rejectedFiles env cmd).map Prod.fst := by
        intro hdone
        obtain ⟨g, hg, hgf⟩ := List.mem_map.mp hdone
        have hgt : g ∈ s.actionTargets env cmd := (List.takeWhile_sublist _).subset hg
        have heq : g = f :=
          List.inj_on_of_nodup_map (targets_actionTargets s env cmd).nodup hgt hmem hgf
        have hok := List.mem_takeWhile_imp hg
        rw [heq, List.find?_some hfailed] at hok
        cases hok
      rw [hframe.untouched_iff hinv hnot hl hsub (actionTargets_ne_nil f hmem)]
      simp

end Failure

end HunkTrackerActor

open HunkTrackerActor

private theorem wroteText_reachable : Reachable OwnSnapshots true wroteText :=
  .op (Env.plain replaceLines) (.command (.recordAgentWrite _ _ _ _)) (.new _ _ _ _) trivial

/-- An action on an unknown hunk touches nothing. -/
theorem wroteText_unknownHunk_untouched :
    wroteText.UnprocessedUntouched
      (wroteText.handleCommand (Env.plain replaceLines) (.hunkAction 1 .reject))
      (wroteText.rejectedFiles (Env.plain replaceLines) (.hunkAction 1 .reject)) := by
  refine (actionError_untouched_iff (e := .hunkNotFound 1) wroteText_reachable rfl ?_).mpr ?_
  · decide
  · intro f hf
    have hnone : wroteText.failedFile (Env.plain replaceLines) (.hunkAction 1 .reject) = none := by
      decide
    rw [hnone] at hf
    cases hf

/-- Files cannot be deleted. -/
def removeFailsEnv : Env := { Env.plain replaceLines with removeFails := fun _ => true }

/-- Rejecting the file the agent created fails when it cannot be deleted, after
its hunk has left the index and was counted. -/
theorem wroteText_reject_not_untouched :
    wroteText.actionError removeFailsEnv (.hunkAction 0 .reject) =
        some (.deleteError [.rootDir, .normal ['a'], .normal ['f']]) ∧
      ¬wroteText.UnprocessedUntouched
        (wroteText.handleCommand removeFailsEnv (.hunkAction 0 .reject))
        (wroteText.rejectedFiles removeFailsEnv (.hunkAction 0 .reject)) := by
  refine ⟨by decide, fun h => ?_⟩
  have hstats := h.stats
  have hcount : (wroteText.handleCommand removeFailsEnv (.hunkAction 0 .reject)).sessionStats ≠
      wroteText.sessionStats := by decide
  have hnone : wroteText.rejectedFiles removeFailsEnv (.hunkAction 0 .reject) = [] := by decide
  rw [hnone] at hstats
  exact hcount hstats

end Ezer.HunkTracker
