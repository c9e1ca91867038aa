import Ezer.HunkTracker.Invariant

/-!
# The turn index

The index of hunk ids by prompt is kept by hand next to the file map. It lists
exactly the live hunks of each turn as long as no agent hunk is forgotten
without it, which an agent write that cannot be diffed and a file restored to
HEAD do, and no reject fails after its agent hunks have left the index.
-/

namespace Ezer.HunkTracker

open Ezer.Lib

/-- An id belongs to a live hunk of a turn. -/
def LiveInTurn (s : HunkTrackerActor) (p : ℕ) (id : HunkId) : Prop :=
  ∃ path state, s.fileStates.lookup path = some state ∧
    ∃ h ∈ state.hunks, h.source.promptIndex = some p ∧ h.id = id

/-- The turn index lists exactly the live hunks of every turn. -/
def TurnInv (s : HunkTrackerActor) : Prop :=
  ∀ p id, id ∈ s.turnIndex p ↔ LiveInTurn s p id

/-- None of the hunks is attributed to the agent. -/
def NoAgentHunk (hunks : List Hunk) : Prop := ∀ h ∈ hunks, h.source.promptIndex = none

section Preserve

variable {s s' : HunkTrackerActor}

theorem TurnInv.congr (h : TurnInv s) (hfiles : s'.fileStates = s.fileStates)
    (hindex : s'.turnIndex = s.turnIndex) : TurnInv s' := by
  intro p id
  rw [hindex, h p id, LiveInTurn, LiveInTurn, hfiles]

variable {path : Path} {state : FileHunkState}

/-- The live hunks of a turn, split into those of one file and the rest. -/
private theorem liveInTurn_insert
    (hfiles : s'.fileStates = s.fileStates.insert path state) (p : ℕ) (id : HunkId) :
    LiveInTurn s' p id ↔
      (∃ h ∈ state.hunks, h.source.promptIndex = some p ∧ h.id = id) ∨
        ∃ q st, q ≠ path ∧ s.fileStates.lookup q = some st ∧
          ∃ h ∈ st.hunks, h.source.promptIndex = some p ∧ h.id = id := by
  constructor
  · rintro ⟨q, st, hl, hh⟩
    rw [hfiles] at hl
    by_cases hq : q = path
    · subst hq
      rw [AList.lookup_insert, Option.some.injEq] at hl
      exact Or.inl (hl ▸ hh)
    · rw [AList.lookup_insert_ne hq] at hl
      exact Or.inr ⟨q, st, hq, hl, hh⟩
  · rintro (hh | ⟨q, st, hq, hl, hh⟩)
    · exact ⟨path, state, by rw [hfiles, AList.lookup_insert], hh⟩
    · exact ⟨q, st, by rw [hfiles, AList.lookup_insert_ne hq, hl], hh⟩

/-- The same split for a file as it is tracked. -/
private theorem liveInTurn_split
    (hl : s.fileStates.lookup path = some state) (p : ℕ) (id : HunkId) :
    LiveInTurn s p id ↔
      (∃ h ∈ state.hunks, h.source.promptIndex = some p ∧ h.id = id) ∨
        ∃ q st, q ≠ path ∧ s.fileStates.lookup q = some st ∧
          ∃ h ∈ st.hunks, h.source.promptIndex = some p ∧ h.id = id := by
  constructor
  · rintro ⟨q, st, hq, hh⟩
    by_cases he : q = path
    · subst he
      rw [hl, Option.some.injEq] at hq
      exact Or.inl (hq ▸ hh)
    · exact Or.inr ⟨q, st, he, hq, hh⟩
  · rintro (hh | ⟨q, st, -, hq, hh⟩)
    · exact ⟨path, state, hl, hh⟩
    · exact ⟨q, st, hq, hh⟩

/-- No hunk of another file has the id of a hunk of this one. -/
private theorem HunkInv.id_ne (h : HunkInv s)
    (hl : s.fileStates.lookup path = some state) {k : Hunk} (hk : k ∈ state.hunks) {p : ℕ}
    {id : HunkId} (hother : ∃ q st, q ≠ path ∧ s.fileStates.lookup q = some st ∧
      ∃ h ∈ st.hunks, h.source.promptIndex = some p ∧ h.id = id) : k.id ≠ id := by
  obtain ⟨q, st, hq, hst, m, hm, -, rfl⟩ := hother
  exact h.disjoint (Ne.symm hq) hl hst k hk m hm

private theorem TurnInv.drop {state' : FileHunkState} {gone : List Hunk}
    (hinv : HunkInv s) (h : TurnInv s) (hl : s.fileStates.lookup path = some state)
    (hsub : gone ⊆ state.hunks) (hleft : state'.hunks = withoutHunks state.hunks gone)
    (hfiles : s'.fileStates = s.fileStates.insert path state')
    (hindex : s'.turnIndex = s.turnIndex.drop gone) : TurnInv s' := by
  intro p id
  rw [hindex, TurnIndex.mem_drop, h p id, liveInTurn_split hl, liveInTurn_insert hfiles, hleft]
  constructor
  · rintro ⟨⟨k, hk, hp, rfl⟩ | hother, hnot⟩
    · refine Or.inl ⟨k, List.mem_filter.mpr ⟨hk, ?_⟩, hp, rfl⟩
      simp only [List.mem_map, not_exists, not_and, decide_eq_true_eq]
      intro g hg hid
      have hgk : g = k := List.inj_on_of_nodup_map (hinv.nodup hl) (hsub hg) hk hid
      exact hnot g hg (hgk ▸ hp) hid
    · exact Or.inr hother
  · rintro (⟨k, hk, hp, rfl⟩ | hother)
    · obtain ⟨hk, hnot⟩ := List.mem_filter.mp hk
      simp only [List.mem_map, not_exists, not_and, decide_eq_true_eq] at hnot
      exact ⟨Or.inl ⟨k, hk, hp, rfl⟩, fun g hg _ => hnot g hg⟩
    · exact ⟨Or.inr hother, fun g hg _ => hinv.id_ne hl (hsub hg) hother⟩

private theorem TurnInv.erase (hinv : HunkInv s)
    (h : TurnInv s) (hl : s.fileStates.lookup path = some state)
    (hfiles : s'.fileStates = s.fileStates.erase path)
    (hindex : s'.turnIndex = s.turnIndex.drop state.hunks) : TurnInv s' := by
  intro p id
  rw [hindex, TurnIndex.mem_drop, h p id, liveInTurn_split hl]
  constructor
  · rintro ⟨⟨k, hk, hp, hid⟩ | ⟨q, st, hq, hst, hh⟩, hnot⟩
    · exact absurd hid (hnot k hk hp)
    · exact ⟨q, st, by rw [hfiles, AList.lookup_erase_ne hq, hst], hh⟩
  · rintro ⟨q, st, hst, hh⟩
    rw [hfiles] at hst
    by_cases hq : q = path
    · subst hq
      rw [AList.lookup_erase] at hst
      cases hst
    · rw [AList.lookup_erase_ne hq] at hst
      exact ⟨Or.inr ⟨q, st, hq, hst, hh⟩,
        fun g hg _ => hinv.id_ne hl hg ⟨q, st, hq, hst, hh⟩⟩

private theorem TurnInv.recompute {state' : FileHunkState} (hinv : HunkInv s)
    (h : TurnInv s) (hl : s.fileStates.lookup path = some state)
    (hfiles : s'.fileStates = s.fileStates.insert path state')
    (hindex : s'.turnIndex = (s.turnIndex.drop state.hunks).add state'.hunks) : TurnInv s' := by
  intro p id
  rw [hindex, TurnIndex.mem_add, TurnIndex.mem_drop, h p id, liveInTurn_split hl,
    liveInTurn_insert hfiles, or_comm]
  refine or_congr_right ⟨?_, fun hother => ?_⟩
  · rintro ⟨⟨k, hk, hp, hid⟩ | hother, hnot⟩
    · exact absurd hid (hnot k hk hp)
    · exact hother
  · exact ⟨Or.inr hother, fun g hg _ => hinv.id_ne hl hg hother⟩

/-- A file whose hunks are none of the agent may come and go. -/
private theorem TurnInv.forget {state' : FileHunkState}
    (h : TurnInv s) (hl : s.fileStates.lookup path = some state) (hlost : NoAgentHunk state.hunks)
    (hempty : state'.hunks = []) (hfiles : s'.fileStates = s.fileStates.insert path state')
    (hindex : s'.turnIndex = s.turnIndex) : TurnInv s' := by
  intro p id
  rw [hindex, h p id, liveInTurn_split hl, liveInTurn_insert hfiles, hempty]
  refine or_congr_left ⟨?_, by simp⟩
  rintro ⟨k, hk, hp, -⟩
  simp [hlost k hk] at hp

private theorem TurnInv.track (h : TurnInv s)
    (hl : s.fileStates.lookup path = none) (hempty : state.hunks = [])
    (hfiles : s'.fileStates = s.fileStates.insert path state)
    (hindex : s'.turnIndex = s.turnIndex) : TurnInv s' := by
  intro p id
  rw [hindex, h p id, liveInTurn_insert hfiles, hempty]
  constructor
  · rintro ⟨q, st, hq, hh⟩
    refine Or.inr ⟨q, st, ?_, hq, hh⟩
    rintro rfl
    simp [hl] at hq
  · rintro (hh | ⟨q, st, -, hq, hh⟩)
    · simp at hh
    · exact ⟨q, st, hq, hh⟩

/-- Agent hunks are neither forgotten nor leaked. -/
def allowAttributed : Allow where
  lost := NoAgentHunk
  leaked := NoAgentHunk
  accept := True
  orphan := False
  recompute := fun _ _ _ _ _ => True
  recompute_nil := fun _ _ _ _ => trivial

/-- Every elementary step that loses no agent hunk keeps the turn index exact. -/
theorem TurnInv.step {env : Env} (hstep : Step env allowAttributed s s') (hinv : HunkInv s)
    (h : TurnInv s) : TurnInv s' := by
  cases hstep with
  | frame es hes effect => exact h.congr effect.files_eq effect.index_eq
  | track path state es untracked empty notAccepted hes effect =>
    exact h.track untracked empty effect.files_eq effect.index_eq
  | drop path state state' gone reason es tracked sub left keeps accepted hes effect =>
    exact h.drop hinv tracked sub left effect.files_eq effect.index_eq
  | erase path state es tracked hes effect =>
    exact h.erase hinv tracked effect.files_eq effect.index_eq
  | forget path state state' tracked empty accepted lost effect =>
    exact h.forget tracked lost empty effect.files_eq effect.index_eq
  | leak path state gone tracked sub leaked effect =>
    have hleaked : NoAgentHunk gone := leaked
    refine h.congr effect.files_eq ?_
    rw [effect.index_eq]
    ext p id
    rw [TurnIndex.mem_drop]
    refine ⟨fun hm => hm.1, fun hm => ⟨hm, fun g hg hp => ?_⟩⟩
    simp [hleaked g hg] at hp
  | recompute path state state' current source fresh new es tracked same accepted allowed hfresh
      hnew hes effect =>
    exact h.recompute hinv tracked effect.files_eq effect.index_eq

end Preserve

open HunkTrackerActor

/-- The hunks of a tracked path are none of the agent. -/
def HunkTrackerActor.NoAgentAt (s : HunkTrackerActor) (path : Path) : Prop :=
  ∀ state, s.fileStates.lookup path = some state → NoAgentHunk state.hunks

/-- The condition under which an operation keeps the turn index exact: an agent
write that cannot be diffed and a change that finds the file restored to HEAD
meet no agent hunk, and a reject does not fail on agent hunks. -/
def KeepsTurnIndex (env : Env) (s : HunkTrackerActor) : Op → Prop
  | .command (.recordAgentWrite path content _ _) =>
    (classifyString content).isDiffable = false → s.NoAgentAt path
  | .command (.handleFileChange path) =>
    s.restoredToHead env path none = true → s.NoAgentAt path
  | .command (.handleFileDeleted path) =>
    (s.disk path).pathExists = true → s.restoredToHead env path none = true → s.NoAgentAt path
  | .command (.setWorkingDir _) => False
  | .command (.restoreState _) => False
  | .command cmd => cmd.action? = some .reject →
    ∀ f ∈ s.failedFile env cmd, NoAgentHunk f.2
  | .fileChange path preloaded => s.restoredToHead env path preloaded = true → s.NoAgentAt path
  | _ => True

/-- What holds of every state of such a run. -/
structure TurnState (s : HunkTrackerActor) : Prop where
  hunkInv : HunkInv s
  patchable : ForFiles FileHunkState.HunksPatchable s
  created : ForFiles FileHunkState.CreatedOnce s
  turnInv : TurnInv s

variable {env : Env} {s : HunkTrackerActor}

private theorem TurnState.actionAllowed
    {cmd : HunkTrackerCommand} {action : HunkAction} (hs : TurnState s)
    (hcmd : cmd.action? = some action)
    (h : cmd.action? = some .reject → ∀ f ∈ s.failedFile env cmd, NoAgentHunk f.2) :
    ActionAllowed env allowAttributed s cmd action := by
  cases action with
  | accept => exact ⟨trivial, fun _ _ _ _ _ => trivial⟩
  | reject =>
    have htargets := targets_actionTargets s env cmd
    refine rejectsAllowed_of (fun f hf state hl hr => ?_) (fun f hf state hl hr => ?_)
      (fun _ _ _ _ _ _ => trivial) (h hcmd)
    · have hmem := (List.takeWhile_sublist _).subset hf
      obtain ⟨state', hl', hsub⟩ := htargets.tracked f hmem
      obtain rfl : state' = state := by simpa [hl] using hl'.symm
      have hne : state'.hunks ≠ [] := fun he =>
        actionTargets_ne_nil f hmem (List.subset_nil.mp (he ▸ hsub))
      exact absurd hr (rejectAction_ne_noOp (hs.patchable f.1 state' hl hne) f.2)
    · have hmem := (List.takeWhile_sublist _).subset hf
      obtain ⟨state', hl', hsub⟩ := htargets.tracked f hmem
      obtain rfl : state' = state := by simpa [hl] using hl'.symm
      exact Or.inl (withoutHunks_of_createdOnce (hs.created f.1 state' hl) hsub
        (actionTargets_ne_nil f hmem) hr)

private theorem changeAllowed_attributed {path : Path} {preloaded : Option FileContentState}
    (h : s.restoredToHead env path preloaded = true → s.NoAgentAt path) :
    ChangeAllowed env allowAttributed s path preloaded :=
  ⟨fun state hl hr => h hr state hl, fun _ _ _ => trivial⟩

private theorem TurnState.allowed {op : Op} (hs : TurnState s)
    (h : KeepsTurnIndex env s op) : op.Allowed env allowAttributed s := by
  have hfree : allowAttributed.FreeRecompute := fun _ _ _ _ _ => trivial
  cases op with
  | fileChange path preloaded => exact changeAllowed_attributed h
  | preload paths => trivial
  | refreshExcept skip => exact hfree
  | command cmd =>
    cases cmd with
    | recordAgentWrite path content promptIndex previousContent =>
      exact ⟨fun state hl hd => h hd state hl, fun _ _ _ => trivial⟩
    | handleFileChange path => exact changeAllowed_attributed h
    | handleFileDeleted path =>
      exact ⟨fun he => changeAllowed_attributed (h he), fun _ _ _ => trivial⟩
    | refreshGitDirtyCache => exact hfree
    | refreshAllBaselines => exact hfree
    | resetBaseline path => trivial
    | query q => trivial
    | setMode mode => exact hfree
    | setWorkingDir | restoreState => exact h.elim
    | hunkAction | fileAction | turnAction | allAction => exact hs.actionAllowed rfl h
    | resetStats => trivial

private theorem TurnState.steps {s' : HunkTrackerActor}
    (hsteps : Steps env allowAttributed s s') (hs : TurnState s) : TurnState s' :=
  hsteps.preserves (fun _ _ hstep ht => ⟨ht.hunkInv.step hstep,
    hunksPatchable_step not_false hstep ht.patchable, createdOnce_step not_false hstep ht.created,
    ht.turnInv.step hstep ht.hunkInv⟩) hs

theorem promptIndex_eq_some {source : HunkSource} {p : ℕ} :
    source.promptIndex = some p ↔ source = .agentEdit p := by
  cases source <;> simp [HunkSource.promptIndex]

theorem mem_files_iff {f : Path × FileHunkState} :
    f ∈ s.files env ↔ s.fileStates.lookup f.1 = some f.2 := by
  refine ⟨lookup_of_mem_files, fun hl => ?_⟩
  have hkey : f.1 ∈ s.fileStates.keys :=
    AList.mem_keys.mp (AList.lookup_isSome.mp (by rw [hl]; rfl))
  exact List.mem_filterMap.mpr ⟨f.1, (env.order_perm _).mem_iff.mpr hkey, by simp [hl]⟩

variable {h : Hunk}

theorem mem_getAllHunks :
    h ∈ s.getAllHunks env ↔ ∃ path state, s.fileStates.lookup path = some state ∧
      h ∈ state.hunks := by
  simp only [getAllHunks, List.mem_flatMap, mem_files_iff, Prod.exists]

/-- A live hunk is known by its id. -/
theorem HunkInv.eq_of_id (hs : HunkInv s) {k : Hunk}
    (hh : h ∈ s.getAllHunks env) (hk : k ∈ s.getAllHunks env) (hid : h.id = k.id) : h = k := by
  obtain ⟨p, stp, hp, hhp⟩ := mem_getAllHunks.mp hh
  obtain ⟨q, stq, hq, hkq⟩ := mem_getAllHunks.mp hk
  by_cases he : p = q
  · subst he
    obtain rfl : stp = stq := by simpa [hp] using hq
    exact List.inj_on_of_nodup_map (hs.nodup hp) hhp hkq hid
  · exact absurd hid (hs.disjoint he hp hq h hhp k hkq)

theorem HunkInv.getHunk_eq_some_iff (hs : HunkInv s) {id : HunkId} :
    s.getHunk env id = some h ↔ h ∈ s.getAllHunks env ∧ h.id = id := by
  constructor
  · intro hf
    exact ⟨List.mem_of_find?_eq_some hf, by simpa using List.find?_some hf⟩
  · rintro ⟨hh, rfl⟩
    obtain ⟨k, hk⟩ := Option.isSome_iff_exists.mp
      (List.find?_isSome (p := fun k : Hunk => decide (k.id = h.id)) |>.mpr ⟨h, hh, by simp⟩)
    have hkh := hs.eq_of_id (List.mem_of_find?_eq_some hk) hh (by simpa using List.find?_some hk)
    rw [getHunk, hk, hkh]

/-- The turn index, the hunks of a turn and the turn delta report exactly the
live hunks that the agent made in that turn. -/
structure TurnIndexExact (s : HunkTrackerActor) : Prop where
  index : ∀ p id, id ∈ s.turnIndex p ↔
    ∃ path state, s.fileStates.lookup path = some state ∧
      ∃ h ∈ state.hunks, h.source = .agentEdit p ∧ h.id = id
  hunksForTurn : ∀ env p h, h ∈ s.getHunksForTurn env p ↔
    ∃ path state, s.fileStates.lookup path = some state ∧ h ∈ state.hunks ∧
      h.source = .agentEdit p
  deltaIds : ∀ env p id, id ∈ (s.takeTurnDelta env p).hunkIds ↔
    ∃ path state, s.fileStates.lookup path = some state ∧
      ∃ h ∈ state.hunks, h.source = .agentEdit p ∧ h.id = id
  deltaFiles : ∀ env p path state, (path, state) ∈ (s.takeTurnDelta env p).fileStates ↔
    s.fileStates.lookup path = some state ∧ ∃ h ∈ state.hunks, h.source = .agentEdit p

private theorem TurnState.mem_index (hs : TurnState s) {p : ℕ}
    (hh : h ∈ s.getAllHunks env) : h.id ∈ s.turnIndex p ↔ h.source = .agentEdit p := by
  rw [hs.turnInv, ← promptIndex_eq_some]
  constructor
  · rintro ⟨path, state, hl, k, hk, hp, hid⟩
    have hkall : k ∈ s.getAllHunks env := mem_getAllHunks.mpr ⟨path, state, hl, hk⟩
    exact hs.hunkInv.eq_of_id hkall hh hid ▸ hp
  · intro hp
    obtain ⟨path, state, hl, hmem⟩ := mem_getAllHunks.mp hh
    exact ⟨path, state, hl, h, hmem, hp, rfl⟩

private theorem TurnState.exact (hs : TurnState s) : TurnIndexExact s := by
  have hindex : ∀ p id, id ∈ s.turnIndex p ↔
      ∃ path state, s.fileStates.lookup path = some state ∧
        ∃ h ∈ state.hunks, h.source = .agentEdit p ∧ h.id = id := by
    intro p id
    rw [hs.turnInv]
    simp only [LiveInTurn, promptIndex_eq_some]
  refine ⟨hindex, fun env p h => ?_, fun env => hindex, fun env p path state => ?_⟩
  · rw [getHunksForTurn, List.mem_filterMap]
    constructor
    · rintro ⟨id, hid, hget⟩
      obtain ⟨hh, rfl⟩ := hs.hunkInv.getHunk_eq_some_iff.mp hget
      obtain ⟨path, state, hl, hmem⟩ := mem_getAllHunks.mp hh
      exact ⟨path, state, hl, hmem, (hs.mem_index hh).mp (by simpa using hid)⟩
    · rintro ⟨path, state, hl, hmem, hp⟩
      have hh : h ∈ s.getAllHunks env := mem_getAllHunks.mpr ⟨path, state, hl, hmem⟩
      refine ⟨h.id, by simpa using (hs.mem_index hh).mpr hp, ?_⟩
      exact hs.hunkInv.getHunk_eq_some_iff.mpr ⟨hh, rfl⟩
  · simp only [takeTurnDelta, List.mem_filter, mem_files_iff, List.any_eq_true, decide_eq_true_eq]
    refine and_congr_right fun hl => exists_congr fun h => and_congr_right fun hmem => ?_
    have hh : h ∈ s.getAllHunks env := mem_getAllHunks.mpr ⟨path, state, hl, hmem⟩
    exact hs.mem_index hh

/-- In every state of a run whose operations lose no agent hunk, the turn index
lists exactly the live hunks of every turn. -/
theorem reachable_turnIndexExact {s : HunkTrackerActor} {restores : Bool}
    (h : Reachable KeepsTurnIndex restores s) : TurnIndexExact s := by
  refine TurnState.exact ?_
  induction h with
  | new workingDir mode disk uuid =>
    refine ⟨hunkInv_new workingDir mode disk uuid, ?_, ?_, ?_⟩
    · simp [ForFiles, HunkTrackerActor.new]
    · simp [ForFiles, HunkTrackerActor.new]
    · simp [TurnInv, LiveInTurn, HunkTrackerActor.new]
  | op env op _ hok ih => exact ih.steps (Op.run_steps (ih.allowed hok))
  | disk d _ ih =>
    exact ⟨ih.hunkInv.congr rfl le_rfl, ih.patchable.congr rfl, ih.created.congr rfl,
      ih.turnInv.congr rfl rfl⟩
  | restore hrestores _ _ drawn _ ih =>
    refine ⟨⟨fun hl => ih.hunkInv.path_eq hl, fun hl => ih.hunkInv.nodup hl,
      fun hpq hp hq => ih.hunkInv.disjoint hpq hp hq, fun hl k hk => ?_⟩,
      ih.patchable.congr rfl, ih.created.congr rfl, ih.turnInv.congr rfl rfl⟩
    exact lt_of_lt_of_le (ih.hunkInv.drawn hl k hk) drawn

/-- The index lists the hunk of a first agent write. -/
theorem wroteText_turnIndexExact : TurnIndexExact wroteText := by
  refine reachable_turnIndexExact (.op (Env.plain replaceLines)
    (.command (.recordAgentWrite [.rootDir, .normal ['a'], .normal ['f']] ['x'] 0 none))
    (.new _ _ _ _ : Reachable KeepsTurnIndex false _) ?_)
  intro _ state hl
  cases hl

/-- The same file after the agent overwrote the text with a null byte. -/
def overwroteText : HunkTrackerActor :=
  wroteText.handleCommand (Env.plain replaceLines)
    (.recordAgentWrite [.rootDir, .normal ['a'], .normal ['f']] ['\x00'] 1 none)

/-- An agent write that cannot be diffed leaves the hunk it clears in the index. -/
theorem overwroteText_not_turnIndexExact :
    Reachable (fun _ _ _ => True) false overwroteText ∧ ¬TurnIndexExact overwroteText := by
  refine ⟨.op (Env.plain replaceLines) (.command (.recordAgentWrite _ _ _ _))
    (.op (Env.plain replaceLines) (.command (.recordAgentWrite _ _ _ _)) (.new _ _ _ _) trivial)
    trivial, fun h => ?_⟩
  have hmem : (0 : HunkId) ∈ overwroteText.turnIndex 0 := by decide
  obtain ⟨path, state, hl, k, hk, -⟩ := (h.index 0 0).mp hmem
  have hempty : ∀ f ∈ overwroteText.files (Env.plain replaceLines), f.2.hunks = [] := by decide
  have hnil : state.hunks = [] := hempty (path, state) (mem_files_iff.mpr hl)
  simp [hnil] at hk

end Ezer.HunkTracker
