import Ezer.HunkTracker.Commands

/-!
# Elementary steps of the actor

Every handler is a sequence of a few elementary steps on one file: start to
track it, drop hunks with their index entries and removal events, erase it,
recompute it, and two lossy steps that forget hunks without telling the index
or the subscribers, or take them out of the index and keep them. Invariants are
proved once for each elementary step, and the lossy ones are only taken with
the permission of the run.
-/

namespace Ezer.HunkTracker

open Ezer.Lib

/-- Events that say nothing about hunks. -/
def HunkEvent.isNeutral : HunkEvent → Bool
  | .fileAdded _ _ | .fileRemoved _ | .baselineUpdated _ => true
  | _ => false

/-- A list of events that say nothing about hunks. -/
def Neutral (es : List HunkEvent) : Prop := ∀ e ∈ es, e.isNeutral = true

theorem neutral_nil : Neutral [] := by simp [Neutral]

theorem neutral_singleton {e : HunkEvent} (h : e.isNeutral = true) : Neutral [e] := by
  simpa [Neutral] using h

/-- The pairs of contents that the accept and reject handlers can patch. -/
def FileHunkState.patchable (state : FileHunkState) : Bool :=
  match state.baseline, state.currentContent with
  | .full _, .full _ | .full _, .missing | .missing, .full _ => true
  | _, _ => false

/-- A new file state without hunks, or one that can be patched when the old one
could and that has no baseline only when the old one had none. -/
def FileHunkState.Keeps (state state' : FileHunkState) : Prop :=
  state'.hunks = [] ∨ (state.patchable = true → state'.patchable = true) ∧
    (state'.baseline = .missing → state.baseline = .missing)

/-- What a step changes of the tracked files, the turn index, the events and
the supply of ids. -/
structure Effect (s s' : HunkTrackerActor) (files : FileStates) (index : TurnIndex)
    (events : List HunkEvent) (drawn : ℕ) : Prop where
  files_eq : s'.fileStates = files
  index_eq : s'.turnIndex = index
  events_eq : s'.events = s.events ++ events
  uuid_eq : s'.uuid = s.uuid + drawn
  workingDir_eq : s'.workingDir = s.workingDir

/-- What the steps of a run may do beyond the steps that are always sound. -/
structure Allow where
  /-- Hunks that may disappear without a word. -/
  lost : List Hunk → Prop
  /-- Hunks that may leave the turn index and stay. -/
  leaked : List Hunk → Prop
  /-- Hunks may be accepted. -/
  accept : Prop
  /-- A created file may be deleted under hunks that stay. -/
  orphan : Prop
  /-- The hunks of a file may be recomputed for a baseline and a content. -/
  recompute : DiffLines → Path → FileContentState → FileContentState → List Hunk → Prop
  recompute_nil : ∀ diff path baseline current, recompute diff path baseline current []

/-- The run may recompute any file for any content. -/
def Allow.FreeRecompute (allow : Allow) : Prop :=
  ∀ diff path baseline current old, allow.recompute diff path baseline current old

/-- One elementary step. -/
inductive Step (env : Env) (allow : Allow) (s s' : HunkTrackerActor) : Prop
  | frame (es : List HunkEvent) (hes : Neutral es)
      (effect : Effect s s' s.fileStates s.turnIndex es 0)
  | track (path : Path) (state : FileHunkState) (es : List HunkEvent)
      (untracked : s.fileStates.lookup path = none) (empty : state.hunks = [])
      (notAccepted : state.baselineAccepted = false) (hes : Neutral es)
      (effect : Effect s s' (s.fileStates.insert path state) s.turnIndex es 0)
  | drop (path : Path) (state state' : FileHunkState) (gone : List Hunk)
      (reason : HunkRemovalReason) (es : List HunkEvent)
      (tracked : s.fileStates.lookup path = some state) (sub : gone ⊆ state.hunks)
      (left : state'.hunks = withoutHunks state.hunks gone) (keeps : state.Keeps state' ∨ allow.orphan)
      (accepted : state'.baselineAccepted = true ∨ reason = .accepted →
        state.baselineAccepted = true ∧ reason ≠ .accepted ∨ allow.accept)
      (hes : Neutral es)
      (effect : Effect s s' (s.fileStates.insert path state') (s.turnIndex.drop gone)
        (HunkTrackerActor.removedEvents path gone reason ++ es) 0)
  | erase (path : Path) (state : FileHunkState) (es : List HunkEvent)
      (tracked : s.fileStates.lookup path = some state) (hes : Neutral es)
      (effect : Effect s s' (s.fileStates.erase path) (s.turnIndex.drop state.hunks)
        (HunkTrackerActor.removedEvents path state.hunks .superseded ++ es) 0)
  | forget (path : Path) (state state' : FileHunkState)
      (tracked : s.fileStates.lookup path = some state) (empty : state'.hunks = [])
      (accepted : state'.baselineAccepted = true → state.baselineAccepted = true)
      (lost : allow.lost state.hunks)
      (effect : Effect s s' (s.fileStates.insert path state') s.turnIndex [] 0)
  | leak (path : Path) (state : FileHunkState) (gone : List Hunk)
      (tracked : s.fileStates.lookup path = some state) (sub : gone ⊆ state.hunks)
      (leaked : allow.leaked gone)
      (effect : Effect s s' s.fileStates (s.turnIndex.drop gone) [] 0)
  | recompute (path : Path) (state state' : FileHunkState) (current : FileContentState)
      (source : HunkSource) (fresh new : List Hunk) (es : List HunkEvent)
      (tracked : s.fileStates.lookup path = some state) (same : state'.hunks = state.hunks)
      (accepted : state'.baselineAccepted = true → state.baselineAccepted = true)
      (allowed : allow.recompute env.diffLines path state'.baseline current state.hunks)
      (hfresh : fresh = diffStates env.diffLines path state'.baseline current source s.uuid)
      (hnew : new = claimIds state.hunks [] fresh) (hes : Neutral es)
      (effect : Effect s s'
        (s.fileStates.insert path { state' with currentContent := current, hunks := new })
        ((s.turnIndex.drop state.hunks).add new)
        (hunkDiffEvents path state.hunks new source ++ es) fresh.length)

/-- Any number of elementary steps. -/
abbrev Steps (env : Env) (allow : Allow) : HunkTrackerActor → HunkTrackerActor → Prop :=
  Relation.ReflTransGen (Step env allow)

/-- A property kept by every elementary step is kept by any number of them. -/
theorem Steps.preserves {env : Env} {allow : Allow} {P : HunkTrackerActor → Prop}
    (hstep : ∀ s s', Step env allow s s' → P s → P s') {s s' : HunkTrackerActor}
    (h : Steps env allow s s') (hs : P s) : P s' := by
  induction h with
  | refl => exact hs
  | tail _ hlast ih => exact hstep _ _ hlast ih

/-- Nothing that matters to hunks has changed. -/
structure SameHunks (s s' : HunkTrackerActor) : Prop where
  files_eq : s'.fileStates = s.fileStates
  index_eq : s'.turnIndex = s.turnIndex
  events_eq : s'.events = s.events
  uuid_eq : s'.uuid = s.uuid
  workingDir_eq : s'.workingDir = s.workingDir

section Decompose

variable {env : Env} {allow : Allow} {s s' : HunkTrackerActor}

theorem SameHunks.refl (s : HunkTrackerActor) : SameHunks s s := ⟨rfl, rfl, rfl, rfl, rfl⟩

theorem SameHunks.step (h : SameHunks s s') : Step env allow s s' :=
  .frame [] neutral_nil ⟨h.files_eq, h.index_eq, by simp [h.events_eq], h.uuid_eq,
    h.workingDir_eq⟩

/-- Elementary steps leave the working directory alone. -/
theorem Steps.workingDir_eq (h : Steps env allow s s') : s'.workingDir = s.workingDir := by
  refine Steps.preserves (P := fun t => t.workingDir = s.workingDir) (fun t t' hstep ht => ?_) h rfl
  cases hstep <;> rename_i effect <;> exact effect.workingDir_eq.trans ht

namespace HunkTrackerActor

theorem sameHunks_cacheDiscovery (s : HunkTrackerActor) (opened : Option OpenedRepo) :
    SameHunks s (s.cacheDiscovery opened) := by
  unfold cacheDiscovery
  split
  · exact ⟨rfl, rfl, rfl, rfl, rfl⟩
  · split
    · exact ⟨rfl, rfl, rfl, rfl, rfl⟩
    · exact SameHunks.refl s

theorem sameHunks_readRepoSyncState (s : HunkTrackerActor) (env : Env) :
    SameHunks s (s.readRepoSyncState env).2 := by
  unfold readRepoSyncState
  split
  · exact SameHunks.refl s
  · exact sameHunks_cacheDiscovery s _

theorem sameHunks_readBaseline (s : HunkTrackerActor) (env : Env) (path : Path) :
    SameHunks s (s.readBaseline env path).2 := by
  unfold readBaseline
  split
  · exact SameHunks.refl s
  · exact sameHunks_cacheDiscovery s _

theorem sameHunks_readBaselinesBatch (s : HunkTrackerActor) (env : Env) (paths : List Path) :
    SameHunks s (s.readBaselinesBatch env paths).2 := by
  unfold readBaselinesBatch
  split
  · exact SameHunks.refl s
  · exact sameHunks_cacheDiscovery s _

theorem sameHunks_baselineOr (s : HunkTrackerActor) (env : Env) (path : Path)
    (preloaded : Option FileContentState) : SameHunks s (s.baselineOr env path preloaded).2 := by
  cases preloaded with
  | none => exact sameHunks_readBaseline s env path
  | some b => exact SameHunks.refl s

variable {path q : Path}

theorem trackFile_step (h : s.fileStates.lookup path = none)
    (baseline current : FileContentState) (isAgentFile : Bool) :
    Step env allow s (s.trackFile path baseline current isAgentFile) :=
  .track path ⟨baseline, current, [], isAgentFile, false⟩ [.fileAdded path isAgentFile] h rfl rfl
    (neutral_singleton rfl) ⟨rfl, rfl, rfl, rfl, rfl⟩

@[simp] theorem lookup_trackFile (s : HunkTrackerActor) (path : Path)
    (baseline current : FileContentState) (isAgentFile : Bool) :
    (s.trackFile path baseline current isAgentFile).fileStates.lookup path =
      some ⟨baseline, current, [], isAgentFile, false⟩ := by
  simp [trackFile, sendEvents, setFile]

variable {state : FileHunkState}

/-- Recomputing a file after a change to its other fields. -/
theorem recomputeHunks_step (state' : FileHunkState)
    (h : s.fileStates.lookup path = some state) (hsame : state'.hunks = state.hunks)
    (hacc : state'.baselineAccepted = true → state.baselineAccepted = true)
    {newCurrent : Option FileContentState}
    (hallow : allow.recompute env.diffLines path state'.baseline (newCurrent.getD .missing)
      state.hunks)
    {es : List HunkEvent} (hes : Neutral es) (source : HunkSource) :
    Step env allow s
      (((s.setFile path state').recomputeHunks env path newCurrent source).sendEvents es) := by
  have hl : (s.setFile path state').fileStates.lookup path = some state' := by simp [setFile]
  refine .recompute path state state' (newCurrent.getD .missing) source _ _ es h hsame hacc hallow
    rfl rfl hes ?_
  rw [recomputeHunks_of_some hl]
  refine ⟨?_, ?_, ?_, ?_, rfl⟩
  · simp [sendEvents, setFile, freshHunks, hsame]
  · simp [sendEvents, setFile, freshHunks, hsame]
  · simp [sendEvents, setFile, freshHunks, hsame]
  · simp [sendEvents, setFile, freshHunks]

/-- Recomputing a file as it is. -/
theorem recomputeHunks_step_self
    (h : s.fileStates.lookup path = some state) {newCurrent : Option FileContentState}
    (hallow : allow.recompute env.diffLines path state.baseline (newCurrent.getD .missing)
      state.hunks) (source : HunkSource) :
    Step env allow s (s.recomputeHunks env path newCurrent source) := by
  refine .recompute path state state (newCurrent.getD .missing) source _ _ [] h rfl id hallow
    rfl rfl neutral_nil ?_
  rw [recomputeHunks_of_some h]
  exact ⟨rfl, rfl, by simp [freshHunks], rfl, rfl⟩

/-- A file that was just tracked may always be recomputed. -/
theorem track_recompute_steps (h : s.fileStates.lookup path = none)
    (baseline current : FileContentState) (isAgentFile : Bool)
    (newCurrent : Option FileContentState) (source : HunkSource) :
    Steps env allow s ((s.trackFile path baseline current isAgentFile).recomputeHunks env path
      newCurrent source) :=
    (Relation.ReflTransGen.single (trackFile_step h baseline current isAgentFile)).tail
    (recomputeHunks_step_self (lookup_trackFile s path baseline current isAgentFile)
      (allow.recompute_nil _ _ _ _) source)

theorem recordAgentWrite_steps (path : Path) (content : Text) (promptIndex : ℕ)
    (previousContent : Option Text)
    (hlost : ∀ state, s.fileStates.lookup path = some state →
      (classifyString content).isDiffable = false → allow.lost state.hunks)
    (hrecompute : ∀ state, s.fileStates.lookup path = some state →
      (classifyString content).isDiffable = true →
      allow.recompute env.diffLines path state.baseline (classifyString content) state.hunks) :
    Steps env allow s (s.recordAgentWrite env path content promptIndex previousContent) := by
  unfold recordAgentWrite
  cases hd : (classifyString content).isDiffable with
  | false =>
    simp only [hd, Bool.false_eq_true, not_false_eq_true, if_true]
    cases hl : s.fileStates.lookup path with
    | none =>
      cases previousContent with
      | some prev => exact .single (trackFile_step hl _ _ _)
      | none =>
        have hr := sameHunks_readBaseline s env path
        refine (Relation.ReflTransGen.single hr.step).tail (trackFile_step ?_ _ _ _)
        rw [hr.files_eq, hl]
    | some state =>
      refine .single (.forget path state _ hl ?_ ?_ (hlost state hl hd) ⟨rfl, rfl, ?_, rfl, rfl⟩)
      · rfl
      · exact id
      · simp [setFile]
  | true =>
    simp only [hd, not_true_eq_false, if_false]
    cases hl : s.fileStates.lookup path with
    | none =>
      have hr := sameHunks_readBaseline s env path
      refine (Relation.ReflTransGen.single hr.step).trans (track_recompute_steps ?_ _ _ _ _ _)
      rw [hr.files_eq, hl]
    | some state =>
      refine .single ?_
      have hstep : Step env allow s (((s.setFile path { state with
          isAgentFile := true }).recomputeHunks env path (some (classifyString content))
          (.agentEdit promptIndex)).sendEvents []) :=
        recomputeHunks_step { state with isAgentFile := true } hl rfl id (hrecompute state hl hd)
          neutral_nil _
      simpa [sendEvents] using hstep

/-- The tracked file that a change notification finds restored to HEAD. -/
def restoredToHead (s : HunkTrackerActor) (env : Env) (path : Path)
    (preloaded : Option FileContentState) : Bool :=
  match s.fileStates.lookup path with
  | none => false
  | some state =>
    state.baselineAccepted &&
      (s.baselineOr env path preloaded).2.contentMatchesHead path (s.disk path).readFileBounded
        (s.baselineOr env path preloaded).1

theorem processFileChange_steps (path : Path) (preloaded : Option FileContentState)
    (hlost : ∀ state, s.fileStates.lookup path = some state →
      s.restoredToHead env path preloaded = true → allow.lost state.hunks)
    (hrecompute : ∀ state, s.fileStates.lookup path = some state →
      s.restoredToHead env path preloaded = false →
      allow.recompute env.diffLines path state.baseline (s.disk path).readFileBounded
        state.hunks) :
    Steps env allow s (s.processFileChange env path preloaded) := by
  have hr := sameHunks_baselineOr s env path preloaded
  unfold processFileChange
  cases hl : s.fileStates.lookup path with
  | none =>
    have hl' : (s.baselineOr env path preloaded).2.fileStates.lookup path = none := by
      rw [hr.files_eq, hl]
    simp only
    split
    · exact .refl
    · split
      · exact .single hr.step
      · split
        · split
          · exact (Relation.ReflTransGen.single hr.step).trans
              (track_recompute_steps hl' _ _ _ _ _)
          · exact (Relation.ReflTransGen.single hr.step).tail (trackFile_step hl' _ _ _)
        · exact (Relation.ReflTransGen.single hr.step).trans
            (track_recompute_steps hl' _ _ _ _ _)
  | some state =>
    have hl' : (s.baselineOr env path preloaded).2.fileStates.lookup path = some state := by
      rw [hr.files_eq, hl]
    simp only
    split
    · rename_i hacc
      split
      · rename_i hmatch
        have hrest : s.restoredToHead env path preloaded = true := by
          simp [restoredToHead, hl, hacc, hmatch]
        refine (Relation.ReflTransGen.single hr.step).tail
          (.forget path state _ hl' ?_ ?_ (hlost state hl hrest) ⟨rfl, rfl, ?_, rfl, rfl⟩)
        · rfl
        · simp
        · simp [setFile]
      · rename_i hmatch
        have hrest : s.restoredToHead env path preloaded = false := by
          simp [restoredToHead, hl, hacc, hmatch]
        exact (Relation.ReflTransGen.single hr.step).tail
          (recomputeHunks_step_self hl' (hrecompute state hl hrest) _)
    · rename_i hacc
      have hrest : s.restoredToHead env path preloaded = false := by
        simp [restoredToHead, hl, hacc]
      exact .single (recomputeHunks_step_self hl (hrecompute state hl hrest) _)

theorem handleFileDeleted_steps (path : Path)
    (hlost : ∀ state, s.fileStates.lookup path = some state →
      (s.disk path).pathExists = true → s.restoredToHead env path none = true →
      allow.lost state.hunks)
    (hrecompute : ∀ state, s.fileStates.lookup path = some state →
      (s.disk path).pathExists = true → s.restoredToHead env path none = false →
      allow.recompute env.diffLines path state.baseline (s.disk path).readFileBounded state.hunks)
    (hdeleted : ∀ state, s.fileStates.lookup path = some state →
      (s.disk path).pathExists = false →
      allow.recompute env.diffLines path state.baseline .missing state.hunks) :
    Steps env allow s (s.handleFileDeleted env path) := by
  have hr := sameHunks_readBaseline s env path
  unfold handleFileDeleted
  cases hl : s.fileStates.lookup path with
  | none =>
    have hl' : (s.readBaseline env path).2.fileStates.lookup path = none := by
      rw [hr.files_eq, hl]
    simp only
    split
    · exact .refl
    · split
      · exact .refl
      · split
        · exact .single hr.step
        · exact (Relation.ReflTransGen.single hr.step).trans
            (track_recompute_steps hl' _ _ _ _ _)
  | some state =>
    simp only
    split
    · rename_i hexists
      exact processFileChange_steps path none (fun st hst => hlost st hst hexists)
        fun st hst => hrecompute st hst hexists
    · rename_i hexists
      exact .single (recomputeHunks_step_self hl (hdeleted state hl (by simpa using hexists)) _)

/-- Dropping all hunks of a file with their index entries and events. -/
private theorem clear_step {state' : FileHunkState}
    (h : s.fileStates.lookup path = some state) (hempty : state'.hunks = [])
    (hacc : state'.baselineAccepted = false) :
    Step env allow s (((s.setFile path state').dropFromTurnIndex state.hunks).sendEvents
      (removedEvents path state.hunks .superseded ++ [.baselineUpdated path])) := by
  refine .drop path state state' state.hunks .superseded [.baselineUpdated path] h
    (List.Subset.refl _) ?_ (Or.inl (Or.inl hempty)) (by simp [hacc])
    (neutral_singleton rfl) ⟨rfl, rfl, rfl, rfl, rfl⟩
  rw [hempty, withoutHunks]
  refine (List.filter_eq_nil_iff.mpr fun a ha => ?_).symm
  simpa using ⟨a, ha, rfl⟩

private theorem erase_step (h : s.fileStates.lookup path = some state) :
    Step env allow s (((s.eraseFile path).dropFromTurnIndex state.hunks).sendEvents
      (removedEvents path state.hunks .superseded ++ [.fileRemoved path])) :=
  .erase path state [.fileRemoved path] h (neutral_singleton rfl)
    ⟨rfl, rfl, rfl, rfl, rfl⟩

theorem resetBaseline_steps (path : Path) : Steps env allow s (s.resetBaseline path) := by
  unfold resetBaseline
  cases hl : s.fileStates.lookup path with
  | none => exact .refl
  | some state =>
    exact .single (clear_step hl rfl rfl)

theorem untrackFile_steps (path : Path) : Steps env allow s (s.untrackFile path) := by
  unfold untrackFile
  cases hl : s.fileStates.lookup path with
  | none => exact .refl
  | some state => exact .single (erase_step hl)

/-- Steps over a list of handlers that keep a property of the state. -/
theorem foldl_steps {α : Type*} {f : HunkTrackerActor → α → HunkTrackerActor}
    {P : HunkTrackerActor → Prop} {l : List α}
    (hf : ∀ s, ∀ a ∈ l, P s → Steps env allow s (f s a))
    (hP : ∀ s, ∀ a ∈ l, P s → P (f s a)) (hs : P s) : Steps env allow s (l.foldl f s) := by
  induction l generalizing s with
  | nil => exact .refl
  | cons a l ih =>
    refine (hf s a (by simp) hs).trans (ih (fun s b hb => hf s b (by simp [hb])) ?_ ?_)
    · exact fun s b hb => hP s b (by simp [hb])
    · exact hP s a (by simp) hs

/-- A path is untracked or its baseline was not accepted. -/
def NotAccepted (s : HunkTrackerActor) (path : Path) : Prop :=
  ∀ state, s.fileStates.lookup path = some state → state.baselineAccepted = false

/-- Everything is allowed but accepting. -/
private def noAccept : Allow where
  lost := fun _ => True
  leaked := fun _ => True
  accept := False
  orphan := True
  recompute := fun _ _ _ _ _ => True
  recompute_nil := fun _ _ _ _ => trivial

private theorem notAccepted_insert {files : FileStates}
    (hfiles : s'.fileStates = files.insert path state)
    (hold : q ≠ path → ∀ st, files.lookup q = some st → st.baselineAccepted = false)
    (hnew : q = path → state.baselineAccepted = false) : s'.NotAccepted q := by
  intro st hst
  rw [hfiles] at hst
  by_cases hq : q = path
  · subst hq
    rw [AList.lookup_insert, Option.some.injEq] at hst
    exact hst ▸ hnew rfl
  · rw [AList.lookup_insert_ne hq] at hst
    exact hold hq st hst

/-- Without accepting, no baseline becomes accepted. -/
theorem notAccepted_step (haccept : ¬allow.accept) (h : Step env allow s s')
    (hs : s.NotAccepted q) : s'.NotAccepted q := by
  cases h with
  | frame es hes effect =>
    intro st hst
    exact hs st (by rwa [effect.files_eq] at hst)
  | track path state es untracked empty notAccepted hes effect =>
    exact notAccepted_insert effect.files_eq (fun _ => hs) fun _ => notAccepted
  | drop path state state' gone reason es tracked sub left keeps accepted hes effect =>
    refine notAccepted_insert effect.files_eq (fun _ => hs) fun hq => ?_
    subst hq
    by_contra hacc
    rcases accepted (Or.inl (by simpa using hacc)) with ⟨hold, -⟩ | hfalse
    · simp [hs state tracked] at hold
    · exact haccept hfalse
  | erase path state es tracked hes effect =>
    intro st hst
    rw [effect.files_eq] at hst
    by_cases hq : q = path
    · subst hq
      rw [AList.lookup_erase] at hst
      cases hst
    · rw [AList.lookup_erase_ne hq] at hst
      exact hs st hst
  | forget path state state' tracked empty accepted lost effect =>
    refine notAccepted_insert effect.files_eq (fun _ => hs) fun hq => ?_
    subst hq
    by_contra hacc
    simp [hs state tracked] at accepted
    simp [accepted] at hacc
  | leak path state gone tracked sub leaked effect =>
    intro st hst
    exact hs st (by rwa [effect.files_eq] at hst)
  | recompute path state state' current source fresh new es tracked same accepted allowed hfresh
      hnew hes effect =>
    refine notAccepted_insert effect.files_eq (fun _ => hs) fun hq => ?_
    subst hq
    by_contra hacc
    simp [hs state tracked] at accepted
    simp [accepted] at hacc

private theorem processFileChange_noAccept (path : Path)
    (preloaded : Option FileContentState) :
    Steps env noAccept s (s.processFileChange env path preloaded) :=
  processFileChange_steps path preloaded (fun _ _ _ => trivial) fun _ _ _ => trivial

theorem processFileChange_notAccepted (path : Path)
    (preloaded : Option FileContentState) (hs : s.NotAccepted q) :
    (s.processFileChange env path preloaded).NotAccepted q :=
  Steps.preserves (fun _ _ => notAccepted_step not_false) (processFileChange_noAccept path preloaded) hs

theorem refreshGitDirtyCache_steps (hfree : allow.FreeRecompute) (scope : Option (List Path)) :
    Steps env allow s (s.refreshGitDirtyCache env scope) := by
  unfold refreshGitDirtyCache
  split
  · exact .refl
  · set opened := openOrDiscover env s.gitRepoState s.workingDir with hopened
    have hc := sameHunks_cacheDiscovery s opened
    set scan := (opened.map fun o => scanStatus env o scope).getD ([], []) with hscan
    simp only
    set t : HunkTrackerActor :=
      { s.cacheDiscovery opened with gitDirtyCache := scan.1, gitStagedCache := scan.2 } with ht
    have hsame : SameHunks s t :=
      ⟨hc.files_eq, hc.index_eq, hc.events_eq, hc.uuid_eq, hc.workingDir_eq⟩
    split
    · refine (Relation.ReflTransGen.single hsame.step).trans ?_
      set rels := (env.order scan.1).filter fun rel =>
        !(s.cacheDiscovery opened).tracked ((s.cacheDiscovery opened).workingDir.join rel)
        with hrels
      refine foldl_steps
        (P := fun u => u.workingDir = t.workingDir ∧
          ∀ rel ∈ rels, u.NotAccepted (t.workingDir.join rel)) ?_ ?_ ?_
      · rintro u rel hrel ⟨hwd, hacc⟩
        rw [hwd]
        refine processFileChange_steps _ _ (fun state hstate hrestored => ?_)
          fun state _ _ => hfree _ _ _ _ _
        simp [restoredToHead, hstate, hacc rel hrel state hstate] at hrestored
      · rintro u rel hrel ⟨hwd, hacc⟩
        refine ⟨?_, fun rel' hrel' => processFileChange_notAccepted _ _ (hacc rel' hrel')⟩
        exact (processFileChange_noAccept _ none).workingDir_eq.trans hwd
      · refine ⟨rfl, fun rel hrel state hstate => ?_⟩
        have huntracked := (List.mem_filter.mp hrel).2
        have hlookup : (s.cacheDiscovery opened).fileStates.lookup
            ((s.cacheDiscovery opened).workingDir.join rel) = none := by
          simpa [tracked] using huntracked
        rw [ht] at hstate
        simp [hlookup] at hstate
    · exact .single hsame.step

theorem refreshFile_steps (hfree : allow.FreeRecompute) (path : Path)
    (newBaseline newCurrent : FileContentState) :
    Steps env allow s (s.refreshFile env path newBaseline newCurrent) := by
  unfold refreshFile
  cases hl : s.fileStates.lookup path with
  | none => exact .refl
  | some state =>
    simp only
    split
    · split
      · exact .single (clear_step hl rfl rfl)
      · exact .single (erase_step hl)
    · refine .single (recomputeHunks_step { state with
        baseline := newBaseline
        currentContent := newCurrent
        baselineAccepted := false } hl rfl ?_ (hfree _ _ _ _ _) ?_ _)
      · simp
      · exact neutral_singleton rfl

private theorem refreshDirtyForMode_steps (hfree : allow.FreeRecompute) :
    Steps env allow s (s.refreshDirtyForMode env) := by
  unfold refreshDirtyForMode
  split
  · exact refreshGitDirtyCache_steps hfree none
  · split
    · exact .single (SameHunks.step ⟨rfl, rfl, rfl, rfl, rfl⟩)
    · exact refreshGitDirtyCache_steps hfree _

private theorem refreshTracked_steps (hfree : allow.FreeRecompute) (skip : List Path) :
    Steps env allow s (s.refreshTracked env skip) := by
  unfold refreshTracked
  have hb := sameHunks_readBaselinesBatch s env ((s.paths env).filter fun p => decide (p ∉ skip))
  refine (Relation.ReflTransGen.single hb.step).trans ?_
  exact foldl_steps (P := fun _ => True) (fun w p _ _ => refreshFile_steps hfree p _ _)
    (fun _ _ _ _ => trivial) trivial

theorem refreshAllBaselinesExcept_steps (hfree : allow.FreeRecompute) (skip : List Path) :
    Steps env allow s (s.refreshAllBaselinesExcept env skip) := by
  unfold refreshAllBaselinesExcept
  split
  · exact .refl
  · have hr := sameHunks_readRepoSyncState s env
    refine (Relation.ReflTransGen.single hr.step).trans ?_
    simp only
    split
    · exact .refl
    · have hsame : SameHunks (s.readRepoSyncState env).2
          { (s.readRepoSyncState env).2 with
            repoSyncState := (s.readRepoSyncState env).1.getD
              (s.readRepoSyncState env).2.repoSyncState } := ⟨rfl, rfl, rfl, rfl, rfl⟩
      refine (Relation.ReflTransGen.single hsame.step).trans ?_
      exact (refreshDirtyForMode_steps hfree).trans (refreshTracked_steps hfree skip)

theorem setMode_steps (hfree : allow.FreeRecompute) (mode : TrackingMode) :
    Steps env allow s (s.setMode env mode) := by
  unfold setMode
  have hsame : SameHunks s { s with mode := mode } := ⟨rfl, rfl, rfl, rfl, rfl⟩
  refine (Relation.ReflTransGen.single hsame.step).trans ?_
  simp only
  split
  · exact refreshGitDirtyCache_steps hfree none
  · split
    · exact foldl_steps (P := fun _ => True) (fun w p _ _ => untrackFile_steps _)
        (fun _ _ _ _ => trivial) trivial
    · exact .refl

/-- Settling hunks counts them and takes them out of the turn index. -/
theorem settleHunk_foldl (action : HunkAction) (hunks : List Hunk) (s : HunkTrackerActor) :
    hunks.foldl (fun s h => s.settleHunk action h) s =
      { s with
        sessionStats := hunks.foldl
          (fun stats h => stats.count h.lineInfo (action = .accept)) s.sessionStats
        turnIndex := s.turnIndex.drop hunks } := by
  induction hunks generalizing s with
  | nil => rfl
  | cons h hunks ih =>
    rw [List.foldl_cons, ih]
    rfl

/-- One step that leaves a file tracked, and its recomputation. -/
private theorem step_recompute_steps {t : HunkTrackerActor}
    {newCurrent : Option FileContentState} {source : HunkSource} (hstep : Step env allow s t)
    (hl : t.fileStates.lookup path = some state)
    (hallow : allow.recompute env.diffLines path state.baseline (newCurrent.getD .missing)
      state.hunks) : Steps env allow s (t.recomputeHunks env path newCurrent source) :=
    (Relation.ReflTransGen.single hstep).tail (recomputeHunks_step_self hl hallow source)

variable {hunks : List Hunk}

theorem acceptHunksBatch_steps (haccept : allow.accept) (hfree : allow.FreeRecompute)
    (h : s.fileStates.lookup path = some state)
    (hsub : hunks ⊆ state.hunks) :
    Steps env allow s
      ((hunks.foldl (fun s h => s.settleHunk .accept h) s).acceptHunksBatch env path hunks) := by
  rw [settleHunk_foldl]
  unfold acceptHunksBatch
  split
  · rename_i he
    subst he
    exact .single (SameHunks.step ⟨rfl, rfl, rfl, rfl, rfl⟩)
  · simp only [h]
    have hneutral : Neutral [HunkEvent.baselineUpdated path] := neutral_singleton rfl
    split
    · rename_i hb
      refine .single (.drop path state _ hunks .accepted [.baselineUpdated path] h hsub rfl
        (Or.inl (Or.inr ⟨fun hp => ?_, fun _ => hb⟩)) (fun _ => Or.inr haccept) hneutral
        ⟨rfl, rfl, rfl, rfl, rfl⟩)
      cases hc : state.currentContent <;> simp_all [FileHunkState.patchable]
    · rename_i hb
      refine step_recompute_steps (.drop path state _ hunks .accepted [.baselineUpdated path] h
        hsub ?_ (Or.inl (Or.inr ⟨fun hp => ?_, fun hm => ?_⟩)) (fun _ => Or.inr haccept) hneutral
        ⟨rfl, rfl, rfl, rfl, rfl⟩) (AList.lookup_insert _) (hfree _ _ _ _ _)
      · rfl
      · cases hc : state.baseline <;> cases hd : state.currentContent <;>
          simp_all [FileHunkState.patchable]
      · cases hc : state.baseline <;> simp_all

/-- The write or deletion that rejecting hunks of a file needs fails. -/
def rejectIoFails (env : Env) (path : Path) (state : FileHunkState) (hunks : List Hunk) : Bool :=
  match rejectAction state hunks with
  | .restoreDeleted _ | .revertChange _ => env.writeFails path
  | .deleteCreated => env.removeFails path
  | .noOp => false

/-- What rejecting hunks of one file may do. -/
structure RejectAllowed (env : Env) (allow : Allow) (path : Path) (state : FileHunkState)
    (hunks : List Hunk) : Prop where
  leaked : rejectIoFails env path state hunks = true ∨ rejectAction state hunks = .noOp →
    allow.leaked hunks
  created : rejectAction state hunks = .deleteCreated → env.removeFails path = false →
    withoutHunks state.hunks hunks = [] ∨ allow.orphan
  recompute : ∀ text, rejectAction state hunks = .revertChange text → env.writeFails path = false →
    allow.recompute env.diffLines path state.baseline (.full text) (withoutHunks state.hunks hunks)

/-- Rejecting to a text leaves a file that can be patched as it was. -/
private theorem rejectAction_patchable {text : Text}
    (h : rejectAction state hunks = .restoreDeleted text ∨
      rejectAction state hunks = .revertChange text) (left : List Hunk) :
    state.patchable = true →
      ({ state with currentContent := .full text, hunks := left } : FileHunkState).patchable =
        true := by
  intro hp
  cases hb : state.baseline <;> cases hc : state.currentContent <;>
    simp_all [FileHunkState.patchable, rejectAction]

theorem rejectHunksBatch_steps
    (h : s.fileStates.lookup path = some state) (hsub : hunks ⊆ state.hunks)
    (hallow : RejectAllowed env allow path state hunks) :
    Steps env allow s
      ((hunks.foldl (fun s h => s.settleHunk .reject h) s).rejectHunksBatch env path hunks).1 := by
  rw [settleHunk_foldl]
  unfold rejectHunksBatch
  split
  · rename_i he
    subst he
    exact .single (SameHunks.step ⟨rfl, rfl, rfl, rfl, rfl⟩)
  · simp only [h]
    have hleak : allow.leaked hunks → Steps env allow s
        { s with
          sessionStats := hunks.foldl
            (fun stats h => stats.count h.lineInfo (HunkAction.reject = .accept)) s.sessionStats
          turnIndex := s.turnIndex.drop hunks } := fun hl =>
      .single (.leak path state hunks h hsub hl ⟨rfl, rfl, by simp, rfl, rfl⟩)
    split
    · rename_i baseline hr
      split
      · rename_i hw
        exact hleak (hallow.leaked (Or.inl (by simp [rejectIoFails, hr, hw])))
      · refine .single (.drop path state _ hunks .rejected [] h hsub rfl ?_ ?_ neutral_nil
          ⟨rfl, rfl, ?_, rfl, rfl⟩)
        · exact Or.inl (Or.inr ⟨rejectAction_patchable (Or.inl hr) _, id⟩)
        · exact fun hacc => Or.inl (by simpa using hacc)
        · simp [sendEvents, setFile, writeDisk]
    · rename_i hr
      split
      · rename_i hw
        exact hleak (hallow.leaked (Or.inl (by simp [rejectIoFails, hr, hw])))
      · rename_i hw
        refine .single (.drop path state _ hunks .rejected [] h hsub rfl
          ((hallow.created hr (by simpa using hw)).imp_left Or.inl) ?_ neutral_nil ⟨rfl, rfl, ?_, rfl, rfl⟩)
        · exact fun hacc => Or.inl (by simpa using hacc)
        · simp [sendEvents, setFile, removeDisk]
    · rename_i patched hr
      split
      · rename_i hw
        exact hleak (hallow.leaked (Or.inl (by simp [rejectIoFails, hr, hw])))
      · rename_i hw
        refine step_recompute_steps (.drop path state _ hunks .rejected [] h hsub ?_ ?_ ?_ neutral_nil
          ⟨rfl, rfl, ?_, rfl, rfl⟩) (AList.lookup_insert _)
            (hallow.recompute patched hr (by simpa using hw))
        · rfl
        · exact Or.inl (Or.inr ⟨rejectAction_patchable (Or.inr hr) _, id⟩)
        · exact fun hacc => Or.inl (by simpa using hacc)
        · simp [sendEvents, setFile, writeDisk]
    · rename_i hr
      exact hleak (hallow.leaked (Or.inr hr))

theorem lookup_recomputeHunks_ne (hq : q ≠ path)
    (newCurrent : Option FileContentState) (source : HunkSource) :
    (s.recomputeHunks env path newCurrent source).fileStates.lookup q =
      s.fileStates.lookup q := by
  cases h : s.fileStates.lookup path with
  | none => rw [recomputeHunks_of_none h]
  | some state =>
    rw [recomputeHunks_of_some h]
    exact AList.lookup_insert_ne hq

theorem lookup_acceptHunksBatch_ne (hq : q ≠ path) (hunks : List Hunk) :
    (s.acceptHunksBatch env path hunks).fileStates.lookup q = s.fileStates.lookup q := by
  unfold acceptHunksBatch
  split
  · rfl
  · split
    · rfl
    · split
      · exact AList.lookup_insert_ne hq
      · rw [lookup_recomputeHunks_ne hq]
        exact AList.lookup_insert_ne hq

theorem lookup_rejectHunksBatch_ne (hq : q ≠ path) (hunks : List Hunk) :
    (s.rejectHunksBatch env path hunks).1.fileStates.lookup q = s.fileStates.lookup q := by
  unfold rejectHunksBatch
  split
  · rfl
  · split
    · rfl
    · simp only
      split
      · split
        · rfl
        · exact AList.lookup_insert_ne hq
      · split
        · rfl
        · exact AList.lookup_insert_ne hq
      · split
        · rfl
        · rw [lookup_recomputeHunks_ne hq]
          exact AList.lookup_insert_ne hq
      · rfl

/-- Hunks of different tracked files. -/
structure Targets (s : HunkTrackerActor) (fs : List (Path × List Hunk)) : Prop where
  nodup : (fs.map Prod.fst).Nodup
  tracked : ∀ f ∈ fs, ∃ state, s.fileStates.lookup f.1 = some state ∧ f.2 ⊆ state.hunks

variable {fs : List (Path × List Hunk)}

theorem Targets.rest {f : Path × List Hunk} (h : s.Targets (f :: fs))
    (hsame : ∀ q, q ≠ f.1 → s'.fileStates.lookup q = s.fileStates.lookup q) :
    s'.Targets fs := by
  obtain ⟨hnot, hnodup⟩ := List.nodup_cons.mp h.nodup
  refine ⟨hnodup, fun g hg => ?_⟩
  obtain ⟨state, hl, hsub⟩ := h.tracked g (by simp [hg])
  refine ⟨state, ?_, hsub⟩
  rw [hsame g.1 fun he => hnot (he ▸ List.mem_map_of_mem hg), hl]

theorem acceptBatch_steps (haccept : allow.accept) (hfree : allow.FreeRecompute)
    (h : s.Targets fs) (affected : List HunkId) :
    Steps env allow s (applyActionBatch env .accept fs affected s).1 := by
  induction fs generalizing s affected with
  | nil => exact .refl
  | cons f fs ih =>
    obtain ⟨path, hunks⟩ := f
    obtain ⟨state, hl, hsub⟩ := h.tracked (path, hunks) (by simp)
    refine (acceptHunksBatch_steps haccept hfree hl hsub).trans (ih (h.rest fun q hq => ?_) _)
    rw [lookup_acceptHunksBatch_ne hq, settleHunk_foldl]

/-- What rejecting hunks of several files may do, up to the first failure. -/
def RejectsAllowed (env : Env) (allow : Allow) (s : HunkTrackerActor) :
    List (Path × List Hunk) → Prop
  | [] => True
  | f :: fs => ∀ state, s.fileStates.lookup f.1 = some state →
      RejectAllowed env allow f.1 state f.2 ∧
        (rejectIoFails env f.1 state f.2 = false → RejectsAllowed env allow s fs)

theorem RejectsAllowed.congr (h : RejectsAllowed env allow s fs)
    (hsame : ∀ f ∈ fs, s'.fileStates.lookup f.1 = s.fileStates.lookup f.1) :
    RejectsAllowed env allow s' fs := by
  induction fs with
  | nil => trivial
  | cons f fs ih =>
    intro state hl
    rw [hsame f (by simp)] at hl
    obtain ⟨hhead, hrest⟩ := h state hl
    exact ⟨hhead, fun hio => ih (hrest hio) fun g hg => hsame g (by simp [hg])⟩

/-- Rejecting hunks of a file succeeds when its write or deletion does. -/
theorem rejectHunksBatch_ok_iff (h : s.fileStates.lookup path = some state) (hne : hunks ≠ []) :
    (s.rejectHunksBatch env path hunks).2 = .ok () ↔
      rejectIoFails env path state hunks = false := by
  unfold rejectHunksBatch rejectIoFails
  simp only [hne, if_false, h]
  cases rejectAction state hunks with
  | restoreDeleted | revertChange => by_cases hw : env.writeFails path <;> simp [hw]
  | deleteCreated => by_cases hw : env.removeFails path <;> simp [hw]
  | noOp => simp

theorem rejectBatch_steps (h : s.Targets fs)
    (hne : ∀ f ∈ fs, f.2 ≠ []) (hallow : RejectsAllowed env allow s fs)
    (affected : List HunkId) :
    Steps env allow s (applyActionBatch env .reject fs affected s).1 := by
  induction fs generalizing s affected with
  | nil => exact .refl
  | cons f fs ih =>
    obtain ⟨path, hunks⟩ := f
    obtain ⟨state, hl, hsub⟩ := h.tracked (path, hunks) (by simp)
    obtain ⟨hone, hrest⟩ := hallow state hl
    have hhead := rejectHunksBatch_steps hl hsub hone
    have hlookup : ∀ q, q ≠ path → ((hunks.foldl (fun s h => s.settleHunk .reject h)
        s).rejectHunksBatch env path hunks).1.fileStates.lookup q = s.fileStates.lookup q := by
      intro q hq
      rw [lookup_rejectHunksBatch_ne hq, settleHunk_foldl]
    have hok : ((hunks.foldl (fun s h => s.settleHunk .reject h) s).rejectHunksBatch env path
        hunks).2 = .ok () ↔ rejectIoFails env path state hunks = false :=
      rejectHunksBatch_ok_iff (by rw [settleHunk_foldl]; exact hl) (hne (path, hunks) (by simp))
    simp only [applyActionBatch]
    generalize hres : (hunks.foldl (fun s h => s.settleHunk .reject h) s).rejectHunksBatch env path
      hunks = res at hhead hlookup hok
    obtain ⟨t, r⟩ := res
    cases r with
    | error e => exact hhead
    | ok u =>
      refine hhead.trans (ih (h.rest hlookup) (fun g hg => hne g (by simp [hg])) ?_ _)
      refine (hrest (hok.mp rfl)).congr fun g hg => hlookup g.1 ?_
      have hnot := (List.nodup_cons.mp h.nodup).1
      exact fun he => hnot (List.mem_map.mpr ⟨g, hg, he⟩)

theorem lookup_of_mem_files {f : Path × FileHunkState} (h : f ∈ s.files env) :
    s.fileStates.lookup f.1 = some f.2 := by
  obtain ⟨p, -, hp⟩ := List.mem_filterMap.mp h
  obtain ⟨state, hl, rfl⟩ := Option.map_eq_some_iff.mp hp
  exact hl

theorem nodup_files (s : HunkTrackerActor) (env : Env) : ((s.files env).map Prod.fst).Nodup := by
  have hkeys : (s.paths env).Nodup := (env.order_perm _).nodup_iff.mpr s.fileStates.keys_nodup
  rw [List.Nodup, List.pairwise_map, files, List.pairwise_filterMap]
  refine hkeys.imp fun {a b} hab x hx y hy => ?_
  obtain ⟨_, -, rfl⟩ := Option.map_eq_some_iff.mp hx
  obtain ⟨_, -, rfl⟩ := Option.map_eq_some_iff.mp hy
  exact hab

/-- The hunks an action on several files is applied to. -/
def selectedTargets (s : HunkTrackerActor) (env : Env) (selected : Hunk → Bool) :
    List (Path × List Hunk) :=
  ((s.files env).map fun f => (f.1, f.2.hunks.filter selected)).filter fun f => f.2 ≠ []

theorem selectedTargets_ne_nil {selected : Hunk → Bool} :
    ∀ f ∈ s.selectedTargets env selected, f.2 ≠ [] := by
  intro f hf
  simpa using (List.mem_filter.mp hf).2

theorem targets_selected (s : HunkTrackerActor) (env : Env) (selected : Hunk → Bool) :
    s.Targets (s.selectedTargets env selected) := by
  constructor
  · have hsub : ((s.selectedTargets env selected).map Prod.fst).Sublist
        ((s.files env).map Prod.fst) := by
      have h := (List.filter_sublist (p := fun f : Path × List Hunk => decide (f.2 ≠ []))
        (l := (s.files env).map fun f => (f.1, f.2.hunks.filter selected))).map Prod.fst
      simpa [selectedTargets, Function.comp_def] using h
    exact hsub.nodup (nodup_files s env)
  · intro f hf
    obtain ⟨g, hg, rfl⟩ := List.mem_map.mp (List.mem_filter.mp hf).1
    exact ⟨g.2, lookup_of_mem_files hg, List.filter_subset_self _⟩

theorem targets_findHunk {id : HunkId} {hunk : Hunk}
    (h : s.findHunk env id = some (path, hunk)) : s.Targets [(path, [hunk])] := by
  obtain ⟨f, hf, hfind⟩ := List.exists_of_findSome?_eq_some h
  obtain ⟨k, hk, heq⟩ := Option.map_eq_some_iff.mp hfind
  obtain ⟨rfl, rfl⟩ := Prod.mk.inj heq
  refine ⟨by simp, fun g hg => ?_⟩
  obtain rfl := List.mem_singleton.mp hg
  exact ⟨f.2, lookup_of_mem_files hf, by simpa using List.mem_of_find?_eq_some hk⟩

theorem targets_file
    (h : s.fileStates.lookup path = some state) : s.Targets [(path, state.hunks)] := by
  refine ⟨by simp, fun g hg => ?_⟩
  obtain rfl := List.mem_singleton.mp hg
  exact ⟨state, h, List.Subset.refl _⟩

/-- An action on one hunk is the batch of that hunk. -/
theorem applyHunkAction_eq (id : HunkId) (action : HunkAction) :
    (s.applyHunkAction env id action).1 =
      match s.findHunk env id with
      | none => s
      | some (path, hunk) => (applyActionBatch env action [(path, [hunk])] [] s).1 := by
  unfold applyHunkAction
  cases s.findHunk env id with
  | none => rfl
  | some f =>
    obtain ⟨path, hunk⟩ := f
    cases action with
    | accept => rfl
    | reject =>
      simp only [applyActionBatch, List.foldl_cons, List.foldl_nil, rejectHunk]
      generalize (s.settleHunk .reject hunk).rejectHunksBatch env path [hunk] = res
      obtain ⟨t, r⟩ := res
      cases r <;> rfl

end HunkTrackerActor

end Decompose

end Ezer.HunkTracker
