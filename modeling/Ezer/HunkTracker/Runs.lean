import Ezer.HunkTracker.Steps

/-!
# Runs of the actor

A run starts from an empty actor and handles one operation after the other:
commands, and the pieces into which a coalesced batch cuts them. Files on disk
change between the operations as they like. Each operation decomposes into
elementary steps when the run permits the lossy ones it would take.
-/

namespace Ezer.HunkTracker

open Ezer.Lib

/-- One call into the actor: a command, or a piece of a coalesced batch. -/
inductive Op where
  | command (cmd : HunkTrackerCommand)
  | fileChange (path : Path) (preloaded : Option FileContentState)
  | preload (paths : List Path)
  | refreshExcept (skip : List Path)

/-- Handle one operation. -/
def Op.run (env : Env) (s : HunkTrackerActor) : Op → HunkTrackerActor
  | command cmd => s.handleCommand env cmd
  | fileChange path preloaded => s.processFileChange env path preloaded
  | preload paths => (s.readBaselinesBatch env paths).2
  | refreshExcept skip => s.refreshAllBaselinesExcept env skip

/-- The states a run can reach from an empty actor when every operation meets a
condition on the state before it. A snapshot of such a state may be restored
where runs restore; its ids were drawn before. -/
inductive Reachable (ok : Env → HunkTrackerActor → Op → Prop) (restores : Bool) :
    HunkTrackerActor → Prop
  | new (workingDir : Path) (mode : TrackingMode) (disk : Path → DiskEntry) (uuid : ℕ) :
      Reachable ok restores (.new workingDir mode disk uuid)
  | op {s : HunkTrackerActor} (env : Env) (op : Op) (reached : Reachable ok restores s)
      (hok : ok env s op) : Reachable ok restores (op.run env s)
  | disk {s : HunkTrackerActor} (d : Path → DiskEntry) (reached : Reachable ok restores s) :
      Reachable ok restores { s with disk := d }
  | restore {s t : HunkTrackerActor} (hrestores : restores = true)
      (reached : Reachable ok restores s) (snapshot : Reachable ok restores t)
      (drawn : t.uuid ≤ s.uuid) : Reachable ok restores (s.restoreSnapshot t.takeSnapshot)

/-- Handling a command is an operation of a run. -/
theorem Reachable.command {ok : Env → HunkTrackerActor → Op → Prop} {restores : Bool}
    {s : HunkTrackerActor} (h : Reachable ok restores s) (env : Env) (cmd : HunkTrackerCommand)
    (hok : ok env s (.command cmd)) : Reachable ok restores (s.handleCommand env cmd) :=
  .op env (.command cmd) h hok

/-- The action of an action command. -/
def HunkTrackerCommand.action? : HunkTrackerCommand → Option HunkAction
  | .hunkAction _ action | .fileAction _ action | .allAction action | .turnAction _ action =>
    some action
  | _ => none

/-- One state leads to another by operations. -/
def LeadsTo (env : Env) (s s' : HunkTrackerActor) : Prop :=
  ∃ ops : List Op, s' = ops.foldl (Op.run env) s

section LeadsTo

variable {env : Env} {s t u : HunkTrackerActor}

theorem LeadsTo.refl (s : HunkTrackerActor) : LeadsTo env s s := ⟨[], rfl⟩

theorem LeadsTo.single (op : Op) : LeadsTo env s (op.run env s) := ⟨[op], rfl⟩

theorem LeadsTo.trans (h : LeadsTo env s t) (h' : LeadsTo env t u) : LeadsTo env s u := by
  obtain ⟨ops, rfl⟩ := h
  obtain ⟨ops', rfl⟩ := h'
  exact ⟨ops ++ ops', by rw [List.foldl_append]⟩

theorem LeadsTo.foldl {α : Type*} {f : HunkTrackerActor → α → HunkTrackerActor}
    (hf : ∀ s a, LeadsTo env s (f s a)) (l : List α) : LeadsTo env s (l.foldl f s) := by
  induction l generalizing s with
  | nil => exact .refl s
  | cons a l ih => exact (hf s a).trans ih

end LeadsTo

section Coalescing

/-- Whether a command says of a file that it was deleted, if it says that or that it changed. -/
def HunkTrackerCommand.deletes? (path : Path) : HunkTrackerCommand → Option Bool
  | .handleFileChange p => if p = path then some false else none
  | .handleFileDeleted p => if p = path then some true else none
  | _ => none

/-- What a file of which that was said is coalesced to. -/
def coalescedAction (said : List Bool) : Option CoalescedPathAction :=
  said.getLast?.map fun
    | true => .deleted
    | false => if true ∈ said then .deletedThenChanged else .changed

theorem lookup_add (batch : CoalescedBatch) (cmd : HunkTrackerCommand) {path : Path}
    {said : List Bool} (h : batch.fileActions.lookup path = coalescedAction said) :
    (batch.add cmd).fileActions.lookup path =
      coalescedAction (said ++ (cmd.deletes? path).toList) := by
  cases cmd
  case handleFileChange p =>
    by_cases hp : p = path
    · subst hp
      rw [CoalescedBatch.add, h]
      rcases hlast : said.getLast? with _ | ⟨_ | _⟩
      · simp_all [coalescedAction, HunkTrackerCommand.deletes?]
      · by_cases hd : true ∈ said <;> simp_all [coalescedAction, HunkTrackerCommand.deletes?]
      · have hd := List.mem_of_getLast? hlast
        simp_all [coalescedAction, HunkTrackerCommand.deletes?]
    · simp [CoalescedBatch.add, HunkTrackerCommand.deletes?, hp,
        AList.lookup_insert_ne (Ne.symm hp), h]
  case handleFileDeleted p =>
    by_cases hp : p = path
    · subst hp
      simp [CoalescedBatch.add, coalescedAction, HunkTrackerCommand.deletes?]
    · simp [CoalescedBatch.add, HunkTrackerCommand.deletes?, hp,
        AList.lookup_insert_ne (Ne.symm hp), h]
  all_goals simpa [CoalescedBatch.add, HunkTrackerCommand.deletes?] using h

/-- A drained queue keeps how each file was left, whether there were refreshes, and all other
commands in their order. -/
theorem drainAndCoalesce_merges (first : HunkTrackerCommand) (queue : List HunkTrackerCommand) :
    let batch := drainAndCoalesce first queue
    let cmds := first :: queue
    (∀ path, batch.fileActions.lookup path = coalescedAction (cmds.filterMap (·.deletes? path))) ∧
      (batch.refreshAll ↔ .refreshAllBaselines ∈ cmds) ∧
      (batch.refreshDirty ↔ .refreshGitDirtyCache ∈ cmds) ∧
      batch.otherCommands = cmds.filter (!isCoalescable ·) := by
  dsimp only
  rw [show drainAndCoalesce first queue = (first :: queue).foldl CoalescedBatch.add {} from rfl]
  induction first :: queue using List.reverseRecOn with
  | nil => simp [coalescedAction]
  | append_singleton cmds cmd ih =>
    obtain ⟨hfiles, hall, hdirty, hother⟩ := ih
    rw [List.foldl_concat]
    refine ⟨fun path => ?_, ?_, ?_, ?_⟩
    · rw [lookup_add _ cmd (hfiles path), List.filterMap_append]
      cases h : cmd.deletes? path <;> simp [h]
    · cases cmd <;> simp [CoalescedBatch.add, hall]
    · cases cmd <;> simp [CoalescedBatch.add, hdirty]
    · rw [List.filter_append, ← hother]
      cases cmd <;> simp [CoalescedBatch.add, isCoalescable]

end Coalescing

namespace HunkTrackerActor

/-- The files and hunks an action command is applied to, file by file. -/
def actionTargets (s : HunkTrackerActor) (env : Env) :
    HunkTrackerCommand → List (Path × List Hunk)
  | .hunkAction id _ => ((s.findHunk env id).map fun f => (f.1, [f.2])).toList
  | .fileAction path _ =>
    match s.fileStates.lookup path with
    | none => []
    | some state => if state.hunks = [] then [] else [(path, state.hunks)]
  | .allAction _ => s.selectedTargets env fun _ => true
  | .turnAction promptIndex _ =>
    s.selectedTargets env fun h => h.source.promptIndex = some promptIndex
  | _ => []

theorem targets_actionTargets (s : HunkTrackerActor) (env : Env) (cmd : HunkTrackerCommand) :
    s.Targets (s.actionTargets env cmd) := by
  have hnil : s.Targets [] := ⟨by simp, by simp⟩
  cases cmd with
  | hunkAction id action =>
    simp only [actionTargets]
    cases h : s.findHunk env id with
    | none => exact hnil
    | some f => exact targets_findHunk h
  | fileAction path action =>
    simp only [actionTargets]
    cases h : s.fileStates.lookup path with
    | none => exact hnil
    | some state =>
      simp only
      split
      · exact hnil
      · exact targets_file h
  | allAction | turnAction => exact targets_selected s env _
  | _ => exact hnil

theorem actionTargets_ne_nil {s : HunkTrackerActor} {env : Env} {cmd : HunkTrackerCommand} :
    ∀ f ∈ s.actionTargets env cmd, f.2 ≠ [] := by
  intro f hf
  cases cmd with
  | hunkAction id action =>
    simp only [actionTargets, Option.mem_toList, Option.map_eq_some_iff] at hf
    obtain ⟨g, -, rfl⟩ := hf
    simp
  | fileAction path action =>
    simp only [actionTargets] at hf
    split at hf
    · simp at hf
    · split at hf
      · simp at hf
      · rename_i hne
        obtain rfl := List.mem_singleton.mp hf
        exact hne
  | allAction | turnAction => exact selectedTargets_ne_nil f hf
  | _ => simp [actionTargets] at hf

/-- An action command is the batch of its targets. -/
theorem handleCommand_action {s : HunkTrackerActor} {env : Env} {cmd : HunkTrackerCommand}
    {action : HunkAction} (h : cmd.action? = some action) :
    s.handleCommand env cmd = (applyActionBatch env action (s.actionTargets env cmd) [] s).1 := by
  cases cmd with
  | hunkAction id a =>
    obtain rfl : a = action := by simpa [HunkTrackerCommand.action?] using h
    simp only [handleCommand, actionTargets]
    rw [applyHunkAction_eq]
    cases s.findHunk env id with
    | none => rfl
    | some f => rfl
  | fileAction path a =>
    obtain rfl : a = action := by simpa [HunkTrackerCommand.action?] using h
    simp only [handleCommand, actionTargets, applyFileAction]
    cases s.fileStates.lookup path with
    | none => rfl
    | some state =>
      simp only
      split <;> rfl
  | allAction a =>
    obtain rfl : a = action := by simpa [HunkTrackerCommand.action?] using h
    rfl
  | turnAction p a =>
    obtain rfl : a = action := by simpa [HunkTrackerCommand.action?] using h
    rfl
  | _ => simp [HunkTrackerCommand.action?] at h

/-- What a change notification for one file may do. -/
structure ChangeAllowed (env : Env) (allow : Allow) (s : HunkTrackerActor) (path : Path)
    (preloaded : Option FileContentState) : Prop where
  lost : ∀ state, s.fileStates.lookup path = some state →
    s.restoredToHead env path preloaded = true → allow.lost state.hunks
  recompute : ∀ state, s.fileStates.lookup path = some state →
    s.restoredToHead env path preloaded = false →
    allow.recompute env.diffLines path state.baseline (s.disk path).readFileBounded state.hunks

/-- What a deletion notification for one file may do. -/
structure DeleteAllowed (env : Env) (allow : Allow) (s : HunkTrackerActor) (path : Path) :
    Prop where
  present : (s.disk path).pathExists = true → ChangeAllowed env allow s path none
  absent : (s.disk path).pathExists = false → ∀ state, s.fileStates.lookup path = some state →
    allow.recompute env.diffLines path state.baseline .missing state.hunks

/-- What an agent write may do. -/
structure WriteAllowed (env : Env) (allow : Allow) (s : HunkTrackerActor) (path : Path)
    (content : Text) : Prop where
  lost : ∀ state, s.fileStates.lookup path = some state →
    (classifyString content).isDiffable = false → allow.lost state.hunks
  recompute : ∀ state, s.fileStates.lookup path = some state →
    (classifyString content).isDiffable = true →
    allow.recompute env.diffLines path state.baseline (classifyString content) state.hunks

/-- Rejecting the hunks of a file fails on its write or deletion. -/
def rejectFails (s : HunkTrackerActor) (env : Env) (f : Path × List Hunk) : Bool :=
  match s.fileStates.lookup f.1 with
  | none => false
  | some state => rejectIoFails env f.1 state f.2

/-- The files a reject command gets through before the first failure. -/
def rejectedFiles (s : HunkTrackerActor) (env : Env) (cmd : HunkTrackerCommand) :
    List (Path × List Hunk) :=
  (s.actionTargets env cmd).takeWhile fun f => !s.rejectFails env f

/-- The file at which a reject command fails. -/
def failedFile (s : HunkTrackerActor) (env : Env) (cmd : HunkTrackerCommand) :
    Option (Path × List Hunk) :=
  (s.actionTargets env cmd).find? (s.rejectFails env)

/-- The permission to reject, from what the rejected files and the failing one
need. -/
theorem rejectsAllowed_of {env : Env} {allow : Allow} {s : HunkTrackerActor}
    {fs : List (Path × List Hunk)}
    (hnoOp : ∀ f ∈ fs.takeWhile (fun f => !s.rejectFails env f), ∀ state,
      s.fileStates.lookup f.1 = some state → rejectAction state f.2 = .noOp → allow.leaked f.2)
    (hcreated : ∀ f ∈ fs.takeWhile (fun f => !s.rejectFails env f), ∀ state,
      s.fileStates.lookup f.1 = some state → rejectAction state f.2 = .deleteCreated →
      withoutHunks state.hunks f.2 = [] ∨ allow.orphan)
    (hrecompute : ∀ f ∈ fs.takeWhile (fun f => !s.rejectFails env f), ∀ state,
      s.fileStates.lookup f.1 = some state → ∀ text,
      rejectAction state f.2 = .revertChange text →
      allow.recompute env.diffLines f.1 state.baseline (.full text)
        (withoutHunks state.hunks f.2))
    (hfailed : ∀ f ∈ fs.find? (s.rejectFails env), allow.leaked f.2) :
    RejectsAllowed env allow s fs := by
  induction fs with
  | nil => trivial
  | cons f fs ih =>
    intro state hl
    have hio : s.rejectFails env f = rejectIoFails env f.1 state f.2 := by
      simp [rejectFails, hl]
    cases hfails : rejectIoFails env f.1 state f.2 with
    | true =>
      rw [hfails] at hio
      refine ⟨⟨fun _ => hfailed f (by simp [hio]), fun hr hrem => ?_, fun text hr hw => ?_⟩, by simp⟩
      · simp [rejectIoFails, hr, hrem] at hfails
      · simp [rejectIoFails, hr, hw] at hfails
    | false =>
      rw [hfails] at hio
      have hmem : f ∈ (f :: fs).takeWhile fun f => !s.rejectFails env f := by simp [hio]
      have hrest : ∀ g ∈ fs.takeWhile (fun f => !s.rejectFails env f),
          g ∈ (f :: fs).takeWhile fun f => !s.rejectFails env f := by
        intro g hg
        simp [hio, hg]
      refine ⟨⟨?_, ?_, ?_⟩, fun _ => ih ?_ ?_ ?_ ?_⟩
      · rintro (h | h)
        · simp [hfails] at h
        · exact hnoOp f hmem state hl h
      · exact fun hr _ => hcreated f hmem state hl hr
      · exact fun text hr _ => hrecompute f hmem state hl text hr
      · exact fun g hg => hnoOp g (hrest g hg)
      · exact fun g hg => hcreated g (hrest g hg)
      · exact fun g hg => hrecompute g (hrest g hg)
      · simpa [hio] using hfailed

/-- What an action command may do. -/
def ActionAllowed (env : Env) (allow : Allow) (s : HunkTrackerActor) (cmd : HunkTrackerCommand) :
    HunkAction → Prop
  | .accept => allow.accept ∧ allow.FreeRecompute
  | .reject => RejectsAllowed env allow s (s.actionTargets env cmd)

theorem action_steps {env : Env} {allow : Allow} {s : HunkTrackerActor} {action : HunkAction}
    (cmd : HunkTrackerCommand) (hcmd : cmd.action? = some action)
    (h : ActionAllowed env allow s cmd action) : Steps env allow s (s.handleCommand env cmd) := by
  rw [handleCommand_action hcmd]
  cases action with
  | accept => exact acceptBatch_steps h.1 h.2 (targets_actionTargets s env cmd) []
  | reject => exact rejectBatch_steps (targets_actionTargets s env cmd) actionTargets_ne_nil h []

end HunkTrackerActor

open HunkTrackerActor

/-- The permission an operation needs from its run to be a sequence of
elementary steps. -/
def Op.Allowed (env : Env) (allow : Allow) (s : HunkTrackerActor) : Op → Prop
  | command (.recordAgentWrite path content _ _) => WriteAllowed env allow s path content
  | command (.handleFileChange path) => ChangeAllowed env allow s path none
  | command (.handleFileDeleted path) => DeleteAllowed env allow s path
  | command .refreshGitDirtyCache => allow.FreeRecompute
  | command (.resetBaseline _) => True
  | command (.setMode _) => allow.FreeRecompute
  | command (.setWorkingDir _) => False
  | command cmd@(.hunkAction _ action) => ActionAllowed env allow s cmd action
  | command cmd@(.fileAction _ action) => ActionAllowed env allow s cmd action
  | command cmd@(.allAction action) => ActionAllowed env allow s cmd action
  | command cmd@(.turnAction _ action) => ActionAllowed env allow s cmd action
  | command .resetStats => True
  | command .refreshAllBaselines => allow.FreeRecompute
  | command (.restoreState _) => False
  | command (.query _) => True
  | fileChange path preloaded => ChangeAllowed env allow s path preloaded
  | preload _ => True
  | refreshExcept _ => allow.FreeRecompute

/-- A permitted operation is a sequence of elementary steps. -/
theorem Op.run_steps {env : Env} {allow : Allow} {s : HunkTrackerActor} {op : Op}
    (h : op.Allowed env allow s) : Steps env allow s (op.run env s) := by
  cases op with
  | fileChange path preloaded => exact processFileChange_steps path preloaded h.lost h.recompute
  | preload paths => exact .single (sameHunks_readBaselinesBatch s env paths).step
  | refreshExcept skip => exact refreshAllBaselinesExcept_steps h skip
  | command cmd =>
    cases cmd with
    | recordAgentWrite path content promptIndex previousContent =>
      exact recordAgentWrite_steps path content promptIndex previousContent h.lost h.recompute
    | handleFileChange path => exact processFileChange_steps path none h.lost h.recompute
    | handleFileDeleted path =>
      exact handleFileDeleted_steps path (fun st hl he => (h.present he).lost st hl)
        (fun st hl he => (h.present he).recompute st hl) fun st hl he => h.absent he st hl
    | refreshGitDirtyCache => exact refreshGitDirtyCache_steps h none
    | resetBaseline path => exact resetBaseline_steps path
    | setMode mode => exact setMode_steps h mode
    | setWorkingDir workingDir => exact h.elim
    | hunkAction id action => exact action_steps (.hunkAction id action) rfl h
    | fileAction path action => exact action_steps (.fileAction path action) rfl h
    | allAction action => exact action_steps (.allAction action) rfl h
    | turnAction promptIndex action => exact action_steps (.turnAction promptIndex action) rfl h
    | resetStats => exact .single (SameHunks.step ⟨rfl, rfl, rfl, rfl, rfl⟩)
    | refreshAllBaselines => exact refreshAllBaselinesExcept_steps h []
    | restoreState snapshot => exact h.elim
    | query q => exact .refl

end Ezer.HunkTracker
