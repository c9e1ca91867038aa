import Ezer.Lib.Results
import Ezer.Scheduler.Versions
import Mathlib.Data.List.InsertIdx

/-!
# The chain of a loop

The iterations of a loop go on from one another. What a task records of its
chain survives a fire that is given up, and a new prompt cuts the chain: no
iteration that is spawned for it goes on from one of the old prompt.
-/

namespace Ezer.Scheduler

open Lib

variable {υ : Type}

/-- What a task records of its chain. -/
structure ChainRecord where
  lastSubagentId : Option String
  iterationsSinceFresh : UInt32
  chainResetPending : Bool
  deriving DecidableEq

/-- The record of a task. -/
def ScheduledTask.chainRecord {τ : Type} (task : ScheduledTask τ) : ChainRecord :=
  ⟨task.lastSubagentId, task.iterationsSinceFresh, task.chainResetPending⟩

/-- The record of a task when its fire started. -/
def Firing.chainRecord (firing : Firing υ) : ChainRecord :=
  ⟨firing.lastSubagentId, firing.iterationsSinceFresh, firing.chainResetPending⟩

namespace SchedulerActor

/-- The tasks with their records. -/
def chains (s : SchedulerActor υ) : List (String × ChainRecord) :=
  s.tasks.map fun task => (task.id, task.chainRecord)

/-- The record of the task with an id. -/
def chainOf (s : SchedulerActor υ) (taskId : String) : Option ChainRecord :=
  (s.tasks.find? fun task => task.id == taskId).map ScheduledTask.chainRecord

/-! ### What the steps without a fire do to the tasks -/

section Tasks

variable {ids : GenerationSource υ} {s s' : SchedulerActor υ}

theorem prepareTransition_tasks {count : ℕ} {r : SchedulerReservation υ}
    (h : s.prepareTransition ids count = .ok (r, s')) : s'.tasks = s.tasks ∧ s'.firing = s.firing := by
  obtain ⟨_, -, heq⟩ := ok_of_map h
  cases heq
  exact ⟨rfl, rfl⟩

theorem publishDurableRemoval_tasks {r : SchedulerReservation υ} {taskId : String}
    {reason : ScheduledTaskRemovedReason} {acknowledged : Except SchedulerError Unit}
    (h : s.publishDurableRemoval r taskId reason acknowledged = .ok s') :
    s'.tasks = s.tasks ∧ s'.firing = s.firing := by
  obtain ⟨_, -, heq⟩ := ok_of_map h
  cases heq
  exact ⟨rfl, rfl⟩

theorem skipFire_tasks (s : SchedulerActor υ) (firing : Firing υ) :
    (s.skipFire firing).tasks = s.tasks ∧ (s.skipFire firing).firing = none := by
  unfold skipFire
  dsimp only
  split
  · exact ⟨rfl, rfl⟩
  · exact ⟨rfl, rfl⟩

theorem announceExistingTasks_tasks (s : SchedulerActor υ) (now : ℤ) :
    (s.announceExistingTasks now).tasks = s.tasks ∧
      (s.announceExistingTasks now).firing = s.firing := by
  have hfold : ∀ (tasks : List (ScheduledTask ℤ)) (s : SchedulerActor υ),
      (tasks.foldl (fun s task => s.announce (taskCreatedPayload task)) s).tasks = s.tasks ∧
        (tasks.foldl (fun s task => s.announce (taskCreatedPayload task)) s).firing = s.firing := by
    intro tasks
    induction tasks with
    | nil => exact fun _ => ⟨rfl, rfl⟩
    | cons task tasks ih => exact fun s => ih _
  exact hfold _ s

variable [DecidableEq υ]

theorem commitNext_tasks {r r' : SchedulerReservation υ} {version : SchedulerVersion υ}
    (h : s.commitNext r = .ok (version, r', s')) : s'.tasks = s.tasks ∧ s'.firing = s.firing := by
  obtain ⟨_, -, heq⟩ := ok_of_map h
  cases heq
  exact ⟨rfl, rfl⟩

theorem commitAndSend_tasks {r r' : SchedulerReservation υ} {notice : SchedulerNotice}
    (h : s.commitAndSend r notice = .ok (r', s')) : s'.tasks = s.tasks ∧ s'.firing = s.firing := by
  obtain ⟨⟨version, r, next⟩, hcommit, heq⟩ := ok_of_map h
  obtain ⟨htasks, hfiring⟩ := commitNext_tasks hcommit
  cases heq
  exact ⟨htasks, hfiring⟩

theorem removeAll_tasks {r : SchedulerReservation υ} {taskIds : List String}
    (h : s.removeAll r taskIds = .ok s') : s'.tasks = s.tasks ∧ s'.firing = s.firing := by
  induction taskIds generalizing s r with
  | nil =>
    cases h
    exact ⟨rfl, rfl⟩
  | cons taskId taskIds ih =>
    obtain ⟨⟨r', next⟩, hsend, hrest⟩ := ok_of_bind h
    obtain ⟨htasks, hfiring⟩ := commitAndSend_tasks hsend
    obtain ⟨htasks', hfiring'⟩ := ih hrest
    exact ⟨htasks'.trans htasks, hfiring'.trans hfiring⟩

theorem shutdown_tasks (h : s.shutdown ids = .ok s') : s'.tasks = s.tasks ∧ s'.firing = s.firing := by
  unfold shutdown at h
  dsimp only at h
  split at h
  · cases h
    exact ⟨rfl, rfl⟩
  · obtain ⟨⟨r, next⟩, hprepare, hremove⟩ := ok_of_bind h
    obtain ⟨htasks, hfiring⟩ := prepareTransition_tasks hprepare
    obtain ⟨htasks', hfiring'⟩ := removeAll_tasks hremove
    exact ⟨htasks'.trans htasks, hfiring'.trans hfiring⟩

theorem completePendingRemoval_tasks {pending : PendingDurableRemoval υ} {durableTargets : Bool}
    {answers : DeleteAnswers} {reply : SchedulerReply υ}
    (h : s.completePendingRemoval pending durableTargets answers = .ok (reply, s')) :
    s'.tasks = s.tasks ∧ s'.firing = s.firing := by
  unfold completePendingRemoval at h
  split at h
  · cases h
    exact ⟨rfl, rfl⟩
  · split at h
    · cases h
      exact ⟨rfl, rfl⟩
    · obtain ⟨next, hpublish, hrest⟩ := ok_of_bind h
      obtain ⟨htasks, hfiring⟩ := publishDurableRemoval_tasks hpublish
      split at hrest
      · cases hrest
        exact ⟨htasks, hfiring⟩
      · obtain ⟨⟨version, r, last⟩, hcommit, heq⟩ := ok_of_bind hrest
        cases heq
        obtain ⟨htasks', hfiring'⟩ := commitNext_tasks hcommit
        exact ⟨htasks'.trans htasks, hfiring'.trans hfiring⟩

/-- The tasks that are left are tasks that were there, with their records. -/
def Keeps (s s' : SchedulerActor υ) : Prop := s'.chains.Sublist s.chains

omit [DecidableEq υ] in
theorem keeps_of_eq (h : s'.tasks = s.tasks) : s.Keeps s' := by
  unfold Keeps chains
  rw [h]

omit [DecidableEq υ] in
theorem keeps_eraseIdx {index : ℕ} (h : s'.tasks = s.tasks.eraseIdx index) : s.Keeps s' := by
  unfold Keeps chains
  rw [h]
  exact (List.eraseIdx_sublist _ index).map _

theorem delete_keeps {id : String} {answers : DeleteAnswers} {reply : SchedulerReply υ}
    (h : s.delete ids id answers = .ok (reply, s')) : s.Keeps s' ∧ s'.firing = s.firing := by
  unfold delete at h
  split at h
  · split at h
    · obtain ⟨htasks, hfiring⟩ := completePendingRemoval_tasks h
      exact ⟨keeps_of_eq htasks, hfiring⟩
    · cases h
      exact ⟨keeps_of_eq rfl, rfl⟩
  · split at h
    · cases h
      exact ⟨keeps_of_eq rfl, rfl⟩
    · split at h
      · cases h
        exact ⟨keeps_of_eq rfl, rfl⟩
      · obtain ⟨⟨r, next⟩, hprepare, hcomplete⟩ := ok_of_bind h
        obtain ⟨htasks, hfiring⟩ := prepareTransition_tasks hprepare
        obtain ⟨htasks', hfiring'⟩ := completePendingRemoval_tasks hcomplete
        exact ⟨keeps_eraseIdx (htasks'.trans htasks), hfiring'.trans hfiring⟩

theorem expire_keeps {index : ℕ} {task : ScheduledTask ℤ}
    (h : s.expire ids index task = .ok s') : s.Keeps s' ∧ s'.firing = s.firing := by
  obtain ⟨⟨r, next⟩, hprepare, hrest⟩ := ok_of_bind h
  obtain ⟨⟨r', last⟩, hsend, heq⟩ := ok_of_bind hrest
  cases heq
  obtain ⟨htasks, hfiring⟩ := prepareTransition_tasks hprepare
  obtain ⟨htasks', hfiring'⟩ := commitAndSend_tasks hsend
  dsimp only at htasks' hfiring'
  rw [htasks] at htasks'
  exact ⟨keeps_eraseIdx htasks', hfiring'.trans hfiring⟩

theorem expireDurably_keeps {index : ℕ} {task : ScheduledTask ℤ} {answers : WakeAnswers}
    (hindex : s.tasks[index]? = some task) (h : s.expireDurably ids index task answers = .ok s') :
    s.Keeps s' ∧ s'.firing = s.firing := by
  unfold expireDurably at h
  split at h
  · cases h
    exact ⟨keeps_of_eq rfl, rfl⟩
  · obtain ⟨⟨r, next⟩, hprepare, hrest⟩ := ok_of_bind h
    obtain ⟨htasks, hfiring⟩ := prepareTransition_tasks hprepare
    dsimp only at htasks hfiring hrest
    split at hrest
    · cases hrest
      refine ⟨keeps_of_eq ?_, hfiring⟩
      -- the task is put back where it was
      obtain ⟨hlt, rfl⟩ := List.getElem?_eq_some_iff.mp hindex
      dsimp only
      rw [htasks]
      exact List.insertIdx_eraseIdx_getElem hlt
    · cases hrest
      exact ⟨keeps_eraseIdx htasks, hfiring⟩
    · obtain ⟨published, hpublish, hlast⟩ := ok_of_bind hrest
      obtain ⟨htasks', hfiring'⟩ := publishDurableRemoval_tasks hpublish
      split at hlast
      · cases hlast
        exact ⟨keeps_eraseIdx (htasks'.trans htasks), hfiring'.trans hfiring⟩
      · obtain ⟨⟨version, r', last⟩, hcommit, heq⟩ := ok_of_bind hlast
        cases heq
        obtain ⟨htasks'', hfiring''⟩ := commitNext_tasks hcommit
        exact ⟨keeps_eraseIdx (htasks''.trans (htasks'.trans htasks)),
          hfiring''.trans (hfiring'.trans hfiring)⟩

end Tasks

/-! ### One task changes -/

section UpdateTask

variable {tasks : List (ScheduledTask ℤ)} {p q : ScheduledTask ℤ → Bool}
  {f g : ScheduledTask ℤ → ScheduledTask ℤ}

theorem mem_updateTask {task : ScheduledTask ℤ} (h : task ∈ updateTask tasks p f) :
    task ∈ tasks ∨ ∃ old ∈ tasks, p old = true ∧ task = f old := by
  induction tasks with
  | nil => cases h
  | cons old tasks ih =>
    rw [updateTask] at h
    split at h
    · rename_i hp
      rcases List.mem_cons.mp h with rfl | h
      · exact Or.inr ⟨old, List.mem_cons_self, hp, rfl⟩
      · exact Or.inl (List.mem_cons_of_mem _ h)
    · rcases List.mem_cons.mp h with rfl | h
      · exact Or.inl List.mem_cons_self
      · rcases ih h with h | ⟨old', hold, hp, rfl⟩
        · exact Or.inl (List.mem_cons_of_mem _ h)
        · exact Or.inr ⟨old', List.mem_cons_of_mem _ hold, hp, rfl⟩

theorem map_id_updateTask (hf : ∀ task, (f task).id = task.id) :
    (updateTask tasks p f).map ScheduledTask.id = tasks.map ScheduledTask.id := by
  induction tasks with
  | nil => rfl
  | cons task tasks ih =>
    rw [updateTask]
    split
    · rw [List.map_cons, List.map_cons, hf]
    · rw [List.map_cons, List.map_cons, ih]

theorem find?_updateTask_self (hf : ∀ task, p (f task) = p task) :
    (updateTask tasks p f).find? p = (tasks.find? p).map f := by
  induction tasks with
  | nil => rfl
  | cons task tasks ih =>
    rw [updateTask]
    split
    · rename_i hp
      rw [List.find?_cons_of_pos (by rw [hf]; exact hp), List.find?_cons_of_pos hp, Option.map_some]
    · rename_i hp
      rw [List.find?_cons_of_neg hp, List.find?_cons_of_neg hp, ih]

/-- A task that is found stays, unless it is the one that changes. -/
theorem find?_updateTask (hf : ∀ task, q (f task) = q task) {task : ScheduledTask ℤ}
    (h : tasks.find? q = some task) :
    (updateTask tasks p f).find? q = some task ∨
      p task = true ∧ (updateTask tasks p f).find? q = some (f task) := by
  induction tasks with
  | nil => cases h
  | cons head tasks ih =>
    rw [updateTask]
    by_cases hq : q head = true
    · rw [List.find?_cons_of_pos hq] at h
      obtain rfl := Option.some.inj h
      split
      · rename_i hp
        exact Or.inr ⟨hp, List.find?_cons_of_pos (by rw [hf]; exact hq)⟩
      · exact Or.inl (List.find?_cons_of_pos hq)
    · rw [List.find?_cons_of_neg hq] at h
      split
      · rw [List.find?_cons_of_neg (by rw [hf]; exact hq)]
        exact Or.inl h
      · rw [List.find?_cons_of_neg hq]
        exact ih h

/-- A change that is made to the task that was changed before. -/
theorem updateTask_updateTask (hg : ∀ task, p (g task) = p task) :
    updateTask (updateTask tasks p g) p f = updateTask tasks p fun task => f (g task) := by
  induction tasks with
  | nil => rfl
  | cons task tasks ih =>
    by_cases hp : p task = true
    · have hp' : p (g task) = true := by rw [hg, hp]
      rw [updateTask, if_pos hp, updateTask, if_pos hp', updateTask, if_pos hp]
    · rw [updateTask, if_neg hp, updateTask, if_neg hp, updateTask, if_neg hp, ih]

end UpdateTask

end SchedulerActor

/-- Give a task another record. -/
def ScheduledTask.withChainRecord (task : ScheduledTask ℤ) (record : ChainRecord) : ScheduledTask ℤ :=
  { task with
    lastSubagentId := record.lastSubagentId,
    iterationsSinceFresh := record.iterationsSinceFresh,
    chainResetPending := record.chainResetPending }

/-- A child that is spawned for a task, with the children it goes on from. -/
structure SpawnedChild where
  id : String
  taskId : String
  prompt : String
  resumes : Option String
  summarizes : Option String

/-- Whether a fire waits for its child to be registered. -/
def FireStage.Registering (stage : FireStage) : Prop := ∃ request, stage = .registering request

namespace SchedulerActor

/-- The child that a step spawns, if it does. -/
def spawned (s : SchedulerActor υ) (input : SchedulerInput) : Option SpawnedChild :=
  match s.firing, input with
  | some firing, .spawn subagentId true =>
    match firing.stage with
    | .spawning previous =>
      if !s.stopped && s.tasks.any fun task => task.id == firing.taskId then
        let (resumeFrom, priorSummary, _) := chain firing previous
        some
          { id := subagentId,
            taskId := firing.taskId,
            prompt := firing.prompt,
            resumes := resumeFrom,
            summarizes := if priorSummary.isSome then firing.lastSubagentId else none }
      else none
    | _ => none
  | _, _ => none

/-- What a step does to the records of the tasks and to the fire that is under way. -/
inductive Effect (s : SchedulerActor υ) (input : SchedulerInput) (s' : SchedulerActor υ) : Prop
  | same (htasks : s'.tasks = s.tasks) (hfiring : s'.firing = s.firing)
  | kept (hidle : s.firing = none) (hchains : s.Keeps s') (hfiring : s'.firing = none)
  | created (task : ScheduledTask ℤ) (hidle : s.firing = none) (hinput : input = .create task)
      (htasks : s'.tasks = s.tasks ++ [task]) (hfiring : s'.firing = none)
  | updated (hidle : s.firing = none) (id : String) (prompt : Option String) (intervalSecs : Option UInt64) (now : ℤ)
      (index : ℕ) (task : ScheduledTask ℤ) (hinput : input = .update id prompt intervalSecs now)
      (hindex : s.tasks.findIdx? (fun task => task.id == id) = some index)
      (htask : s.tasks[index]? = some task)
      (htasks : s'.tasks = s.tasks.set index (withInterval (withPrompt task prompt) now intervalSecs))
      (hfiring : s'.firing = none)
  | started (firing : Firing υ) (task : ScheduledTask ℤ) (hidle : s.firing = none)
      (hfiring : s'.firing = some firing) (hchains : s'.chains = s.chains) (htask : task ∈ s.tasks)
      (hid : firing.taskId = task.id) (hrecord : firing.chainRecord = task.chainRecord)
      (hstage : ¬ firing.stage.Registering)
  | waits (firing : Firing υ) (stage : FireStage) (hbefore : s.firing = some firing)
      (hfiring : s'.firing = some { firing with stage }) (htasks : s'.tasks = s.tasks)
      (hstage : ¬ firing.stage.Registering)
  | spawns (firing : Firing υ) (request : LoopSpawn) (record : ChainRecord) (child : SpawnedChild)
      (hbefore : s.firing = some firing)
      (hfiring : s'.firing = some { firing with stage := .registering request })
      (htasks : s'.tasks = updateTask s.tasks (fun task => task.id == firing.taskId)
        fun task => task.withChainRecord record)
      (hrecord : record.lastSubagentId = some child.id) (hchild : child.taskId = firing.taskId)
      (hspawned : s.spawned input = some child)
  | skips (firing : Firing υ) (hbefore : s.firing = some firing) (hfiring : s'.firing = none)
      (htasks : s'.tasks = s.tasks) (hstage : ¬ firing.stage.Registering)
  | restores (firing : Firing υ) (hbefore : s.firing = some firing) (hfiring : s'.firing = none)
      (htasks : s'.tasks = updateTask s.tasks (fun task => task.id == firing.taskId)
        fun task => task.withChainRecord firing.chainRecord)
  | cancels (firing : Firing υ) (hbefore : s.firing = some firing) (hfiring : s'.firing = none)
      (htasks : s'.tasks = s.tasks) (hstage : firing.stage.Registering)
      (hinput : input = .registrationAnswered .cancelled)
  | fires (firing : Firing υ) (hbefore : s.firing = some firing) (hfiring : s'.firing = none)
      (hchains : s.Keeps s') (hstage : firing.stage.Registering)
      (hinput : input = .registrationAnswered (.reply ()) ∨ input = .registrationAnswered .timedOut)
  | forgets (subagentId : String) (hinput : input = .iterationFailed subagentId)
      (htasks : s'.tasks = updateTask s.tasks (fun task => task.lastSubagentId == some subagentId)
        fun task => { task with lastSubagentId := none, iterationsSinceFresh := 0 })
      (hfiring : s'.firing = s.firing)

section Effects

variable [DecidableEq υ] {ids : GenerationSource υ} {s s' : SchedulerActor υ}
  {reply : SchedulerReply υ}

theorem create_effect {task : ScheduledTask ℤ} (hidle : s.firing = none)
    (h : s.create ids task = .ok (reply, s')) : s.Effect (.create task) s' := by
  unfold create at h
  split at h
  · cases h
    exact .same rfl rfl
  · split at h
    · cases h
      exact .same rfl rfl
    · obtain ⟨⟨r, next⟩, hprepare, hrest⟩ := ok_of_bind h
      obtain ⟨⟨r', last⟩, hsend, heq⟩ := ok_of_bind hrest
      cases heq
      obtain ⟨htasks, hfiring⟩ := prepareTransition_tasks hprepare
      obtain ⟨htasks', hfiring'⟩ := commitAndSend_tasks hsend
      dsimp only at htasks' hfiring'
      rw [htasks] at htasks'
      exact .created task hidle rfl htasks' (hfiring'.trans (hfiring.trans hidle))

theorem update_effect {id : String} {prompt : Option String} {intervalSecs : Option UInt64} {now : ℤ}
    (hidle : s.firing = none) (h : s.update ids id prompt intervalSecs now = .ok (reply, s')) :
    s.Effect (.update id prompt intervalSecs now) s' := by
  unfold update at h
  split at h
  · cases h
    exact .same rfl rfl
  · split at h
    · cases h
      exact .same rfl rfl
    · rename_i index hindex
      obtain ⟨⟨r, next⟩, hprepare, hrest⟩ := ok_of_bind h
      obtain ⟨htasks, hfiring⟩ := prepareTransition_tasks hprepare
      dsimp only at hrest
      rw [htasks] at hrest
      split at hrest
      · cases hrest
        exact .same htasks hfiring
      · rename_i task htask
        obtain ⟨⟨r', last⟩, hsend, heq⟩ := ok_of_bind hrest
        cases heq
        obtain ⟨htasks', hfiring'⟩ := commitAndSend_tasks hsend
        exact .updated hidle id prompt intervalSecs now index task rfl hindex htask htasks'
          (hfiring'.trans (hfiring.trans hidle))

omit [DecidableEq υ] in
/-- The time of the last fire is not in the records. -/
theorem chains_set {index : ℕ} {task : ScheduledTask ℤ} (hindex : s.tasks[index]? = some task)
    {lastFiredAt : Option ℤ} (h : s'.tasks = s.tasks.set index { task with lastFiredAt }) :
    s'.chains = s.chains := by
  obtain ⟨hlt, rfl⟩ := List.getElem?_eq_some_iff.mp hindex
  unfold chains
  rw [h, List.map_set]
  change (s.tasks.map _).set index ((fun task => (task.id, task.chainRecord)) s.tasks[index]) = _
  rw [← List.map_set, List.set_getElem_self]

omit [DecidableEq υ] in
theorem startFire_effect {input : SchedulerInput} {index : ℕ} {task : ScheduledTask ℤ} {now : ℤ}
    {wired : Bool} (hidle : s.firing = none) (hindex : s.tasks[index]? = some task)
    (h : s.startFire ids index task now wired = .ok s') : s.Effect input s' := by
  obtain ⟨⟨r, next⟩, hprepare, hrest⟩ := ok_of_bind h
  obtain ⟨htasks, hfiring⟩ := prepareTransition_tasks hprepare
  dsimp only at hrest
  rw [htasks] at hrest
  cases hwired : wired with
  | true =>
    rw [hwired, if_pos rfl] at hrest
    cases hrest
    refine .started _ task hidle rfl (chains_set hindex rfl) (List.mem_of_getElem? hindex) rfl
      rfl ?_
    dsimp only
    split
    · rintro ⟨request, hrequest⟩
      cases hrequest
    · rintro ⟨request, hrequest⟩
      cases hrequest
  | false =>
    rw [hwired, if_neg Bool.false_ne_true] at hrest
    cases hrest
    obtain ⟨htasks', hfiring'⟩ := skipFire_tasks (υ := υ) _ _
    refine .kept hidle ?_ hfiring'
    have hchains := chains_set hindex htasks'
    unfold Keeps
    rw [hchains]

theorem fireNextTask_effect {input : SchedulerInput} {answers : WakeAnswers} (hidle : s.firing = none)
    (h : s.fireNextTask ids answers = .ok s') : s.Effect input s' := by
  unfold fireNextTask at h
  split at h
  · cases h
    exact .same rfl rfl
  · split at h
    · cases h
      exact .same rfl rfl
    · rename_i hindex
      split at h
      · split at h
        · obtain ⟨hkeeps, hfiring⟩ := expireDurably_keeps hindex h
          exact .kept hidle hkeeps (hfiring.trans hidle)
        · obtain ⟨hkeeps, hfiring⟩ := expire_keeps h
          exact .kept hidle hkeeps (hfiring.trans hidle)
      · exact startFire_effect hidle hindex h

omit [DecidableEq υ] in
theorem queryAnswered_effect {input : SchedulerInput} {firing : Firing υ}
    (hfiring : s.firing = some firing) (hstage : firing.stage = .querying)
    (answer : Answer (Option SubagentSnapshot)) : s.Effect input (s.queryAnswered firing answer) := by
  have hnot : ¬ firing.stage.Registering := by
    rw [hstage]
    rintro ⟨request, hrequest⟩
    cases hrequest
  have hskip : s.Effect input (s.skipFire firing) :=
    .skips firing hfiring (skipFire_tasks s firing).2 (skipFire_tasks s firing).1 hnot
  unfold queryAnswered
  split
  · split
    · exact hskip
    · exact .waits firing _ hfiring rfl rfl hnot
  · exact hskip

omit [DecidableEq υ] in
theorem unitAnswered_effect {input : SchedulerInput} {firing : Firing υ}
    {previous : Option SubagentSnapshot} (hfiring : s.firing = some firing)
    (hstage : firing.stage = .checkingUnit previous) (answer : Answer Bool) :
    s.Effect input (s.unitAnswered firing previous answer) := by
  have hnot : ¬ firing.stage.Registering := by
    rw [hstage]
    rintro ⟨request, hrequest⟩
    cases hrequest
  unfold unitAnswered
  split
  · exact .waits firing _ hfiring rfl rfl hnot
  · exact .skips firing hfiring (skipFire_tasks s firing).2 (skipFire_tasks s firing).1 hnot

omit [DecidableEq υ] in
theorem spawnIteration_effect {firing : Firing υ} {previous : Option SubagentSnapshot}
    {subagentId : String} {sent : Bool} (hrunning : s.stopped = false)
    (hfiring : s.firing = some firing) (hstage : firing.stage = .spawning previous) :
    s.Effect (.spawn subagentId sent) (s.spawnIteration firing previous subagentId sent) := by
  have hnot : ¬ firing.stage.Registering := by
    rw [hstage]
    rintro ⟨request, hrequest⟩
    cases hrequest
  unfold spawnIteration
  dsimp only
  split
  · rename_i hany
    cases sent with
    | true =>
      have hspawned : s.spawned (.spawn subagentId true) =
          some
            { id := subagentId,
              taskId := firing.taskId,
              prompt := firing.prompt,
              resumes := (chain firing previous).1,
              summarizes := if (chain firing previous).2.1.isSome then firing.lastSubagentId else none } := by
        simp only [spawned, hfiring, hstage, hrunning, hany, Bool.not_false, Bool.and_self, if_true]
      exact .spawns firing _ ⟨some subagentId, (chain firing previous).2.2, false⟩ _ hfiring rfl rfl rfl rfl
        hspawned
    | false =>
      obtain ⟨htasks, hnone⟩ := skipFire_tasks (restoreFireAnchor
        { s with
          tasks := updateTask s.tasks (fun task => task.id == firing.taskId) fun task =>
            task.withChainRecord ⟨some subagentId, (chain firing previous).2.2, false⟩ } firing) firing
      refine .restores firing hfiring hnone (htasks.trans ?_)
      exact updateTask_updateTask fun _ => rfl
  · exact .skips firing hfiring (skipFire_tasks s firing).2 (skipFire_tasks s firing).1 hnot

theorem completeFire_keeps {firing : Firing υ} {subagentId : String}
    (h : s.completeFire firing subagentId = .ok s') : s.Keeps s' ∧ s'.firing = none := by
  obtain ⟨⟨r, next⟩, hsend, hrest⟩ := ok_of_bind h
  obtain ⟨htasks, hnone⟩ := commitAndSend_tasks hsend
  dsimp only at htasks hnone hrest
  split at hrest
  · obtain ⟨⟨r', last⟩, hsend', heq⟩ := ok_of_bind hrest
    cases heq
    obtain ⟨htasks', hnone'⟩ := commitAndSend_tasks hsend'
    refine ⟨?_, hnone'.trans hnone⟩
    unfold Keeps chains
    rw [htasks']
    dsimp only
    rw [htasks]
    exact List.filter_sublist.map _
  · cases hrest
    exact ⟨keeps_of_eq htasks, hnone⟩

theorem registrationAnswered_effect {firing : Firing υ} {request : LoopSpawn} {answer : Answer Unit}
    (hfiring : s.firing = some firing) (hstage : firing.stage = .registering request)
    (h : s.registrationAnswered firing request answer = .ok s') :
    s.Effect (.registrationAnswered answer) s' := by
  have hrestored := skipFire_tasks (s.restoreFireAnchor firing) firing
  cases answer with
  | reply value =>
    obtain ⟨hkeeps, hnone⟩ := completeFire_keeps h
    exact .fires firing hfiring hnone hkeeps ⟨request, hstage⟩ (Or.inl rfl)
  | timedOut =>
    obtain ⟨hkeeps, hnone⟩ := completeFire_keeps h
    exact .fires firing hfiring hnone hkeeps ⟨request, hstage⟩ (Or.inr rfl)
  | dropped | notSent =>
    cases h
    exact .restores firing hfiring hrestored.2 hrestored.1
  | cancelled =>
    cases h
    exact .cancels firing hfiring (skipFire_tasks s firing).2 (skipFire_tasks s firing).1
      ⟨request, hstage⟩ rfl

/-- Everything a step can do. -/
theorem effect_of_step {input : SchedulerInput} (h : s.step ids input = .ok (reply, s')) :
    s.Effect input s' := by
  have hsame : ∀ {reply' : SchedulerReply υ},
      (.ok (reply', s) : Checked (SchedulerReply υ × SchedulerActor υ)) = .ok (reply, s') →
      s.Effect input s' := by
    intro reply' heq
    cases heq
    exact .same rfl rfl
  unfold step at h
  split at h
  · exact hsame h
  · rename_i hrunning
    split at h
    · cases h
      exact .forgets _ rfl rfl rfl
    · cases h
      obtain ⟨htasks, hfiring⟩ := announceExistingTasks_tasks s _
      exact .same htasks hfiring
    · rename_i hidle
      exact create_effect hidle h
    · rename_i hidle
      exact update_effect hidle h
    · rename_i hidle
      obtain ⟨hkeeps, hfiring⟩ := delete_keeps h
      exact .kept hidle hkeeps (hfiring.trans hidle)
    · exact hsame h
    · rename_i hidle
      split at h
      · exact hsame h
      · obtain ⟨next, hfire, heq⟩ := ok_of_map h
        cases heq
        exact fireNextTask_effect hidle hfire
    · obtain ⟨next, hshutdown, heq⟩ := ok_of_map h
      cases heq
      obtain ⟨htasks, hfiring⟩ := shutdown_tasks hshutdown
      exact .same htasks hfiring
    · rename_i hfiring
      split at h
      · rename_i hstage
        cases h
        exact queryAnswered_effect hfiring hstage _
      · exact hsame h
    · rename_i hfiring
      split at h
      · rename_i hstage
        cases h
        exact unitAnswered_effect hfiring hstage _
      · exact hsame h
    · rename_i hfiring
      split at h
      · rename_i hstage
        cases h
        exact spawnIteration_effect (Bool.eq_false_iff.mpr hrunning) hfiring hstage
      · exact hsame h
    · rename_i hfiring
      split at h
      · rename_i hstage
        obtain ⟨next, hanswer, heq⟩ := ok_of_map h
        cases heq
        exact registrationAnswered_effect hfiring hstage hanswer
      · exact hsame h
    · exact hsame h

end Effects

/-! ### Fires that are given up -/

section Fires

variable {ids : GenerationSource υ} {s s' s₀ : SchedulerActor υ}

theorem chainOf_eq (s : SchedulerActor υ) (taskId : String) :
    s.chainOf taskId = (s.chains.find? fun chain => chain.1 == taskId).map Prod.snd := by
  rw [chainOf, chains, List.find?_map, Option.map_map]
  rfl

theorem map_fst_chains (s : SchedulerActor υ) : s.chains.map Prod.fst = s.tasks.map ScheduledTask.id := by
  rw [chains, List.map_map]
  rfl

theorem mem_chains {task : ScheduledTask ℤ} (h : task ∈ s.tasks) :
    (task.id, task.chainRecord) ∈ s.chains := List.mem_map.mpr ⟨task, h, rfl⟩

/-- Where the ids are distinct, a record belongs to its task. -/
theorem chainOf_eq_some_iff (hids : (s.tasks.map ScheduledTask.id).Nodup) {taskId : String}
    {record : ChainRecord} : s.chainOf taskId = some record ↔ (taskId, record) ∈ s.chains := by
  rw [← map_fst_chains] at hids
  rw [chainOf_eq, Option.map_eq_some_iff]
  constructor
  · rintro ⟨⟨id, record⟩, hfind, rfl⟩
    have hbeq := List.find?_some hfind
    obtain rfl : id = taskId := beq_iff_eq.mp hbeq
    exact List.mem_of_find?_eq_some hfind
  · intro hmem
    obtain ⟨⟨id, other⟩, hfind⟩ : ∃ chain, s.chains.find? (fun chain => chain.1 == taskId) = some chain := by
      rw [← Option.isSome_iff_exists, List.find?_isSome]
      exact ⟨_, hmem, beq_self_eq_true taskId⟩
    have hbeq := List.find?_some hfind
    have hid : id = taskId := beq_iff_eq.mp hbeq
    have hsame := List.inj_on_of_nodup_map hids (List.mem_of_find?_eq_some hfind) hmem hid
    rw [hsame] at hfind
    exact ⟨_, hfind, rfl⟩

theorem chainOf_updateTask_self {taskId : String} {record : ChainRecord}
    (h : s'.tasks = updateTask s.tasks (fun task => task.id == taskId) fun task =>
      task.withChainRecord record) (hsome : (s.chainOf taskId).isSome) :
    s'.chainOf taskId = some record := by
  unfold chainOf at hsome ⊢
  rw [Option.isSome_map] at hsome
  obtain ⟨task, htask⟩ := Option.isSome_iff_exists.mp hsome
  have hfind := @find?_updateTask_self s.tasks (fun task => task.id == taskId)
    (fun task => task.withChainRecord record) fun _ => rfl
  rw [h, hfind, htask]
  rfl

/-- A failure that is recorded changes only the task that goes on from the child that failed. -/
theorem chainOf_forgets {subagentId taskId : String} {record : ChainRecord}
    (h : s'.tasks = updateTask s.tasks (fun task => task.lastSubagentId == some subagentId)
      fun task => { task with lastSubagentId := none, iterationsSinceFresh := 0 })
    (hrecord : s.chainOf taskId = some record) :
    (s'.chainOf taskId).isSome ∧
      (record.lastSubagentId ≠ some subagentId → s'.chainOf taskId = some record) := by
  obtain ⟨task, htask, rfl⟩ := Option.map_eq_some_iff.mp hrecord
  unfold chainOf
  rw [h]
  rcases find?_updateTask (p := fun task => task.lastSubagentId == some subagentId)
    (f := fun task => { task with lastSubagentId := none, iterationsSinceFresh := 0 })
    (fun _ => rfl) htask with hfind | ⟨hp, hfind⟩
  · rw [hfind]
    exact ⟨rfl, fun _ => rfl⟩
  · rw [hfind]
    exact ⟨rfl, fun hne => absurd (beq_iff_eq.mp hp) hne⟩

/-- The input is not a failure of the child that the fire goes on from. -/
def Calm (s : SchedulerActor υ) (input : SchedulerInput) : Prop :=
  ∀ firing, s.firing = some firing →
    ∀ subagentId, input = .iterationFailed subagentId → firing.lastSubagentId ≠ some subagentId

/-- The answer says that the child of the fire has started or waits for its turn. -/
def Fires (s : SchedulerActor υ) (input : SchedulerInput) : Prop :=
  ∃ firing, s.firing = some firing ∧ firing.stage.Registering ∧
    (input = .registrationAnswered (.reply ()) ∨ input = .registrationAnswered .timedOut)

/-- The actor is cancelled while it waits for the child to be registered. -/
def CancelledRegistering (s : SchedulerActor υ) (input : SchedulerInput) : Prop :=
  ∃ firing, s.firing = some firing ∧ firing.stage.Registering ∧
    input = .registrationAnswered .cancelled

variable [DecidableEq υ]

/-- The states of a fire that was started in some state. -/
inductive DuringFire (ids : GenerationSource υ) (s₀ : SchedulerActor υ) : SchedulerActor υ → Prop
  | start {answers : WakeAnswers} {reply : SchedulerReply υ} {s : SchedulerActor υ}
      (hidle : s₀.firing = none) (hstep : s₀.step ids (.wake answers) = .ok (reply, s))
      (hfiring : s.firing.isSome) : DuringFire ids s₀ s
  | wait {input : SchedulerInput} {reply : SchedulerReply υ} {s s' : SchedulerActor υ}
      (h : DuringFire ids s₀ s) (hcalm : s.Calm input) (hstep : s.step ids input = .ok (reply, s'))
      (hfiring : s'.firing.isSome) : DuringFire ids s₀ s'

/-- A fire of a task that ends without a child, up to two things: a failure of the child it goes on
from is recorded while it waits, or the actor is cancelled while it waits for the registration. -/
def SkippedFire (ids : GenerationSource υ) (s₀ : SchedulerActor υ) (taskId : String)
    (s' : SchedulerActor υ) : Prop :=
  ∃ s firing input reply, DuringFire ids s₀ s ∧ s.firing = some firing ∧ firing.taskId = taskId ∧
    s.step ids input = .ok (reply, s') ∧ s'.firing = none ∧ ¬ s.Fires input ∧
    ¬ s.CancelledRegistering input

theorem DuringFire.isSome (h : DuringFire ids s₀ s) : s.firing.isSome := by
  cases h with
  | start _ _ hfiring => exact hfiring
  | wait _ _ _ hfiring => exact hfiring

/-- What a fire took down is the record from before, and the record stays until a child is
spawned. -/
theorem DuringFire.chainOf (hids : (s₀.tasks.map ScheduledTask.id).Nodup) (h : DuringFire ids s₀ s)
    {firing : Firing υ} (hfiring : s.firing = some firing) :
    s₀.chainOf firing.taskId = some firing.chainRecord ∧ (s.chainOf firing.taskId).isSome ∧
      (¬ firing.stage.Registering → s.chainOf firing.taskId = some firing.chainRecord) := by
  induction h generalizing firing with
  | @start answers reply s hidle hstep hsome =>
    cases effect_of_step hstep with
    | started started task _ hstarted hchains htask hid hrecord _ =>
      rw [hfiring] at hstarted
      obtain rfl := Option.some.inj hstarted
      have hbefore : s₀.chainOf firing.taskId = some firing.chainRecord := by
        rw [chainOf_eq_some_iff hids, hid, hrecord]
        exact mem_chains htask
      have hafter : s.chainOf firing.taskId = some firing.chainRecord := by
        rw [chainOf_eq, hchains, ← chainOf_eq, hbefore]
      exact ⟨hbefore, by rw [hafter]; rfl, fun _ => hafter⟩
    | same _ hsame => simp [hidle, hfiring] at hsame
    | kept _ _ hnone => simp [hfiring] at hnone
    | created _ _ _ _ hnone => simp [hfiring] at hnone
    | updated _ _ _ _ _ _ _ _ _ _ _ hnone => simp [hfiring] at hnone
    | forgets _ _ _ hsame => simp [hidle, hfiring] at hsame
    | waits _ _ hbefore => simp [hidle] at hbefore
    | spawns _ _ _ _ hbefore => simp [hidle] at hbefore
    | skips _ hbefore | restores _ hbefore | cancels _ hbefore | fires _ hbefore =>
      simp [hidle] at hbefore
  | @wait input reply s s' hduring hcalm hstep hsome ih =>
    obtain ⟨before, hbefore⟩ := Option.isSome_iff_exists.mp hduring.isSome
    obtain ⟨hstart, hpresent, hrecord⟩ := ih hbefore
    cases effect_of_step hstep with
    | same htasks hsame =>
      rw [hfiring, hbefore] at hsame
      obtain rfl := Option.some.inj hsame
      have hchain : s'.chainOf firing.taskId = s.chainOf firing.taskId := by
        unfold SchedulerActor.chainOf
        rw [htasks]
      rw [hchain]
      exact ⟨hstart, hpresent, hrecord⟩
    | forgets subagentId hinput htasks hsame =>
      rw [hfiring, hbefore] at hsame
      obtain rfl := Option.some.inj hsame
      obtain ⟨record, hsome⟩ := Option.isSome_iff_exists.mp hpresent
      obtain ⟨hstill, hother⟩ := chainOf_forgets htasks hsome
      refine ⟨hstart, hstill, fun hstage => ?_⟩
      obtain rfl := Option.some.inj (hsome.symm.trans (hrecord hstage))
      exact hother (hcalm firing hbefore subagentId hinput)
    | waits other stage hother hwaits htasks hstage =>
      obtain rfl := Option.some.inj (hbefore.symm.trans hother)
      obtain rfl := Option.some.inj (hfiring.symm.trans hwaits)
      have hchain : s'.chainOf before.taskId = some before.chainRecord := by
        unfold SchedulerActor.chainOf
        rw [htasks]
        exact hrecord hstage
      exact ⟨hstart, Option.isSome_iff_exists.mpr ⟨_, hchain⟩, fun _ => hchain⟩
    | spawns other request record child hother hspawns htasks =>
      obtain rfl := Option.some.inj (hbefore.symm.trans hother)
      obtain rfl := Option.some.inj (hfiring.symm.trans hspawns)
      have hchain := chainOf_updateTask_self htasks hpresent
      exact ⟨hstart, Option.isSome_iff_exists.mpr ⟨_, hchain⟩, fun hnot => absurd ⟨request, rfl⟩ hnot⟩
    | kept hidle | updated hidle => simp [hbefore] at hidle
    | created _ hidle => simp [hbefore] at hidle
    | started _ _ hidle => simp [hbefore] at hidle
    | skips _ _ hnone | restores _ _ hnone | cancels _ _ hnone | fires _ _ hnone =>
      simp [hfiring] at hnone

/-- A fire that ends without a child leaves the record of its task as it was. -/
theorem SkippedFire.chainOf_eq {taskId : String} (h : SkippedFire ids s₀ taskId s')
    (hids : (s₀.tasks.map ScheduledTask.id).Nodup) : s'.chainOf taskId = s₀.chainOf taskId := by
  obtain ⟨s, firing, input, reply, hduring, hfiring, rfl, hstep, hnone, hfires, hcancelled⟩ := h
  obtain ⟨hstart, hpresent, hrecord⟩ := hduring.chainOf hids hfiring
  cases effect_of_step hstep with
  | skips other hother _ htasks hstage =>
    obtain rfl := Option.some.inj (hfiring.symm.trans hother)
    rw [hstart, ← hrecord hstage]
    unfold chainOf
    rw [htasks]
  | restores other hother _ htasks =>
    obtain rfl := Option.some.inj (hfiring.symm.trans hother)
    rw [hstart]
    exact chainOf_updateTask_self htasks hpresent
  | cancels other hother _ _ hstage hinput => exact absurd ⟨other, hother, hstage, hinput⟩ hcancelled
  | fires other hother _ _ hstage hinput => exact absurd ⟨other, hother, hstage, hinput⟩ hfires
  | same _ hsame => simp [hnone, hfiring] at hsame
  | forgets _ _ _ hsame => simp [hnone, hfiring] at hsame
  | kept hidle | updated hidle => simp [hfiring] at hidle
  | created _ hidle => simp [hfiring] at hidle
  | started _ _ hidle => simp [hfiring] at hidle
  | waits _ _ _ hwaits => simp [hnone] at hwaits
  | spawns _ _ _ _ _ hspawns => simp [hnone] at hspawns

/-- A wake without a coordinator gives the fire up at once; the tasks that are left keep their
records. -/
theorem chainOf_unwired (hids : (s₀.tasks.map ScheduledTask.id).Nodup) (hidle : s₀.firing = none)
    {answers : WakeAnswers} {reply : SchedulerReply υ}
    (hstep : s₀.step ids (.wake answers) = .ok (reply, s')) (hnone : s'.firing = none) {taskId : String}
    {record : ChainRecord} (hrecord : s'.chainOf taskId = some record) :
    s₀.chainOf taskId = some record := by
  have hkeeps : s₀.Keeps s' := by
    cases effect_of_step hstep with
    | same htasks => exact keeps_of_eq htasks
    | kept _ hkeeps => exact hkeeps
    | created _ _ hinput => cases hinput
    | updated _ _ _ _ _ _ _ hinput => cases hinput
    | forgets _ hinput => cases hinput
    | started _ _ _ hstarted => simp [hnone] at hstarted
    | waits _ _ hbefore => simp [hidle] at hbefore
    | spawns _ _ _ _ hbefore => simp [hidle] at hbefore
    | skips _ hbefore | restores _ hbefore | cancels _ hbefore | fires _ hbefore =>
      simp [hidle] at hbefore
  have hids' : (s'.tasks.map ScheduledTask.id).Nodup := by
    rw [← map_fst_chains] at hids ⊢
    exact hids.sublist (hkeeps.map _)
  rw [chainOf_eq_some_iff hids'] at hrecord
  rw [chainOf_eq_some_iff hids]
  exact hkeeps.subset hrecord

end Fires

/-! ### New prompts -/

section Prompts

variable {ids : GenerationSource υ} {s s' s₀ : SchedulerActor υ}

/-- A task is created under an id of its own and without a chain. -/
def Admits (s : SchedulerActor υ) : SchedulerInput → Prop
  | .create task => task.id ∉ s.tasks.map ScheduledTask.id ∧ task.lastSubagentId = none
  | _ => True

theorem withInterval_id (task : ScheduledTask ℤ) (now : ℤ) (intervalSecs : Option UInt64) :
    (withInterval task now intervalSecs).id = task.id := by
  unfold withInterval
  split
  · rfl
  · dsimp only
    split
    · rfl
    · rfl

theorem withInterval_chainRecord (task : ScheduledTask ℤ) (now : ℤ) (intervalSecs : Option UInt64) :
    (withInterval task now intervalSecs).chainRecord = task.chainRecord := by
  unfold withInterval
  split
  · rfl
  · dsimp only
    split
    · rfl
    · rfl

theorem withPrompt_id (task : ScheduledTask ℤ) (prompt : Option String) :
    (withPrompt task prompt).id = task.id := by
  unfold withPrompt
  split
  · rfl
  · split
    · rfl
    · rfl

/-- A prompt that is given again changes nothing about the chain, a new one cuts it. -/
theorem withPrompt_chainRecord (task : ScheduledTask ℤ) (prompt : Option String) :
    (withPrompt task prompt).chainRecord = task.chainRecord ∨
      (withPrompt task prompt).chainRecord.chainResetPending = true := by
  unfold withPrompt
  split
  · exact Or.inl rfl
  · split
    · exact Or.inr rfl
    · exact Or.inl rfl

theorem withPrompt_of_ne {task : ScheduledTask ℤ} {prompt : String} (h : task.prompt ≠ prompt) :
    (withPrompt task (some prompt)).chainRecord.chainResetPending = true := by
  unfold withPrompt
  dsimp only
  rw [if_pos h.symm]
  rfl

theorem nodup_updateTask {p : ScheduledTask ℤ → Bool} {f : ScheduledTask ℤ → ScheduledTask ℤ}
    (h : s'.tasks = updateTask s.tasks p f) (hf : ∀ task, (f task).id = task.id)
    (hids : (s.tasks.map ScheduledTask.id).Nodup) : (s'.tasks.map ScheduledTask.id).Nodup := by
  rw [h, map_id_updateTask hf]
  exact hids

/-- The ids stay distinct. -/
theorem Effect.nodup {input : SchedulerInput} (h : s.Effect input s') (hadmits : s.Admits input)
    (hids : (s.tasks.map ScheduledTask.id).Nodup) : (s'.tasks.map ScheduledTask.id).Nodup := by
  have hkeeps : s.Keeps s' → (s'.tasks.map ScheduledTask.id).Nodup := by
    intro hkeeps
    rw [← map_fst_chains] at hids ⊢
    exact hids.sublist (hkeeps.map _)
  cases h with
  | same htasks => rwa [htasks]
  | kept _ hchains => exact hkeeps hchains
  | created task _ hinput htasks =>
    rw [hinput] at hadmits
    rw [htasks, List.map_append, List.nodup_append]
    refine ⟨hids, List.nodup_singleton _, ?_⟩
    intro id hid other hother heq
    rw [List.mem_singleton.mp hother] at heq
    exact hadmits.1 (heq ▸ hid)
  | updated _ _ _ _ _ index task _ _ htask htasks =>
    rw [htasks, List.map_set, withInterval_id, withPrompt_id]
    obtain ⟨hlt, rfl⟩ := List.getElem?_eq_some_iff.mp htask
    rw [← List.map_set, List.set_getElem_self]
    exact hids
  | started _ _ _ _ hchains => exact hkeeps (by unfold Keeps; rw [hchains])
  | waits _ _ _ _ htasks => rwa [htasks]
  | spawns _ _ _ _ _ _ htasks =>
    exact nodup_updateTask htasks (fun _ => rfl) hids
  | skips _ _ _ htasks => rwa [htasks]
  | cancels _ _ _ htasks => rwa [htasks]
  | restores _ _ _ htasks =>
    exact nodup_updateTask htasks (fun _ => rfl) hids
  | fires _ _ _ hchains => exact hkeeps hchains
  | forgets _ _ htasks =>
    exact nodup_updateTask htasks (fun _ => rfl) hids

/-- A record leads to nothing but children of a task that were spawned of late. -/
def Recent (taskId : String) (log : List SpawnedChild) (record : ChainRecord) : Prop :=
  record.chainResetPending = true ∨
    ∀ p, record.lastSubagentId = some p → ∃ child ∈ log, child.taskId = taskId ∧ child.id = p

theorem Recent.mono {taskId : String} {log : List SpawnedChild} {record : ChainRecord}
    (h : Recent taskId log record) (more : List SpawnedChild) : Recent taskId (log ++ more) record := by
  refine h.imp_right fun hlast p hp => ?_
  obtain ⟨child, hchild, hsame⟩ := hlast p hp
  exact ⟨child, List.mem_append_left _ hchild, hsame⟩

/-- The chain of a task was cut: its record, and that of a fire that is under way, lead to nothing but
children that were spawned since. -/
structure CutSince (taskId : String) (log : List SpawnedChild) (s : SchedulerActor υ) : Prop where
  tasks : ∀ record, (taskId, record) ∈ s.chains → Recent taskId log record
  firing : ∀ firing, s.firing = some firing → firing.taskId = taskId →
    Recent taskId log firing.chainRecord

theorem chain_of_pending {firing : Firing υ} (h : firing.chainResetPending = true)
    (previous : Option SubagentSnapshot) : chain firing previous = (none, none, 1) := by
  unfold chain
  rw [if_pos h]

theorem chain_resumes {firing : Firing υ} {previous : Option SubagentSnapshot} {p : String}
    (h : (chain firing previous).1 = some p) : firing.lastSubagentId = some p := by
  unfold chain at h
  dsimp only at h
  split at h
  · cases h
  · split at h
    · cases h
    · exact h

theorem spawned_goesOn {input : SchedulerInput} {child : SpawnedChild} {p : String}
    (h : s.spawned input = some child) (hp : child.resumes = some p ∨ child.summarizes = some p) :
    ∃ firing, s.firing = some firing ∧ child.taskId = firing.taskId ∧
      firing.chainResetPending = false ∧ firing.lastSubagentId = some p := by
  unfold spawned at h
  split at h
  · rename_i firing subagentId hfiring
    split at h
    · rename_i previous hstage
      split at h
      · dsimp only at h
        obtain rfl := Option.some.inj h
        dsimp only at hp
        refine ⟨firing, hfiring, rfl, ?_, ?_⟩
        · by_contra hpending
          rw [Bool.not_eq_false] at hpending
          simp [chain_of_pending hpending] at hp
        · rcases hp with hp | hp
          · exact chain_resumes hp
          · split at hp
            · exact hp
            · cases hp
      · cases h
    · cases h
  · cases h

theorem mem_chains_updateTask {p : ScheduledTask ℤ → Bool} {f : ScheduledTask ℤ → ScheduledTask ℤ}
    (h : s'.tasks = updateTask s.tasks p f) {taskId : String} {record : ChainRecord}
    (hmem : (taskId, record) ∈ s'.chains) :
    (taskId, record) ∈ s.chains ∨
      ∃ task ∈ s.tasks, p task = true ∧ (f task).id = taskId ∧ (f task).chainRecord = record := by
  obtain ⟨task, htask, heq⟩ := List.mem_map.mp hmem
  obtain ⟨rfl, rfl⟩ := Prod.mk.inj heq
  rw [h] at htask
  rcases mem_updateTask htask with hold | ⟨old, hold, hp, rfl⟩
  · exact Or.inl (mem_chains hold)
  · exact Or.inr ⟨old, hold, hp, rfl, rfl⟩

/-- One step: the chain stays cut. -/
theorem CutSince.step {taskId : String} {log : List SpawnedChild} {input : SchedulerInput}
    (h : CutSince taskId log s) (heffect : s.Effect input s') (hadmits : s.Admits input) :
    CutSince taskId (log ++ (s.spawned input).toList) s' := by
  have hmono : ∀ {record}, Recent taskId log record →
      Recent taskId (log ++ (s.spawned input).toList) record := fun hrecent => hrecent.mono _
  have hold : ∀ {record}, (taskId, record) ∈ s.chains →
      Recent taskId (log ++ (s.spawned input).toList) record := fun hmem => hmono (h.tasks _ hmem)
  have hnone : s'.firing = none → ∀ firing, s'.firing = some firing → firing.taskId = taskId →
      Recent taskId (log ++ (s.spawned input).toList) firing.chainRecord := by
    intro hnone firing hfiring
    rw [hnone] at hfiring
    cases hfiring
  have heq : s'.tasks = s.tasks → ∀ record, (taskId, record) ∈ s'.chains →
      Recent taskId (log ++ (s.spawned input).toList) record := by
    intro htasks record hmem
    unfold chains at hmem
    rw [htasks] at hmem
    exact hold hmem
  cases heffect with
  | same htasks hsame => exact ⟨heq htasks, fun firing hfiring => hmono ∘ h.firing firing (hsame ▸ hfiring)⟩
  | kept _ hchains hidle => exact ⟨fun record hmem => hold (hchains.subset hmem), hnone hidle⟩
  | created task _ hinput htasks hidle =>
    refine ⟨fun record hmem => ?_, hnone hidle⟩
    unfold chains at hmem
    rw [htasks, List.map_append] at hmem
    rcases List.mem_append.mp hmem with hmem | hmem
    · exact hold hmem
    · obtain ⟨-, rfl⟩ := Prod.mk.inj (List.mem_singleton.mp hmem)
      rw [hinput] at hadmits
      refine Or.inr fun p hp => ?_
      rw [ScheduledTask.chainRecord, hadmits.2] at hp
      cases hp
  | updated _ id prompt intervalSecs now index task _ _ htask htasks hidle =>
    refine ⟨fun record hmem => ?_, hnone hidle⟩
    obtain ⟨changed, hchanged, hpair⟩ := List.mem_map.mp hmem
    obtain ⟨rfl, rfl⟩ := Prod.mk.inj hpair
    rw [htasks] at hchanged
    rcases List.mem_or_eq_of_mem_set hchanged with hchanged | rfl
    · exact hold (mem_chains hchanged)
    · rw [withInterval_chainRecord]
      rw [withInterval_id, withPrompt_id] at h hold ⊢
      rcases withPrompt_chainRecord task prompt with hsame | hcut
      · rw [hsame]
        exact hold (mem_chains (List.mem_of_getElem? htask))
      · exact Or.inl hcut
  | started firing task _ hfiring hchains htask hid hrecord =>
    refine ⟨fun record hmem => hold (hchains ▸ hmem), fun other hother htaskId => ?_⟩
    obtain rfl := Option.some.inj (hfiring.symm.trans hother)
    rw [hrecord]
    rw [hid] at htaskId
    exact hold (htaskId ▸ mem_chains htask)
  | waits firing stage hbefore hfiring htasks =>
    refine ⟨heq htasks, fun other hother htaskId => ?_⟩
    obtain rfl := Option.some.inj (hfiring.symm.trans hother)
    exact hmono (h.firing firing hbefore htaskId)
  | spawns firing request record child hbefore hfiring htasks hlast hchild hspawned =>
    refine ⟨fun record' hmem => ?_, fun other hother htaskId => ?_⟩
    · rcases mem_chains_updateTask htasks hmem with hmem | ⟨task, -, hp, hid, rfl⟩
      · exact hold hmem
      · refine Or.inr fun p hp' => ?_
        refine ⟨child, List.mem_append_right _ (by rw [hspawned]; exact List.mem_singleton_self _), ?_, ?_⟩
        · rw [hchild, ← hid]
          exact (beq_iff_eq.mp hp).symm
        · exact Option.some.inj (hlast.symm.trans hp')
    · obtain rfl := Option.some.inj (hfiring.symm.trans hother)
      exact hmono (h.firing firing hbefore htaskId)
  | skips _ _ hidle htasks | cancels _ _ hidle htasks => exact ⟨heq htasks, hnone hidle⟩
  | restores firing hbefore hidle htasks =>
    refine ⟨fun record hmem => ?_, hnone hidle⟩
    rcases mem_chains_updateTask htasks hmem with hmem | ⟨task, -, hp, hid, rfl⟩
    · exact hold hmem
    · have htaskId : task.id = firing.taskId := beq_iff_eq.mp hp
      exact hmono (h.firing firing hbefore (htaskId.symm.trans hid))
  | fires _ _ hidle hchains => exact ⟨fun record hmem => hold (hchains.subset hmem), hnone hidle⟩
  | forgets subagentId _ htasks hsame =>
    refine ⟨fun record hmem => ?_, fun firing hfiring => hmono ∘ h.firing firing (hsame ▸ hfiring)⟩
    rcases mem_chains_updateTask htasks hmem with hmem | ⟨task, -, -, -, rfl⟩
    · exact hold hmem
    · exact Or.inr nofun

variable [DecidableEq υ]

/-- A run of the actor with the children that are spawned. -/
inductive Run (ids : GenerationSource υ) (s₀ : SchedulerActor υ) :
    List SpawnedChild → SchedulerActor υ → Prop
  | refl : Run ids s₀ [] s₀
  | step {log : List SpawnedChild} {input : SchedulerInput} {reply : SchedulerReply υ}
      {s s' : SchedulerActor υ} (h : Run ids s₀ log s) (hadmits : s.Admits input)
      (hstep : s.step ids input = .ok (reply, s')) : Run ids s₀ (log ++ (s.spawned input).toList) s'

theorem Run.nodup {log : List SpawnedChild} (h : Run ids s₀ log s)
    (hids : (s₀.tasks.map ScheduledTask.id).Nodup) : (s.tasks.map ScheduledTask.id).Nodup := by
  induction h with
  | refl => exact hids
  | step _ hadmits hstep ih => exact (effect_of_step hstep).nodup hadmits ih

/-- Over a run from where the chain of a task was cut, it stays cut, and every child of the task goes
on only from children that were spawned before it in the run. -/
theorem Run.cutSince {log : List SpawnedChild} {taskId : String} (h : Run ids s₀ log s)
    (hcut : CutSince taskId [] s₀) :
    CutSince taskId log s ∧
      ∀ before child behind, log = before ++ child :: behind → child.taskId = taskId →
        ∀ p, child.resumes = some p ∨ child.summarizes = some p →
          ∃ earlier ∈ before, earlier.taskId = taskId ∧ earlier.id = p := by
  induction h with
  | refl =>
    refine ⟨hcut, fun before child behind hsplit => ?_⟩
    cases before <;> cases hsplit
  | @step log input reply s s' hrun hadmits hstep ih =>
    obtain ⟨hbefore, hchildren⟩ := ih
    refine ⟨hbefore.step (effect_of_step hstep) hadmits, ?_⟩
    intro before child behind hsplit htask p hp
    cases hspawned : s.spawned input with
    | none =>
      rw [hspawned, Option.toList_none, List.append_nil] at hsplit
      exact hchildren before child behind hsplit htask p hp
    | some new =>
      rw [hspawned, Option.toList_some] at hsplit
      rcases List.eq_nil_or_concat behind with rfl | ⟨behind, last, rfl⟩
      · obtain ⟨rfl, hnew⟩ := List.append_inj' hsplit rfl
        obtain rfl := (List.cons_eq_cons.mp hnew).1
        obtain ⟨firing, hfiring, hid, hpending, hlast⟩ := spawned_goesOn hspawned hp
        rcases hbefore.firing firing hfiring (hid.symm.trans htask) with hreset | hrecent
        · rw [Firing.chainRecord, hpending] at hreset
          cases hreset
        · exact hrecent p hlast
      · rw [List.concat_eq_append, ← List.cons_append, ← List.append_assoc] at hsplit
        exact hchildren before child behind (List.append_inj' hsplit rfl).1 htask p hp

theorem accepted_update {id : String} {prompt : Option String} {intervalSecs : Option UInt64} {now : ℤ}
    {changed : ScheduledTask ℤ}
    (h : s₀.update ids id prompt intervalSecs now = .ok (.task (.ok changed), s)) :
    ∃ index task, s₀.tasks[index]? = some task ∧ task.id = id ∧ s.firing = s₀.firing ∧
      s.tasks = s₀.tasks.set index (withInterval (withPrompt task prompt) now intervalSecs) := by
  unfold update at h
  split at h
  · cases h
  · split at h
    · cases h
    · rename_i index hindex
      obtain ⟨⟨r, next⟩, hprepare, hrest⟩ := ok_of_bind h
      obtain ⟨htasks, hfiring⟩ := prepareTransition_tasks hprepare
      dsimp only at hrest
      rw [htasks] at hrest
      split at hrest
      · cases hrest
      · rename_i task htask
        obtain ⟨⟨r', last⟩, hsend, heq⟩ := ok_of_bind hrest
        cases heq
        obtain ⟨htasks', hfiring'⟩ := commitAndSend_tasks hsend
        obtain ⟨hlt, hid, -⟩ := List.findIdx?_eq_some_iff_getElem.mp hindex
        refine ⟨index, task, htask, ?_, hfiring'.trans hfiring, htasks'⟩
        rw [List.getElem?_eq_getElem hlt] at htask
        obtain rfl := Option.some.inj htask
        exact beq_iff_eq.mp hid

theorem cutSince_update (hids : (s₀.tasks.map ScheduledTask.id).Nodup) (hidle : s₀.firing = none)
    {id prompt : String} {intervalSecs : Option UInt64} {now : ℤ} {changed : ScheduledTask ℤ}
    (hstep : s₀.step ids (.update id (some prompt) intervalSecs now) = .ok (.task (.ok changed), s))
    (hprompt : ∀ task ∈ s₀.tasks, task.id = id → task.prompt ≠ prompt) : CutSince id [] s := by
  have hupdate : s₀.update ids id (some prompt) intervalSecs now = .ok (.task (.ok changed), s) := by
    unfold step at hstep
    split at hstep
    · cases hstep
    · rw [hidle] at hstep
      exact hstep
  obtain ⟨index, task, htask, rfl, hfiring, htasks⟩ := accepted_update hupdate
  have hids' : (s.chains.map Prod.fst).Nodup := by
    rw [map_fst_chains, htasks, List.map_set, withInterval_id, withPrompt_id]
    obtain ⟨hlt, rfl⟩ := List.getElem?_eq_some_iff.mp htask
    rw [← List.map_set, List.set_getElem_self]
    exact hids
  obtain ⟨hlt, -⟩ := List.getElem?_eq_some_iff.mp htask
  have hmem : withInterval (withPrompt task (some prompt)) now intervalSecs ∈ s.tasks := by
    rw [htasks]
    exact List.mem_set hlt _
  have hchain := mem_chains hmem
  rw [withInterval_id, withPrompt_id, withInterval_chainRecord] at hchain
  refine ⟨fun record hrecord => ?_, fun firing hsome => ?_⟩
  · have hsame := List.inj_on_of_nodup_map hids' hrecord hchain rfl
    obtain rfl := (Prod.mk.inj hsame).2
    exact Or.inl (withPrompt_of_ne (hprompt task (List.mem_of_getElem? htask) rfl))
  · rw [hfiring, hidle] at hsome
    cases hsome

/-- Over every run, a fire that ends without a child leaves the record of its task as it was, and
after a change of its prompt no child of a task goes on from a child that was spawned before. -/
theorem chains_over_runs {tasks : List (ScheduledTask ℤ)}
    (hids : (tasks.map ScheduledTask.id).Nodup) {log : List SpawnedChild}
    (hrun : Run ids (.load ids tasks) log s₀) :
    (∀ taskId s', SkippedFire ids s₀ taskId s' → s'.chainOf taskId = s₀.chainOf taskId) ∧
      (∀ answers reply s', s₀.firing = none → s₀.step ids (.wake answers) = .ok (reply, s') →
        s'.firing = none → ∀ taskId record, s'.chainOf taskId = some record →
          s₀.chainOf taskId = some record) ∧
      ∀ id prompt intervalSecs now changed s₁, s₀.firing = none →
        s₀.step ids (.update id (some prompt) intervalSecs now) = .ok (.task (.ok changed), s₁) →
        (∀ task ∈ s₀.tasks, task.id = id → task.prompt ≠ prompt) →
        ∀ later s₂, Run ids s₁ later s₂ →
        ∀ before child behind, later = before ++ child :: behind → child.taskId = id →
        ∀ p, child.resumes = some p ∨ child.summarizes = some p →
          ∃ earlier ∈ before, earlier.taskId = id ∧ earlier.id = p := by
  have hdistinct := hrun.nodup hids
  refine ⟨fun taskId s' hskipped => hskipped.chainOf_eq hdistinct, ?_, ?_⟩
  · intro answers reply s' hidle hstep hnone taskId record hrecord
    exact chainOf_unwired hdistinct hidle hstep hnone hrecord
  · intro id prompt intervalSecs now changed s₁ hidle hstep hprompt later s₂ hlater
    exact (hlater.cutSince (cutSince_update hdistinct hidle hstep hprompt)).2

end Prompts

end SchedulerActor

/-- A loop that goes on from a child, or from none. -/
private def loopTask (lastSubagentId : Option String) : ScheduledTask ℤ :=
  { id := "loop", intervalSecs := 60, prompt := "check", recurring := true, durable := false,
    createdAt := 0, lastFiredAt := none, expiresAt := none, lastSubagentId,
    iterationsSinceFresh := 3, chainResetPending := true }

private def loopActor (lastSubagentId : Option String) : SchedulerActor ℕ :=
  .load numberedIds [loopTask lastSubagentId]

/-- The actor wakes up when the loop is due. -/
private def loopDue : WakeAnswers := ⟨60000000000, false, .committed, .ok (), true⟩

open SchedulerActor in
/-- A spawn that cannot be sent leaves the record of its task as it was. -/
theorem unsent_fire_keeps_chain :
    ∃ s', (loopActor none).run numberedIds [.wake loopDue, .spawn "new" false] = .ok s' ∧
      s'.chainOf "loop" = (loopActor none).chainOf "loop" := by
  have hruns := @chains_over_runs ℕ numberedIds (loopActor none) _ [loopTask none] (by decide) [] .refl
  refine ⟨_, rfl, hruns.1 "loop" _ ?_⟩
  refine ⟨_, _, .spawn "new" false, .none, @DuringFire.start _ _ _ _ loopDue .none _ rfl rfl rfl, rfl, rfl,
    rfl, rfl, ?_, ?_⟩
  · rintro ⟨_, _, _, h | h⟩
    · cases h
    · cases h
  · rintro ⟨_, _, _, h⟩
    cases h

/-- Cancelled while it waits for the registration, the fire leaves the child that was never registered
in the record, and the pending reset is lost. -/
theorem cancelled_fire_changes_chain :
    ∃ s', (loopActor (some "old")).run numberedIds
        [.wake loopDue, .queryAnswered (.reply none), .unitAnswered (.reply false), .spawn "new" true,
          .registrationAnswered .cancelled] = .ok s' ∧
      s'.firing.isNone ∧ s'.published.all (fun p => !p.settled) ∧
      (loopActor (some "old")).chainOf "loop" = some ⟨some "old", 3, true⟩ ∧
      s'.chainOf "loop" = some ⟨some "new", 1, false⟩ := by
  refine ⟨_, rfl, ?_⟩
  decide +kernel

end Ezer.Scheduler
