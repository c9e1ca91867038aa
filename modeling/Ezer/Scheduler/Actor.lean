import Ezer.Scheduler.Clock

/-!
# The scheduler actor

The actor takes commands one after the other and wakes up for the tasks that are
due. A fire goes through several stages, in each of which it waits for an
answer; what the actor sends and commits is kept in order.
-/

namespace Ezer.Scheduler

/-- The number of tasks there may be. -/
def maxScheduledTasks : ℕ := 50

/-- The number of iterations after which a loop starts a fresh transcript. -/
def loopFreshChainEvery : UInt32 := 10

/-- An interval in words. -/
def intervalToHuman (secs : UInt64) : String :=
  if secs % 86400 = 0 then
    let n := secs / 86400
    if n = 1 then "every 1 day" else s!"every {n} days"
  else if secs % 3600 = 0 then
    let n := secs / 3600
    if n = 1 then "every 1 hour" else s!"every {n} hours"
  else if secs % 60 = 0 then
    let n := secs / 60
    if n = 1 then "every 1 minute" else s!"every {n} minutes"
  else if secs = 1 then "every 1 second"
  else s!"every {secs} seconds"

namespace ScheduledTask

/-- The number of units of time in a second. -/
def unitsPerSecond : ℤ := 1000000000

/-- When a task fires next. -/
def nextFireAt (task : ScheduledTask ℤ) : ℤ :=
  task.lastFiredAt.getD task.createdAt + unitsPerSecond * task.intervalSecs.toNat

/-- When the actor must wake up for a task: for its next fire or for its end. -/
def nextWakeAt (task : ScheduledTask ℤ) : ℤ :=
  match task.expiresAt with
  | some expiresAt => min task.nextFireAt expiresAt
  | none => task.nextFireAt

/-- Whether the time of a task is over. -/
def isExpired (task : ScheduledTask ℤ) (now : ℤ) : Bool :=
  match task.expiresAt with
  | some expiresAt => decide (expiresAt ≤ now)
  | none => false

end ScheduledTask

/-- Why a task is no longer there. -/
inductive ScheduledTaskRemovedReason where
  | completed
  | expired
  | deleted
  | shutdown
  deriving DecidableEq

/-- What the actor tells about its tasks. -/
inductive SchedulerNotice where
  | created (taskId prompt humanSchedule : String) (nextFireAt : Option ℤ)
  | fired (taskId prompt humanSchedule : String) (nextFireAt : Option ℤ)
      (subagentId : Option String)
  | removed (taskId : String) (reason : ScheduledTaskRemovedReason)
  deriving DecidableEq

/-- What the actor tells about a task that was created, updated or announced again. -/
def taskCreatedPayload (task : ScheduledTask ℤ) : SchedulerNotice :=
  .created task.id task.prompt (intervalToHuman task.intervalSecs) (some task.nextFireAt)

/-- How a notice was sent: to repeat what is known, for a transition, or for a transition that is
made when the notice is acknowledged. -/
inductive Delivery where
  | announcement
  | plain
  | acknowledged (received : Bool)
  deriving DecidableEq

/-- A notice under a version. -/
structure Publication (υ : Type) where
  notice : SchedulerNotice
  version : SchedulerVersion υ
  delivery : Delivery

/-- Whether a notice belongs to a transition that was made. -/
def Publication.settled {υ : Type} (p : Publication υ) : Bool :=
  match p.delivery with
  | .announcement => false
  | .plain => true
  | .acknowledged received => received

/-- What the scheduler refuses or fails with. -/
inductive SchedulerError where
  | taskLimitReached (limit : ℕ)
  | taskNotFound (id : String)
  | persistence
  | notification
  | noDurableNotificationConsumer
  | removalPending (taskId : String)
  | cancelled
  | timeout

/-- How saving a durable expiry ended. -/
inductive ExpiryPersistenceOutcome where
  | committed
  | notCommitted
  | unknown

/-- How a subagent stands when it is asked for. -/
inductive SubagentSnapshotStatus where
  | initializing
  | running
  | completed (output : String)
  | failed
  | cancelled

/-- An answer about a subagent. -/
structure SubagentSnapshot where
  subagentId : String
  status : SubagentSnapshotStatus

/-- Whether a subagent was not yet done when it was asked for. -/
def SubagentSnapshot.inFlight (snapshot : SubagentSnapshot) : Bool :=
  match snapshot.status with
  | .initializing => true
  | .running => true
  | _ => false

/-- What comes back on a question to the coordinator. -/
inductive Answer (α : Type) where
  | notSent
  | cancelled
  | dropped
  | timedOut
  | reply (value : α)

/-- The spawn of one iteration of a loop. -/
structure LoopSpawn where
  id : String
  loopTaskId : String
  resumeFrom : Option String
  priorSummary : Option String

/-- Where a fire stands. -/
inductive FireStage where
  | querying
  | checkingUnit (previous : Option SubagentSnapshot)
  | spawning (previous : Option SubagentSnapshot)
  | registering (request : LoopSpawn)

/-- A removal that was asked for and not yet made. -/
structure PendingDurableRemoval (υ : Type) where
  taskId : String
  reservation : SchedulerReservation υ

/-- A fire that is under way, with the task as it was when it started. -/
structure Firing (υ : Type) where
  taskId : String
  prompt : String
  humanSchedule : String
  nextFireAt : Option ℤ
  shouldRemove : Bool
  lastSubagentId : Option String
  iterationsSinceFresh : UInt32
  chainResetPending : Bool
  reservation : SchedulerReservation υ
  stage : FireStage

/-- The actor, with what it has published and committed. -/
structure SchedulerActor (υ : Type) where
  tasks : List (ScheduledTask ℤ)
  clock : SchedulerClock υ
  pendingRemoval : Option (PendingDurableRemoval υ) := none
  blockedExpiries : List String := []
  firing : Option (Firing υ) := none
  stopped : Bool := false
  published : List (Publication υ) := []
  commits : List (SchedulerVersion υ) := []

/-- What the surroundings answer while a task is deleted. -/
structure DeleteAnswers where
  /-- Whether there is a consumer that acknowledges, when the command arrives and right after. -/
  durableTargets : Bool
  durableTargetsAfter : Bool
  persisted : Except SchedulerError Unit
  acknowledged : Except SchedulerError Unit

/-- What the surroundings answer when the actor wakes up. -/
structure WakeAnswers where
  now : ℤ
  durableTargets : Bool
  persisted : ExpiryPersistenceOutcome
  acknowledged : Except SchedulerError Unit
  /-- Whether there are a coordinator and a session. -/
  wired : Bool

/-- What the actor takes in. -/
inductive SchedulerInput where
  | start (now : ℤ)
  | create (task : ScheduledTask ℤ)
  | update (id : String) (prompt : Option String) (intervalSecs : Option UInt64) (now : ℤ)
  | delete (id : String) (answers : DeleteAnswers)
  | list
  | wake (answers : WakeAnswers)
  | queryAnswered (answer : Answer (Option SubagentSnapshot))
  | unitAnswered (answer : Answer Bool)
  | spawn (subagentId : String) (sent : Bool)
  | registrationAnswered (answer : Answer Unit)
  | iterationFailed (subagentId : String)
  | cancelled

/-- What the actor replies to a command. -/
inductive SchedulerReply (υ : Type) where
  | none
  | task (result : Except SchedulerError (ScheduledTask ℤ))
  | deleted (result : Except SchedulerError Bool)
  | snapshot (version : SchedulerVersion υ) (tasks : List (ScheduledTask ℤ))

/-- The first characters of a text, with a mark where it goes on. -/
def truncateChars (s : String) (maxChars : ℕ) : String :=
  if s.length ≤ maxChars then s else String.ofList (s.toList.take maxChars) ++ "…"

/-- A result, unless an assertion of the clock fails. -/
abbrev Checked : Type → Type := Except ReservationAssertion

namespace SchedulerActor

variable {υ : Type} [DecidableEq υ] (ids : GenerationSource υ)

/-- Send a notice that repeats what is known under the present version. -/
def announce (s : SchedulerActor υ) (notice : SchedulerNotice) : SchedulerActor υ :=
  { s with published := s.published ++ [⟨notice, s.clock.version, .announcement⟩] }

/-- Keep versions for some transitions. -/
def prepareTransition (s : SchedulerActor υ) (count : ℕ) :
    Checked (SchedulerReservation υ × SchedulerActor υ) :=
  (s.clock.prepareTransition ids count).map fun result => (result.1, { s with clock := result.2 })

/-- Commit the next version of a reservation. -/
def commitNext (s : SchedulerActor υ) (r : SchedulerReservation υ) :
    Checked (SchedulerVersion υ × SchedulerReservation υ × SchedulerActor υ) :=
  (r.commitNext s.clock).map fun result =>
    (result.1.version, result.2.1,
      { s with clock := result.2.2, commits := s.commits ++ [result.1.version] })

/-- Commit the next version of a reservation and send a notice under it. -/
def commitAndSend (s : SchedulerActor υ) (r : SchedulerReservation υ) (notice : SchedulerNotice) :
    Checked (SchedulerReservation υ × SchedulerActor υ) :=
  (s.commitNext r).map fun result =>
    (result.2.1,
      { result.2.2 with
        published := result.2.2.published ++ [⟨notice, result.1, .plain⟩] })

/-- Send the removal of a task under the next version of a reservation, which is committed only
when the notice is acknowledged. -/
def publishDurableRemoval (s : SchedulerActor υ) (r : SchedulerReservation υ) (taskId : String)
    (reason : ScheduledTaskRemovedReason) (acknowledged : Except SchedulerError Unit) :
    Checked (SchedulerActor υ) :=
  (r.versionAt 0).map fun version =>
    { s with
      published := s.published ++
        [⟨.removed taskId reason, version, .acknowledged acknowledged.toBool⟩] }

/-- Announce the tasks that were loaded. -/
def announceExistingTasks (s : SchedulerActor υ) (now : ℤ) : SchedulerActor υ :=
  (s.tasks.filter fun task => task.recurring || decide (now < task.nextFireAt)).foldl
    (fun s task => s.announce (taskCreatedPayload task)) s

/-- Try to make the removal that is pending. -/
def completePendingRemoval (s : SchedulerActor υ) (pending : PendingDurableRemoval υ)
    (durableTargets : Bool) (answers : DeleteAnswers) :
    Checked (SchedulerReply υ × SchedulerActor υ) :=
  if durableTargets = false then
    .ok (.deleted (.error .noDurableNotificationConsumer), { s with pendingRemoval := none })
  else
    match answers.persisted with
    | .error error => .ok (.deleted (.error error), s)
    | .ok () => do
      let s ← s.publishDurableRemoval pending.reservation pending.taskId .deleted
        answers.acknowledged
      match answers.acknowledged with
      | .error error => return (.deleted (.error error), s)
      | .ok () =>
        let (_, _, s) ← commitNext { s with pendingRemoval := none } pending.reservation
        return (.deleted (.ok true), s)

/-- Create a task. -/
def create (s : SchedulerActor υ) (task : ScheduledTask ℤ) :
    Checked (SchedulerReply υ × SchedulerActor υ) :=
  match s.pendingRemoval with
  | some pending => .ok (.task (.error (.removalPending pending.taskId)), s)
  | none =>
    if maxScheduledTasks ≤ s.tasks.length then
      .ok (.task (.error (.taskLimitReached maxScheduledTasks)), s)
    else do
      let (r, s) ← s.prepareTransition ids 1
      let (_, s) ← commitAndSend { s with tasks := s.tasks ++ [task] } r (taskCreatedPayload task)
      return (.task (.ok task), s)

/-- Change the prompt of a task; a new prompt is a new job. -/
def withPrompt (task : ScheduledTask ℤ) : Option String → ScheduledTask ℤ
  | none => task
  | some prompt =>
    if prompt ≠ task.prompt then
      { task with prompt, chainResetPending := true, iterationsSinceFresh := 0 }
    else { task with prompt }

/-- Change the interval of a task. -/
def withInterval (task : ScheduledTask ℤ) (now : ℤ) : Option UInt64 → ScheduledTask ℤ
  | none => task
  | some intervalSecs =>
    let task := { task with intervalSecs }
    if task.nextFireAt ≤ now then { task with lastFiredAt := some now } else task

/-- Change a task. -/
def update (s : SchedulerActor υ) (id : String) (prompt : Option String)
    (intervalSecs : Option UInt64) (now : ℤ) :
    Checked (SchedulerReply υ × SchedulerActor υ) :=
  match s.pendingRemoval with
  | some pending => .ok (.task (.error (.removalPending pending.taskId)), s)
  | none =>
    match s.tasks.findIdx? fun task => task.id == id with
    | none => .ok (.task (.error (.taskNotFound id)), s)
    | some index => do
      let (r, s) ← s.prepareTransition ids 1
      match s.tasks[index]? with
      | none => return (.task (.error (.taskNotFound id)), s)
      | some task =>
        let updated := withInterval (withPrompt task prompt) now intervalSecs
        let (_, s) ← commitAndSend { s with tasks := s.tasks.set index updated } r
          (taskCreatedPayload updated)
        return (.task (.ok updated), s)

/-- Delete a task. -/
def delete (s : SchedulerActor υ) (id : String) (answers : DeleteAnswers) :
    Checked (SchedulerReply υ × SchedulerActor υ) :=
  match s.pendingRemoval with
  | some pending =>
    if pending.taskId = id then s.completePendingRemoval pending answers.durableTargets answers
    else .ok (.deleted (.error (.removalPending pending.taskId)), s)
  | none =>
    match s.tasks.findIdx? fun task => task.id == id with
    | none => .ok (.deleted (.ok false), s)
    | some index =>
      if answers.durableTargets = false then
        .ok (.deleted (.error .noDurableNotificationConsumer), s)
      else do
        let (r, s) ← prepareTransition ids { s with tasks := s.tasks.eraseIdx index } 1
        let pending : PendingDurableRemoval υ := ⟨id, r⟩
        completePendingRemoval { s with pendingRemoval := some pending } pending
          answers.durableTargetsAfter answers

/-- Give a fire up: the task is announced again with its new cadence. -/
def skipFire (s : SchedulerActor υ) (firing : Firing υ) : SchedulerActor υ :=
  let s := { s with firing := none }
  match s.tasks.find? fun task => task.id == firing.taskId with
  | none => s
  | some task => s.announce (taskCreatedPayload task)

/-- Remove a recurring task whose time is over and that must not come back. -/
def expireDurably (s : SchedulerActor υ) (index : ℕ) (task : ScheduledTask ℤ)
    (answers : WakeAnswers) : Checked (SchedulerActor υ) :=
  if answers.durableTargets = false then
    .ok { s with blockedExpiries := task.id :: s.blockedExpiries }
  else do
    let (r, removed) ← prepareTransition ids { s with tasks := s.tasks.eraseIdx index } 1
    match answers.persisted with
    | .notCommitted =>
      return { removed with
        tasks := removed.tasks.insertIdx index task,
        blockedExpiries := task.id :: removed.blockedExpiries }
    | .unknown => return removed
    | .committed =>
      let published ← removed.publishDurableRemoval r task.id .expired answers.acknowledged
      match answers.acknowledged with
      | .error _ => return published
      | .ok () =>
        let (_, _, s) ← published.commitNext r
        return s

/-- Remove a recurring task whose time is over. -/
def expire (s : SchedulerActor υ) (index : ℕ) (task : ScheduledTask ℤ) :
    Checked (SchedulerActor υ) := do
  let (r, s) ← s.prepareTransition ids 1
  let (_, s) ← commitAndSend { s with tasks := s.tasks.eraseIdx index } r
    (.removed task.id .expired)
  return s

/-- Start to fire a task. -/
def startFire (s : SchedulerActor υ) (index : ℕ) (task : ScheduledTask ℤ) (now : ℤ)
    (wired : Bool) : Checked (SchedulerActor υ) := do
  let (r, s) ← s.prepareTransition ids (if task.recurring then 1 else 2)
  let fired := { task with lastFiredAt := some now }
  let firing : Firing υ :=
    { taskId := task.id,
      prompt := task.prompt,
      humanSchedule := intervalToHuman task.intervalSecs,
      nextFireAt := if task.recurring then some fired.nextFireAt else none,
      shouldRemove := !task.recurring,
      lastSubagentId := task.lastSubagentId,
      iterationsSinceFresh := task.iterationsSinceFresh,
      chainResetPending := task.chainResetPending,
      reservation := r,
      stage := if task.lastSubagentId.isSome then .querying else .spawning none }
  let s := { s with tasks := s.tasks.set index fired }
  if wired then return { s with firing := some firing } else return s.skipFire firing

/-- Wake up for the first task that is due. -/
def fireNextTask (s : SchedulerActor υ) (answers : WakeAnswers) :
    Checked (SchedulerActor υ) :=
  match s.tasks.findIdx? fun task =>
      decide (task.nextWakeAt ≤ answers.now) && !s.blockedExpiries.contains task.id with
  | none => .ok s
  | some index =>
    match s.tasks[index]? with
    | none => .ok s
    | some task =>
      if task.recurring && task.isExpired answers.now then
        if task.durable then s.expireDurably ids index task answers else s.expire ids index task
      else s.startFire ids index task answers.now answers.wired

/-- The answer about the previous iteration. -/
def queryAnswered (s : SchedulerActor υ) (firing : Firing υ) :
    Answer (Option SubagentSnapshot) → SchedulerActor υ
  | .reply snapshot =>
    if snapshot.any SubagentSnapshot.inFlight then s.skipFire firing
    else { s with firing := some { firing with stage := .checkingUnit snapshot } }
  | _ => s.skipFire firing

/-- The answer about the descendants of the previous iteration. -/
def unitAnswered (s : SchedulerActor υ) (firing : Firing υ) (previous : Option SubagentSnapshot) :
    Answer Bool → SchedulerActor υ
  | .reply false => { s with firing := some { firing with stage := .spawning previous } }
  | _ => s.skipFire firing

/-- The output of the previous iteration, if it completed. -/
def previousOutput : Option SubagentSnapshot → Option String
  | some ⟨_, .completed output⟩ => some output
  | _ => none

/-- What a new iteration starts from: what it resumes, what it is told, and its number. -/
def chain (firing : Firing υ) (previous : Option SubagentSnapshot) :
    Option String × Option String × UInt32 :=
  let output := previousOutput previous
  if firing.chainResetPending then (none, none, 1)
  else if decide (loopFreshChainEvery ≤ firing.iterationsSinceFresh) ||
      !(output.isSome && firing.lastSubagentId.isSome) then
    (none, output.map (truncateChars · 600), 1)
  else (firing.lastSubagentId, none, firing.iterationsSinceFresh + 1)

/-- Change the first task with an id. -/
def updateTask (tasks : List (ScheduledTask ℤ)) (p : ScheduledTask ℤ → Bool)
    (f : ScheduledTask ℤ → ScheduledTask ℤ) : List (ScheduledTask ℤ) :=
  match tasks with
  | [] => []
  | task :: tasks => if p task then f task :: tasks else task :: updateTask tasks p f

/-- Put back what a task recorded before a fire. -/
def restoreFireAnchor (s : SchedulerActor υ) (firing : Firing υ) : SchedulerActor υ :=
  { s with
    tasks := updateTask s.tasks (fun task => task.id == firing.taskId) fun task =>
      { task with
        lastSubagentId := firing.lastSubagentId,
        iterationsSinceFresh := firing.iterationsSinceFresh,
        chainResetPending := firing.chainResetPending } }

/-- Record the new iteration and send its spawn. -/
def spawnIteration (s : SchedulerActor υ) (firing : Firing υ) (previous : Option SubagentSnapshot)
    (subagentId : String) (sent : Bool) : SchedulerActor υ :=
  let (resumeFrom, priorSummary, iterations) := chain firing previous
  if s.tasks.any fun task => task.id == firing.taskId then
    let anchored :=
      { s with
        tasks := updateTask s.tasks (fun task => task.id == firing.taskId) fun task =>
          { task with
            lastSubagentId := some subagentId,
            iterationsSinceFresh := iterations,
            chainResetPending := false } }
    if sent then
      let request : LoopSpawn := ⟨subagentId, firing.taskId, resumeFrom, priorSummary⟩
      { anchored with firing := some { firing with stage := .registering request } }
    else (anchored.restoreFireAnchor firing).skipFire firing
  else s.skipFire firing

/-- Tell that a task has fired, and remove it if it was a one-shot. -/
def completeFire (s : SchedulerActor υ) (firing : Firing υ) (subagentId : String) :
    Checked (SchedulerActor υ) := do
  let (r, s) ← commitAndSend { s with firing := none } firing.reservation
    (.fired firing.taskId firing.prompt firing.humanSchedule firing.nextFireAt (some subagentId))
  if firing.shouldRemove then
    let (_, s) ← commitAndSend
      { s with tasks := s.tasks.filter fun task => task.id != firing.taskId } r
      (.removed firing.taskId .completed)
    return s
  else return s

/-- The answer about the registration of an iteration. -/
def registrationAnswered (s : SchedulerActor υ) (firing : Firing υ) (request : LoopSpawn) :
    Answer Unit → Checked (SchedulerActor υ)
  | .reply () => s.completeFire firing request.id
  | .timedOut => s.completeFire firing request.id
  | .dropped => .ok ((s.restoreFireAnchor firing).skipFire firing)
  | .notSent => .ok ((s.restoreFireAnchor firing).skipFire firing)
  | .cancelled => .ok (s.skipFire firing)

/-- Forget an iteration that failed. -/
def iterationFailed (s : SchedulerActor υ) (subagentId : String) : SchedulerActor υ :=
  { s with
    tasks := updateTask s.tasks (fun task => task.lastSubagentId == some subagentId) fun task =>
      { task with lastSubagentId := none, iterationsSinceFresh := 0 } }

/-- Tell that the remaining tasks go away with the actor, one after the other. -/
def removeAll (s : SchedulerActor υ) (r : SchedulerReservation υ) :
    List String → Checked (SchedulerActor υ)
  | [] => .ok s
  | taskId :: taskIds => do
    let (r, s) ← s.commitAndSend r (.removed taskId .shutdown)
    removeAll s r taskIds

/-- Stop the actor. -/
def shutdown (s : SchedulerActor υ) : Checked (SchedulerActor υ) :=
  let s := { s with stopped := true }
  match s.tasks.map ScheduledTask.id with
  | [] => .ok s
  | taskIds => do
    let (r, s) ← s.prepareTransition ids taskIds.length
    s.removeAll r taskIds

/-- One step of the actor; what it does not wait for in its present state stays out. -/
def step (s : SchedulerActor υ) (input : SchedulerInput) :
    Checked (SchedulerReply υ × SchedulerActor υ) :=
  if s.stopped then .ok (.none, s)
  else
    match s.firing, input with
    | _, .iterationFailed subagentId => .ok (.none, s.iterationFailed subagentId)
    | none, .start now => .ok (.none, s.announceExistingTasks now)
    | none, .create task => s.create ids task
    | none, .update id prompt intervalSecs now => s.update ids id prompt intervalSecs now
    | none, .delete id answers => s.delete ids id answers
    | none, .list => .ok (.snapshot s.clock.version s.tasks, s)
    | none, .wake answers =>
      if s.pendingRemoval.isSome then .ok (.none, s)
      else (s.fireNextTask ids answers).map fun s => (.none, s)
    | none, .cancelled => (s.shutdown ids).map fun s => (.none, s)
    | some firing, .queryAnswered answer =>
      match firing.stage with
      | .querying => .ok (.none, s.queryAnswered firing answer)
      | _ => .ok (.none, s)
    | some firing, .unitAnswered answer =>
      match firing.stage with
      | .checkingUnit previous => .ok (.none, s.unitAnswered firing previous answer)
      | _ => .ok (.none, s)
    | some firing, .spawn subagentId sent =>
      match firing.stage with
      | .spawning previous => .ok (.none, s.spawnIteration firing previous subagentId sent)
      | _ => .ok (.none, s)
    | some firing, .registrationAnswered answer =>
      match firing.stage with
      | .registering request =>
        (s.registrationAnswered firing request answer).map fun s => (.none, s)
      | _ => .ok (.none, s)
    | _, _ => .ok (.none, s)

/-- A run of the actor. -/
def run (s : SchedulerActor υ) : List SchedulerInput → Checked (SchedulerActor υ)
  | [] => .ok s
  | input :: inputs => do
    let (_, s) ← s.step ids input
    run s inputs

/-- The actor with the tasks that were loaded. -/
def load (ids : GenerationSource υ) (tasks : List (ScheduledTask ℤ)) : SchedulerActor υ :=
  { tasks, clock := .new ids }

end SchedulerActor

end Ezer.Scheduler
