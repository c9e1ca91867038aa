import Ezer.Scheduler.Actor
import Mathlib.Data.List.Nodup

/-!
# Versions of the transitions

Whatever the actor meets, no assertion of the clock fails, and the notices of
the transitions that were made carry the committed versions in their order.
-/

namespace Ezer.Scheduler

variable {υ : Type} {ids : GenerationSource υ}

/-- Which notices can be sent in which way. -/
def Publication.Fits (p : Publication υ) : Prop :=
  match p.delivery with
  | .announcement => ∃ task, p.notice = taskCreatedPayload task
  | .plain => True
  | .acknowledged _ => ∃ taskId, p.notice = .removed taskId .expired ∨
      p.notice = .removed taskId .deleted

/-- What was committed and sent up to now agrees with the clock. -/
structure Chronicle (ids : GenerationSource υ) (clock : SchedulerClock υ)
    (commits : List (SchedulerVersion υ)) (published : List (Publication υ)) : Prop where
  generation : ∃ k, clock.InGeneration ids k
  passed : ∀ v ∈ commits, clock.Passed ids v
  increasing : commits.Pairwise SchedulerVersion.Before
  settled : (published.filter Publication.settled).map Publication.version = commits
  fits : ∀ p ∈ published, p.Fits

namespace Chronicle

variable {clock : SchedulerClock υ} {commits : List (SchedulerVersion υ)}
  {published : List (Publication υ)}

/-- Drawing generation ids changes nothing about the past. -/
theorem draw (h : Chronicle ids clock commits published) {drawn : ℕ} (hdrawn : clock.drawn ≤ drawn) :
    Chronicle ids { clock with drawn } commits published := by
  obtain ⟨k, hk⟩ := h.generation
  exact ⟨⟨k, hk.mono hdrawn⟩, fun v hv => (h.passed v hv).mono hdrawn, h.increasing, h.settled,
    h.fits⟩

/-- A notice for which no transition was made adds nothing to the past. -/
theorem send (h : Chronicle ids clock commits published) {p : Publication υ}
    (hp : p.settled = false) (hfits : p.Fits) :
    Chronicle ids clock commits (published ++ [p]) := by
  refine ⟨h.generation, h.passed, h.increasing, ?_, ?_⟩
  · rw [List.filter_append, List.filter_singleton, hp]
    simpa using h.settled
  · intro q hq
    rcases List.mem_append.mp hq with hold | hnew
    · exact h.fits q hold
    · rwa [List.mem_singleton.mp hnew]

/-- A commit with its notice extends the past. -/
theorem commit (h : Chronicle ids clock commits published) {r : SchedulerReservation υ}
    (hr : r.Current ids clock) {p : Publication υ} (hp : p.settled = true)
    (hversion : p.version = r.nextVersion) (hfits : p.Fits) :
    Chronicle ids { clock with version := r.nextVersion } (commits ++ [r.nextVersion])
      (published ++ [p]) := by
  obtain ⟨k, hk⟩ := h.generation
  obtain ⟨m, -, hm⟩ := SchedulerClock.exists_inGeneration_next hr hk
  refine ⟨⟨m, hm⟩, ?_, ?_, ?_, ?_⟩
  · intro v hv
    rcases List.mem_append.mp hv with hold | hnew
    · exact (h.passed v hold).next hr
    · rw [List.mem_singleton.mp hnew]
      exact SchedulerClock.passed_next hr hk
  · rw [List.pairwise_append]
    refine ⟨h.increasing, List.pairwise_singleton _ _, ?_⟩
    intro v hv w hw
    rw [List.mem_singleton.mp hw]
    exact (h.passed v hv).before hr
  · rw [List.filter_append, List.filter_singleton, hp, List.map_append, h.settled]
    simp [hversion]
  · intro q hq
    rcases List.mem_append.mp hq with hold | hnew
    · exact h.fits q hold
    · rwa [List.mem_singleton.mp hnew]

end Chronicle

/-- A reservation for some transitions can be committed. -/
structure Reserved (ids : GenerationSource υ) (clock : SchedulerClock υ)
    (r : SchedulerReservation υ) (count : ℕ) : Prop where
  current : 0 < count → r.Current ids clock
  remaining : r.remaining.toNat = count

/-- What holds between the steps of the actor. -/
structure Sound (ids : GenerationSource υ) (s : SchedulerActor υ) : Prop where
  chronicle : Chronicle ids s.clock s.commits s.published
  size : s.tasks.length ≤ maxScheduledTasks
  pending : s.stopped = false → ∀ pending, s.pendingRemoval = some pending →
    Reserved ids s.clock pending.reservation 1
  firing : ∀ firing, s.firing = some firing →
    Reserved ids s.clock firing.reservation (if firing.shouldRemove then 2 else 1)
  exclusive : s.firing.isSome = true → s.pendingRemoval = none

namespace SchedulerActor

variable {s : SchedulerActor υ}

variable {count : ℕ}

/-- Versions can be kept for any fitting number of transitions. -/
theorem prepareTransition_spec (h : Chronicle ids s.clock s.commits s.published)
    (hpos : 0 < count) (hfits : count ≤ maxSchedulerTransitions) :
    ∃ r drawn, s.prepareTransition ids count = .ok (r, { s with clock := { s.clock with drawn } }) ∧
      s.clock.drawn ≤ drawn ∧ Reserved ids { s.clock with drawn } r count := by
  obtain ⟨k, hk⟩ := h.generation
  obtain ⟨r, drawn, hprepare, hdrawn, hremaining, hcurrent⟩ :=
    SchedulerClock.prepareTransition_spec hk hpos hfits
  refine ⟨r, drawn, ?_, hdrawn, fun _ => hcurrent, hremaining⟩
  rw [prepareTransition, hprepare]
  rfl

/-- The removal of a task is sent under the version that is kept for it. -/
theorem publishDurableRemoval_spec {r : SchedulerReservation υ}
    (h : Reserved ids s.clock r (count + 1)) (taskId : String)
    (reason : ScheduledTaskRemovedReason) (acknowledged : Except SchedulerError Unit) :
    s.publishDurableRemoval r taskId reason acknowledged = .ok { s with
      published := s.published ++
        [⟨.removed taskId reason, r.nextVersion, .acknowledged acknowledged.toBool⟩] } := by
  have hremaining : 0 < r.remaining := by
    rw [UInt64.lt_iff_toNat_lt, h.remaining]
    exact Nat.succ_pos count
  rw [publishDurableRemoval, SchedulerReservation.versionAt_zero hremaining]
  rfl

variable [DecidableEq υ]

/-- A commit of a kept version succeeds. -/
theorem commitNext_spec {r : SchedulerReservation υ} (h : Reserved ids s.clock r (count + 1)) :
    ∃ r', s.commitNext r = .ok (r.nextVersion, r',
        { s with
          clock := { s.clock with version := r.nextVersion },
          commits := s.commits ++ [r.nextVersion] }) ∧
      Reserved ids { s.clock with version := r.nextVersion } r' count := by
  have hremaining : 0 < r.remaining := by
    rw [UInt64.lt_iff_toNat_lt, h.remaining]
    exact Nat.succ_pos count
  obtain ⟨r', hcommit, hless, hcurrent⟩ := (h.current (Nat.succ_pos count)).commitNext hremaining
  have hcount : r'.remaining.toNat = count := by
    rw [hless, UInt64.toNat_sub_of_le, h.remaining]
    · rfl
    · rw [UInt64.le_iff_toNat_le, h.remaining]
      exact Nat.succ_pos count
  refine ⟨r', ?_, fun hpos => hcurrent ?_, hcount⟩
  · rw [commitNext, hcommit]
    rfl
  · rw [UInt64.lt_iff_toNat_lt, hcount]
    exact hpos

/-- A commit with its notice succeeds and extends the past. -/
theorem commitAndSend_spec {r : SchedulerReservation υ}
    (h : Reserved ids s.clock r (count + 1)) (hc : Chronicle ids s.clock s.commits s.published)
    (notice : SchedulerNotice) :
    ∃ r' s', s.commitAndSend r notice = .ok (r', s') ∧
      s' = { s with
        clock := { s.clock with version := r.nextVersion },
        commits := s.commits ++ [r.nextVersion],
        published := s.published ++ [⟨notice, r.nextVersion, .plain⟩] } ∧
      Reserved ids s'.clock r' count ∧ Chronicle ids s'.clock s'.commits s'.published := by
  obtain ⟨r', hcommit, hreserved⟩ := commitNext_spec h
  refine ⟨r', _, ?_, rfl, hreserved, ?_⟩
  · rw [commitAndSend, hcommit]
    rfl
  · exact hc.commit (h.current (Nat.succ_pos count)) rfl rfl trivial

end SchedulerActor

/-- A step that succeeds and leaves the actor sound. -/
def Fine (ids : GenerationSource υ) (result : Checked (SchedulerActor υ)) : Prop :=
  ∃ s, result = .ok s ∧ Sound ids s

/-- A step with a reply that succeeds and leaves the actor sound. -/
def FineReply (ids : GenerationSource υ)
    (result : Checked (SchedulerReply υ × SchedulerActor υ)) : Prop :=
  ∃ reply s, result = .ok (reply, s) ∧ Sound ids s

namespace Sound

variable {s : SchedulerActor υ}

/-- A sound actor that replies without a transition. -/
theorem reply (h : Sound ids s) (reply : SchedulerReply υ) : FineReply ids (.ok (reply, s)) :=
  ⟨reply, s, rfl, h⟩

/-- An actor that waits for nothing is sound if its past is. -/
theorem of_idle (hc : Chronicle ids s.clock s.commits s.published)
    (hsize : s.tasks.length ≤ maxScheduledTasks) (hpending : s.pendingRemoval = none)
    (hfiring : s.firing = none) : Sound ids s := by
  refine ⟨hc, hsize, fun _ pending h => ?_, fun firing h => ?_, fun _ => hpending⟩
  · rw [hpending] at h
    cases h
  · rw [hfiring] at h
    cases h

/-- A notice that repeats what is known leaves the actor sound. -/
theorem announce (h : Sound ids s) (task : ScheduledTask ℤ) :
    Sound ids (s.announce (taskCreatedPayload task)) :=
  ⟨h.chronicle.send rfl ⟨task, rfl⟩, h.size, h.pending, h.firing, h.exclusive⟩

theorem announceExistingTasks (h : Sound ids s) (now : ℤ) :
    Sound ids (s.announceExistingTasks now) := by
  have hfold : ∀ (tasks : List (ScheduledTask ℤ)) {s : SchedulerActor υ}, Sound ids s →
      Sound ids (tasks.foldl (fun s task => s.announce (taskCreatedPayload task)) s) := by
    intro tasks
    induction tasks with
    | nil => exact fun h => h
    | cons task tasks ih => exact fun h => ih (h.announce _)
  exact hfold _ h

/-- A fire that is given up leaves the actor sound. -/
theorem skipFire (h : Sound ids s) (firing : Firing υ) : Sound ids (s.skipFire firing) := by
  have hidle : Sound ids { s with firing := none } := by
    refine ⟨h.chronicle, h.size, h.pending, fun firing hnone => ?_, fun hnone => ?_⟩
    · cases hnone
    · cases hnone
  unfold SchedulerActor.skipFire
  dsimp only
  split
  · exact hidle
  · exact hidle.announce _

/-- The tasks may change as long as there are not too many. -/
theorem withTasks (h : Sound ids s) {tasks : List (ScheduledTask ℤ)}
    (htasks : tasks.length ≤ maxScheduledTasks) : Sound ids { s with tasks } :=
  ⟨h.chronicle, htasks, h.pending, h.firing, h.exclusive⟩

variable {firing : Firing υ}

/-- The fire that is under way may get to another stage. -/
theorem withStage (h : Sound ids s) (hfiring : s.firing = some firing)
    (stage : FireStage) : Sound ids { s with firing := some { firing with stage } } := by
  refine ⟨h.chronicle, h.size, h.pending, fun other hother => ?_, fun _ => ?_⟩
  · cases hother
    exact h.firing firing hfiring
  · exact h.exclusive (by rw [hfiring]; rfl)

theorem startFire (h : Sound ids s) (hpending : s.pendingRemoval = none) (hfiring : s.firing = none)
    (index : ℕ) (task : ScheduledTask ℤ) (now : ℤ) (wired : Bool) :
    Fine ids (s.startFire ids index task now wired) := by
  have hcount : 0 < (if task.recurring then 1 else 2) := by split <;> decide
  have hfits : (if task.recurring then 1 else 2) ≤ maxSchedulerTransitions := by split <;> decide
  obtain ⟨r, drawn, hprepare, hdrawn, hr⟩ :=
    SchedulerActor.prepareTransition_spec h.chronicle hcount hfits
  have hsize : (s.tasks.set index { task with lastFiredAt := some now }).length ≤
      maxScheduledTasks := by
    rw [List.length_set]
    exact h.size
  have hc := h.chronicle.draw hdrawn
  unfold SchedulerActor.startFire
  rw [hprepare]
  dsimp only [bind, Except.bind]
  split
  · refine ⟨_, rfl, hc, hsize, fun _ pending h => ?_, fun firing h => ?_,
      fun _ => hpending⟩
    · rw [hpending] at h
      cases h
    · cases h
      dsimp only
      cases hrecurring : task.recurring with
      | true | false => simpa [hrecurring] using hr
  · refine ⟨_, rfl, skipFire ?_ _⟩
    exact of_idle hc hsize hpending hfiring

theorem queryAnswered (h : Sound ids s) (hfiring : s.firing = some firing)
    (answer : Answer (Option SubagentSnapshot)) : Sound ids (s.queryAnswered firing answer) := by
  unfold SchedulerActor.queryAnswered
  split
  · split
    · exact h.skipFire firing
    · exact h.withStage hfiring _
  · exact h.skipFire firing

theorem unitAnswered (h : Sound ids s) (hfiring : s.firing = some firing)
    (previous : Option SubagentSnapshot) (answer : Answer Bool) :
    Sound ids (s.unitAnswered firing previous answer) := by
  unfold SchedulerActor.unitAnswered
  split
  · exact h.withStage hfiring _
  · exact h.skipFire firing

theorem length_updateTask (tasks : List (ScheduledTask ℤ)) (p : ScheduledTask ℤ → Bool)
    (f : ScheduledTask ℤ → ScheduledTask ℤ) :
    (SchedulerActor.updateTask tasks p f).length = tasks.length := by
  induction tasks with
  | nil => rfl
  | cons task tasks ih =>
    rw [SchedulerActor.updateTask]
    split
    · rfl
    · rw [List.length_cons, ih, List.length_cons]

/-- One task may change. -/
theorem updateTask (h : Sound ids s) (p : ScheduledTask ℤ → Bool)
    (f : ScheduledTask ℤ → ScheduledTask ℤ) :
    Sound ids { s with tasks := SchedulerActor.updateTask s.tasks p f } := by
  apply h.withTasks
  rw [length_updateTask]
  exact h.size

theorem spawnIteration (h : Sound ids s) (hfiring : s.firing = some firing)
    (previous : Option SubagentSnapshot) (subagentId : String) (sent : Bool) :
    Sound ids (s.spawnIteration firing previous subagentId sent) := by
  unfold SchedulerActor.spawnIteration
  dsimp only
  split
  · split
    · exact (h.updateTask _ _).withStage hfiring _
    · exact ((h.updateTask _ _).updateTask _ _).skipFire firing
  · exact h.skipFire firing

/-- An actor that was just started is sound. -/
theorem load (ids : GenerationSource υ) {tasks : List (ScheduledTask ℤ)}
    (htasks : tasks.length ≤ maxScheduledTasks) : Sound ids (.load ids tasks) := by
  refine of_idle ⟨⟨0, Nat.one_pos, rfl⟩, ?_, List.Pairwise.nil, rfl, ?_⟩ htasks rfl rfl
  · intro v hv
    cases hv
  · intro p hp
    cases hp

variable [DecidableEq υ]

theorem create (h : Sound ids s) (hfiring : s.firing = none) (task : ScheduledTask ℤ) :
    FineReply ids (s.create ids task) := by
  unfold SchedulerActor.create
  cases hpending : s.pendingRemoval with
  | some pending => exact h.reply _
  | none =>
    dsimp only
    split
    · exact h.reply _
    · rename_i hroom
      obtain ⟨r, drawn, hprepare, hdrawn, hr⟩ :=
        SchedulerActor.prepareTransition_spec h.chronicle Nat.one_pos (by decide)
      obtain ⟨r', s', hcommit, rfl, -, hc⟩ := SchedulerActor.commitAndSend_spec
        (s := { s with clock := { s.clock with drawn }, tasks := s.tasks ++ [task] }) hr
        (h.chronicle.draw hdrawn) (taskCreatedPayload task)
      rw [hprepare]
      dsimp only [bind, Except.bind]
      rw [hcommit]
      refine ⟨_, _, rfl, of_idle hc ?_ hpending hfiring⟩
      rw [List.length_append, List.length_singleton]
      omega

theorem update (h : Sound ids s) (hfiring : s.firing = none) (id : String) (prompt : Option String)
    (intervalSecs : Option UInt64) (now : ℤ) : FineReply ids (s.update ids id prompt intervalSecs now) := by
  unfold SchedulerActor.update
  cases hpending : s.pendingRemoval with
  | some pending => exact h.reply _
  | none =>
    dsimp only
    split
    · exact h.reply _
    · rename_i index _
      obtain ⟨r, drawn, hprepare, hdrawn, hr⟩ :=
        SchedulerActor.prepareTransition_spec h.chronicle Nat.one_pos (by decide)
      rw [hprepare]
      dsimp only [bind, Except.bind]
      split
      · exact ⟨_, _, rfl, of_idle (h.chronicle.draw hdrawn) h.size hpending hfiring⟩
      · rename_i task _
        let updated := SchedulerActor.withInterval (SchedulerActor.withPrompt task prompt) now
          intervalSecs
        obtain ⟨r', s', hcommit, rfl, -, hc⟩ := SchedulerActor.commitAndSend_spec
          (s := { s with clock := { s.clock with drawn }, tasks := s.tasks.set index updated }) hr
          (h.chronicle.draw hdrawn) (taskCreatedPayload updated)
        rw [hcommit]
        refine ⟨_, _, rfl, of_idle hc ?_ hpending hfiring⟩
        rw [List.length_set]
        exact h.size

/-- A pending removal is given up, tried again or made. -/
theorem completePendingRemoval (h : Sound ids s) (hstopped : s.stopped = false)
    (hfiring : s.firing = none) {pending : PendingDurableRemoval υ}
    (hpending : s.pendingRemoval = some pending) (durableTargets : Bool)
    (answers : DeleteAnswers) :
    FineReply ids (s.completePendingRemoval pending durableTargets answers) := by
  have hr := h.pending hstopped pending hpending
  unfold SchedulerActor.completePendingRemoval
  split
  · exact ⟨_, _, rfl, of_idle h.chronicle h.size rfl hfiring⟩
  · split
    · exact h.reply _
    · rw [SchedulerActor.publishDurableRemoval_spec hr]
      dsimp only [bind, Except.bind]
      cases hacknowledged : answers.acknowledged with
      | error error =>
        exact ⟨_, _, rfl, h.chronicle.send rfl ⟨_, Or.inr rfl⟩, h.size, h.pending, h.firing, h.exclusive⟩
      | ok value =>
        obtain ⟨r', hcommit, -⟩ := SchedulerActor.commitNext_spec
          (s := { s with
            pendingRemoval := none,
            published := s.published ++ [⟨.removed pending.taskId .deleted,
              pending.reservation.nextVersion, .acknowledged (Except.ok value).toBool⟩] }) hr
        dsimp only
        rw [hcommit]
        refine ⟨_, _, rfl, of_idle ?_ h.size rfl hfiring⟩
        exact h.chronicle.commit (hr.current Nat.one_pos) rfl rfl ⟨_, Or.inr rfl⟩

theorem delete (h : Sound ids s) (hstopped : s.stopped = false) (hfiring : s.firing = none)
    (id : String) (answers : DeleteAnswers) : FineReply ids (s.delete ids id answers) := by
  unfold SchedulerActor.delete
  cases hpending : s.pendingRemoval with
  | some pending =>
    dsimp only
    split
    · exact h.completePendingRemoval hstopped hfiring hpending _ _
    · exact h.reply _
  | none =>
    dsimp only
    split
    · exact h.reply _
    · rename_i index _
      split
      · exact h.reply _
      · obtain ⟨r, drawn, hprepare, hdrawn, hr⟩ := SchedulerActor.prepareTransition_spec
          (s := { s with tasks := s.tasks.eraseIdx index }) h.chronicle Nat.one_pos (by decide)
        rw [hpending] at hprepare
        rw [hprepare]
        dsimp only [bind, Except.bind]
        have hbegun : Sound ids { s with
            clock := { s.clock with drawn },
            tasks := s.tasks.eraseIdx index,
            pendingRemoval := some ⟨id, r⟩ } := by
          refine ⟨h.chronicle.draw hdrawn, ?_, fun _ pending h => ?_, fun firing h => ?_,
            fun h => ?_⟩
          · exact Nat.le_trans (List.length_eraseIdx_le _ _) h.size
          · cases h
            exact hr
          · rw [hfiring] at h
            cases h
          · rw [hfiring] at h
            cases h
        exact hbegun.completePendingRemoval hstopped hfiring rfl _ _

theorem expireDurably (h : Sound ids s) (hpending : s.pendingRemoval = none)
    (hfiring : s.firing = none) {index : ℕ} {task : ScheduledTask ℤ}
    (htask : s.tasks[index]? = some task) (answers : WakeAnswers) :
    Fine ids (s.expireDurably ids index task answers) := by
  have hlt : index < s.tasks.length := (List.getElem?_eq_some_iff.mp htask).1
  have herase : (s.tasks.eraseIdx index).length + 1 = s.tasks.length := by
    rw [List.length_eraseIdx_of_lt hlt]
    omega
  have hsize := h.size
  have hafter : (s.tasks.eraseIdx index).length ≤ maxScheduledTasks := by omega
  unfold SchedulerActor.expireDurably
  split
  · exact ⟨_, rfl, of_idle h.chronicle h.size hpending hfiring⟩
  · obtain ⟨r, drawn, hprepare, hdrawn, hr⟩ := SchedulerActor.prepareTransition_spec
      (s := { s with tasks := s.tasks.eraseIdx index }) h.chronicle Nat.one_pos (by decide)
    rw [hprepare]
    dsimp only [bind, Except.bind]
    split
    · refine ⟨_, rfl, of_idle (h.chronicle.draw hdrawn) ?_ hpending hfiring⟩
      rw [List.length_insertIdx_of_le_length (by omega)]
      omega
    · exact ⟨_, rfl, of_idle (h.chronicle.draw hdrawn) hafter hpending hfiring⟩
    · rw [SchedulerActor.publishDurableRemoval_spec hr]
      dsimp only
      cases hacknowledged : answers.acknowledged with
      | error error =>
        exact ⟨_, rfl, of_idle ((h.chronicle.draw hdrawn).send rfl ⟨_, Or.inl rfl⟩) hafter hpending hfiring⟩
      | ok value =>
        obtain ⟨r', hcommit, -⟩ := SchedulerActor.commitNext_spec
          (s := { s with
            clock := { s.clock with drawn },
            tasks := s.tasks.eraseIdx index,
            published := s.published ++ [⟨.removed task.id .expired, r.nextVersion,
              .acknowledged (Except.ok value).toBool⟩] }) hr
        dsimp only
        rw [hcommit]
        refine ⟨_, rfl, of_idle ?_ hafter hpending hfiring⟩
        exact (h.chronicle.draw hdrawn).commit (hr.current Nat.one_pos) rfl rfl ⟨_, Or.inl rfl⟩

theorem expire (h : Sound ids s) (hpending : s.pendingRemoval = none) (hfiring : s.firing = none)
    (index : ℕ) (task : ScheduledTask ℤ) : Fine ids (s.expire ids index task) := by
  obtain ⟨r, drawn, hprepare, hdrawn, hr⟩ :=
    SchedulerActor.prepareTransition_spec h.chronicle Nat.one_pos (by decide)
  obtain ⟨r', s', hcommit, rfl, -, hc⟩ := SchedulerActor.commitAndSend_spec
    (s := { s with clock := { s.clock with drawn }, tasks := s.tasks.eraseIdx index }) hr
    (h.chronicle.draw hdrawn) (.removed task.id .expired)
  unfold SchedulerActor.expire
  rw [hprepare]
  dsimp only [bind, Except.bind]
  rw [hcommit]
  refine ⟨_, rfl, of_idle hc ?_ hpending hfiring⟩
  exact Nat.le_trans (List.length_eraseIdx_le _ _) h.size

theorem fireNextTask (h : Sound ids s) (hpending : s.pendingRemoval = none)
    (hfiring : s.firing = none) (answers : WakeAnswers) : Fine ids (s.fireNextTask ids answers) := by
  unfold SchedulerActor.fireNextTask
  split
  · exact ⟨s, rfl, h⟩
  · split
    · exact ⟨s, rfl, h⟩
    · rename_i index _ task htask
      split
      · split
        · exact h.expireDurably hpending hfiring htask answers
        · exact h.expire hpending hfiring _ _
      · exact h.startFire hpending hfiring _ _ _ _

theorem completeFire (h : Sound ids s) (hfiring : s.firing = some firing)
    (subagentId : String) : Fine ids (s.completeFire firing subagentId) := by
  have hpending := h.exclusive (by rw [hfiring]; rfl)
  have hreserved := h.firing firing hfiring
  obtain ⟨count, hcount, hrest⟩ : ∃ count, (if firing.shouldRemove then 2 else 1) = count + 1 ∧
      (firing.shouldRemove = true → count = 1) := by
    cases firing.shouldRemove with
    | true => exact ⟨1, rfl, fun _ => rfl⟩
    | false => exact ⟨0, rfl, fun h => by cases h⟩
  rw [hcount] at hreserved
  obtain ⟨r, s₁, hcommit, rfl, hr, hc⟩ := SchedulerActor.commitAndSend_spec
    (s := { s with firing := none }) hreserved h.chronicle (.fired firing.taskId firing.prompt
      firing.humanSchedule firing.nextFireAt (some subagentId))
  unfold SchedulerActor.completeFire
  rw [hcommit]
  dsimp only [bind, Except.bind]
  split
  · rename_i hremove
    rw [hrest hremove] at hr
    obtain ⟨r', s₂, hcommit', rfl, -, hc'⟩ := SchedulerActor.commitAndSend_spec
      (s := { s with
        firing := none,
        clock := { s.clock with version := firing.reservation.nextVersion },
        commits := s.commits ++ [firing.reservation.nextVersion],
        published := s.published ++ [⟨.fired firing.taskId firing.prompt firing.humanSchedule
          firing.nextFireAt (some subagentId), firing.reservation.nextVersion, .plain⟩],
        tasks := s.tasks.filter fun task => task.id != firing.taskId }) hr hc
      (.removed firing.taskId .completed)
    rw [hcommit']
    refine ⟨_, rfl, of_idle hc' ?_ hpending rfl⟩
    exact Nat.le_trans (List.length_filter_le _ _) h.size
  · exact ⟨_, rfl, of_idle hc h.size hpending rfl⟩

theorem registrationAnswered (h : Sound ids s) (hfiring : s.firing = some firing)
    (request : LoopSpawn) (answer : Answer Unit) :
    Fine ids (s.registrationAnswered firing request answer) := by
  cases answer with
  | reply _ => exact h.completeFire hfiring _
  | timedOut => exact h.completeFire hfiring _
  | dropped | notSent => exact ⟨_, rfl, (h.updateTask _ _).skipFire firing⟩
  | cancelled => exact ⟨_, rfl, h.skipFire firing⟩

/-- The removals at the end carry the versions that were kept for them. -/
theorem removeAll {r : SchedulerReservation υ} (taskIds : List String)
    (hr : Reserved ids s.clock r taskIds.length)
    (hc : Chronicle ids s.clock s.commits s.published) :
    ∃ s', s.removeAll r taskIds = .ok s' ∧ Chronicle ids s'.clock s'.commits s'.published ∧
      s'.tasks = s.tasks ∧ s'.firing = s.firing ∧ s'.stopped = s.stopped := by
  induction taskIds generalizing s r with
  | nil => exact ⟨s, rfl, hc, rfl, rfl, rfl⟩
  | cons taskId taskIds ih =>
    obtain ⟨r', s', hcommit, heq, hr', hc'⟩ :=
      SchedulerActor.commitAndSend_spec hr hc (.removed taskId .shutdown)
    obtain ⟨s'', hall, hc'', htasks, hfiring, hstopped⟩ := ih hr' hc'
    refine ⟨s'', ?_, hc'', ?_, ?_, ?_⟩
    · rw [SchedulerActor.removeAll, hcommit]
      exact hall
    · rw [htasks, heq]
    · rw [hfiring, heq]
    · rw [hstopped, heq]

theorem shutdown (h : Sound ids s) (hfiring : s.firing = none) : Fine ids (s.shutdown ids) := by
  have hstop : Sound ids { s with stopped := true } :=
    ⟨h.chronicle, h.size, fun hstopped => (nomatch hstopped), h.firing, h.exclusive⟩
  unfold SchedulerActor.shutdown
  dsimp only
  split
  · exact ⟨_, rfl, hstop⟩
  · rename_i hsome
    have hlength : (s.tasks.map ScheduledTask.id).length ≤ maxSchedulerTransitions := by
      rw [List.length_map]
      exact h.size
    have hpositive : 0 < (s.tasks.map ScheduledTask.id).length := List.length_pos_iff.mpr hsome
    obtain ⟨r, drawn, hprepare, hdrawn, hr⟩ := SchedulerActor.prepareTransition_spec
      (s := { s with stopped := true }) h.chronicle hpositive hlength
    obtain ⟨s', hall, hc, htasks, hfiring', hstopped⟩ := removeAll
      (s := { s with stopped := true, clock := { s.clock with drawn } }) _ hr
      (h.chronicle.draw hdrawn)
    rw [hprepare]
    refine ⟨s', hall, hc, ?_, ?_, ?_, ?_⟩
    · rw [htasks]
      exact h.size
    · rw [hstopped]
      intro hfalse
      cases hfalse
    · rw [hfiring', hfiring]
      intro firing hsome
      cases hsome
    · rw [hfiring', hfiring]
      intro hsome
      cases hsome

/-- Every step succeeds and leaves the actor sound. -/
theorem step (h : Sound ids s) (input : SchedulerInput) : FineReply ids (s.step ids input) := by
  have hlift : ∀ {result : Checked (SchedulerActor υ)}, Fine ids result →
      FineReply ids (result.map fun s => (SchedulerReply.none, s)) := by
    rintro result ⟨s', rfl, hs'⟩
    exact ⟨_, s', rfl, hs'⟩
  unfold SchedulerActor.step
  split
  · exact h.reply _
  · rename_i hrunning
    have hstopped := Bool.eq_false_iff.mpr hrunning
    split
    · exact ⟨_, _, rfl, h.updateTask _ _⟩
    · exact ⟨_, _, rfl, h.announceExistingTasks _⟩
    · rename_i hfiring
      exact h.create hfiring _
    · rename_i hfiring
      exact h.update hfiring _ _ _ _
    · rename_i hfiring
      exact h.delete hstopped hfiring _ _
    · exact h.reply _
    · rename_i hfiring
      split
      · exact h.reply _
      · rename_i hpending
        exact hlift (h.fireNextTask (Option.not_isSome_iff_eq_none.mp hpending) hfiring _)
    · rename_i hfiring
      exact hlift (h.shutdown hfiring)
    · rename_i firing answer hfiring
      split
      · exact ⟨_, _, rfl, h.queryAnswered hfiring _⟩
      · exact h.reply _
    · rename_i firing answer hfiring
      split
      · exact ⟨_, _, rfl, h.unitAnswered hfiring _ _⟩
      · exact h.reply _
    · rename_i firing subagentId sent hfiring
      split
      · exact ⟨_, _, rfl, h.spawnIteration hfiring _ _ _⟩
      · exact h.reply _
    · rename_i firing answer hfiring
      split
      · exact hlift (h.registrationAnswered hfiring _ _)
      · exact h.reply _
    · exact h.reply _

/-- Every run succeeds and leaves the actor sound. -/
theorem run (h : Sound ids s) (inputs : List SchedulerInput) : Fine ids (s.run ids inputs) := by
  induction inputs generalizing s with
  | nil => exact ⟨s, rfl, h⟩
  | cons input inputs ih =>
    obtain ⟨reply, s', hstep, hs'⟩ := h.step input
    rw [SchedulerActor.run, hstep]
    exact ih hs'

end Sound

/-- Whether the transition a notice tells of was made: right away, or after its removal was
acknowledged. -/
def SchedulerActor.Made (s : SchedulerActor υ) (p : Publication υ) : Prop :=
  ∃ q ∈ s.published, q.settled = true ∧ q.notice = p.notice ∧ q.version = p.version

/-- The transitions that were made have versions of their own. -/
theorem Chronicle.distinct {clock : SchedulerClock υ} {commits : List (SchedulerVersion υ)}
    {published : List (Publication υ)} (h : Chronicle ids clock commits published) :
    (published.filter Publication.settled).Pairwise fun p q => p.version ≠ q.version := by
  have hbefore := h.increasing
  rw [← h.settled, List.pairwise_map] at hbefore
  apply hbefore.imp
  intro p q hpq heq
  exact absurd (hpq (congrArg SchedulerVersion.generation heq)) (by rw [heq]; exact UInt64.lt_irrefl _)

/-- In every run no assertion of the clock fails, the committed versions increase, and no two
transitions are told under one version unless one of them is the end of a task that was never
acknowledged. -/
theorem transitions_keep_versions [DecidableEq υ] (ids : GenerationSource υ)
    {tasks : List (ScheduledTask ℤ)} (htasks : tasks.length ≤ maxScheduledTasks)
    (inputs : List SchedulerInput) :
    ∃ s, (SchedulerActor.load ids tasks).run ids inputs = .ok s ∧
      s.commits.Pairwise SchedulerVersion.Before ∧
      (s.published.filter Publication.settled).map Publication.version = s.commits ∧
      ((s.published.filter Publication.settled).Pairwise fun p q => p.version ≠ q.version) ∧
      (∀ p ∈ s.published, ∀ q ∈ s.published, s.Made p → s.Made q → p.version = q.version →
        p.notice = q.notice) ∧
      ∀ p ∈ s.published, p.Fits := by
  obtain ⟨s, hrun, hs⟩ := (Sound.load ids htasks).run inputs
  have hdistinct := hs.chronicle.distinct
  refine ⟨s, hrun, hs.chronicle.increasing, hs.chronicle.settled, hdistinct, ?_, hs.chronicle.fits⟩
  rintro p - q - ⟨p', hp', hps, hpn, hpv⟩ ⟨q', hq', hqs, hqn, hqv⟩ hversion
  have hnodup : ((s.published.filter Publication.settled).map Publication.version).Nodup :=
    List.pairwise_map.mpr hdistinct
  have hsame : p' = q' := by
    apply List.inj_on_of_nodup_map hnodup
    · exact List.mem_filter.mpr ⟨hp', hps⟩
    · exact List.mem_filter.mpr ⟨hq', hqs⟩
    · rw [hpv, hqv, hversion]
  rw [← hpn, ← hqn, hsame]

/-- Generation ids that are numbered. -/
def numberedIds : GenerationSource ℕ := ⟨id, Function.injective_id⟩

/-- A recurring task that must not come back, or a one-shot task. -/
def exampleTask (id : String) (recurring : Bool) (expiresAt : Option ℤ) : ScheduledTask ℤ :=
  { id, intervalSecs := 60, prompt := "check", recurring, durable := recurring, createdAt := 0,
    lastFiredAt := none, expiresAt, lastSubagentId := none, iterationsSinceFresh := 0,
    chainResetPending := false }

/-- The actor wakes up and nothing is in its way, except perhaps an acknowledgement. -/
def exampleWake (acknowledged : Except SchedulerError Unit) : SchedulerInput :=
  .wake ⟨1000000000000, true, .committed, acknowledged, true⟩

theorem transitions_keep_versions_acknowledged :
    [exampleTask "a" true (some 5)].length ≤ maxScheduledTasks ∧
      ∃ s, (SchedulerActor.load numberedIds [exampleTask "a" true (some 5)]).run numberedIds
          [exampleWake (.ok ())] = .ok s ∧
        s.commits.Pairwise SchedulerVersion.Before ∧
        (s.published.filter Publication.settled).map Publication.version = s.commits ∧
        ((s.published.filter Publication.settled).Pairwise fun p q => p.version ≠ q.version) ∧
        (∀ p ∈ s.published, ∀ q ∈ s.published, s.Made p → s.Made q → p.version = q.version →
          p.notice = q.notice) ∧
        ∀ p ∈ s.published, p.Fits :=
  ⟨by decide, transitions_keep_versions numberedIds (by decide) _⟩

/-- The end of a task that was not acknowledged shares its version with the next fire, and a
scheduler that was loaded with too many tasks fails an assertion when it stops. -/
theorem unacknowledged_expiry_shares_version :
    (∃ s, (SchedulerActor.load numberedIds
        [exampleTask "a" true (some 5), exampleTask "b" false none]).run numberedIds
          [exampleWake (.error .notification), exampleWake (.ok ()), .spawn "child" true,
            .registrationAnswered (.reply ())] = .ok s ∧
      ∃ p ∈ s.published, ∃ q ∈ s.published, p.delivery ≠ .announcement ∧
        q.delivery ≠ .announcement ∧ p.version = q.version ∧ p.notice ≠ q.notice) ∧
      (SchedulerActor.load numberedIds (List.replicate 51 (exampleTask "a" true none))).run
        numberedIds [.cancelled] = .error .invalidSize := by
  refine ⟨⟨_, rfl, ?_⟩, rfl⟩
  decide +kernel

end Ezer.Scheduler
