import Ezer.Workflow.Resume
import Mathlib.Algebra.GroupWithZero.Nat

/-!
# Reserved agent calls

The host counts the agent calls that a run has reserved and not given back. In
a run that ends without a failure this is the number of agent calls the run
has added to the journal, from which a resumed run starts to count. A batch is
reserved as a whole before it is sent, and either journaled or given back as a
whole. The exception is a batch that replays a journaled host error: it hides
from the script that the journal could not take one of its live results.
-/

namespace Ezer.Workflow

/-- The host grants a reservation. -/
def Delivery.grants : Delivery Unit → Bool
  | .answered (.ok ()) => true
  | _ => false

/-- The agent calls of a request that the host grants. -/
def grantedBy (world : World) (request : WorkflowHostRequest) (k : ℕ) : ℕ :=
  match request with
  | .reserveAgentCalls count => if (world.host.agentCalls k).grants then count else 0
  | _ => 0

/-- The agent calls that a request gives back. -/
def WorkflowHostRequest.givesBack : WorkflowHostRequest → ℕ
  | .releaseAgentCalls count => count
  | _ => 0

/-- The agent calls that the host has granted. -/
def reservedCalls (world : World) (requests : List WorkflowHostRequest) : ℕ :=
  (requests.zipIdx.map fun r => grantedBy world r.1 r.2).sum

/-- The agent calls that were given back. -/
def releasedCalls (requests : List WorkflowHostRequest) : ℕ :=
  (requests.map WorkflowHostRequest.givesBack).sum

/-- The host says that a quota is exceeded only to a reservation. -/
structure QuotaOnReservationOnly (host : Host) : Prop where
  agent : ∀ k requested maximum,
    host.agent k ≠ .answered (.error (.agentCallQuotaExceeded requested maximum))
  budget : ∀ k requested maximum,
    host.budget k ≠ .answered (.error (.agentCallQuotaExceeded requested maximum))
  text : ∀ k requested maximum,
    host.text k ≠ .answered (.error (.agentCallQuotaExceeded requested maximum))

/-- A parallel call with a granted reservation that replays a journaled host error, that
nothing ends, and whose live results the journal does not all take. -/
def HidesJournalError (crates : Crates) (world : World) (ctx : Ctx) (action : Action) : Prop :=
  ∃ items requests live pending ctx', action = .parallel items ∧
    parallelOpts items = .ok requests ∧
    liveCount crates ctx.journal ctx.seq requests = .ok live ∧
    (reserveAgentCalls world ctx live).1 = .ok () ∧
    spawnAll crates world (reserveAgentCalls world ctx live).2 requests = (.ok pending, ctx') ∧
    (pending.foldl Batch.add {}).terminalKind = none ∧
    (∃ value message, .replayed value ∈ pending ∧ isHostTerminalSentinel value = false ∧
      hostErrorMessage value = some message) ∧
    ∃ error, (recordResolved crates world ctx' (pending.filterMap PendingAgent.resolved)).1 =
      .error error

/-- The agent calls that are reserved, not given back and not journaled. -/
def debt (world : World) (ctx : Ctx) : ℤ :=
  reservedCalls world ctx.requests - releasedCalls ctx.requests -
    ctx.journal.agentReservationCount

/-- The result does not make the run fail. -/
def NotFatal {α : Type} (result : Except ScriptError α) : Prop :=
  ∀ cause, result ≠ .error (.terminated (.fatal cause))

section Counting

variable {crates : Crates} {world : World} {ctx : Ctx} {α : Type}

theorem reservedCalls_append (requests : List WorkflowHostRequest) (r : WorkflowHostRequest) :
    reservedCalls world (requests ++ [r]) =
      reservedCalls world requests + grantedBy world r requests.length := by
  unfold reservedCalls
  simp [List.zipIdx_append]

theorem releasedCalls_append (requests : List WorkflowHostRequest) (r : WorkflowHostRequest) :
    releasedCalls (requests ++ [r]) = releasedCalls requests + r.givesBack := by
  unfold releasedCalls
  simp

theorem debt_send (ctx : Ctx) (r : WorkflowHostRequest) :
    debt world (ctx.send r) =
      debt world ctx + grantedBy world r ctx.requests.length - r.givesBack := by
  unfold debt Ctx.send
  dsimp only
  rw [reservedCalls_append, releasedCalls_append]
  omega

theorem debt_seq (ctx : Ctx) (seq : ℕ) : debt world { ctx with seq := seq } = debt world ctx := rfl

theorem debt_releaseAgentCalls (ctx : Ctx) (count : ℕ) :
    debt world (releaseAgentCalls ctx count) = debt world ctx - count := by
  unfold releaseAgentCalls
  split
  · rename_i hzero
    subst hzero
    simp
  · rw [debt_send]
    simp [grantedBy, WorkflowHostRequest.givesBack]

/-- A reservation that is granted is owed. -/
theorem debt_reserveAgentCalls (world : World) (ctx : Ctx) (count : ℕ) :
    ((reserveAgentCalls world ctx count).1 = .ok () ∧
      debt world (reserveAgentCalls world ctx count).2 = debt world ctx + count) ∨
    ∃ error, (reserveAgentCalls world ctx count).1 = .error error ∧
      debt world (reserveAgentCalls world ctx count).2 = debt world ctx := by
  unfold reserveAgentCalls
  by_cases hzero : count = 0
  · rw [if_pos hzero]
    subst hzero
    exact .inl ⟨rfl, by simp⟩
  · rw [if_neg hzero]
    dsimp only
    rw [debt_send]
    cases hreply : world.host.agentCalls ctx.requests.length with
    | closed | dropped => exact .inr ⟨_, rfl, by simp [grantedBy, hreply, Delivery.grants,
        WorkflowHostRequest.givesBack]⟩
    | answered answer =>
      cases answer with
      | ok _ => exact .inl ⟨rfl, by simp [grantedBy, hreply, Delivery.grants,
          WorkflowHostRequest.givesBack]⟩
      | error error =>
        have hsame : debt world ctx +
            (grantedBy world (.reserveAgentCalls count) ctx.requests.length : ℤ) -
            ((WorkflowHostRequest.reserveAgentCalls count).givesBack : ℤ) = debt world ctx := by
          simp [grantedBy, hreply, Delivery.grants, WorkflowHostRequest.givesBack]
        cases error <;> exact .inr ⟨_, rfl, hsame⟩

/-- A journaled agent call is no longer owed. -/
theorem debt_record {journal' : Journal} {entry : JournalEntry}
    (h : journal'.entries = ctx.journal.entries ++ [entry]) :
    debt world { ctx with journal := journal' } =
      debt world ctx - (if entry.kind = "spawn_agent" then 1 else 0) := by
  unfold debt Journal.agentReservationCount
  dsimp only
  rw [h, List.filter_append]
  by_cases hkind : entry.kind = "spawn_agent"
  · simp [hkind]
    omega
  · simp [hkind]

theorem debt_recordThen (seq : ℕ) (kind hash : String) (value : Value)
    (result : Except ScriptError α) :
    (∃ error, recordThen crates world ctx seq kind hash value result =
      (.error (journalFatal error), ctx)) ∨
    (recordThen crates world ctx seq kind hash value result).1 = result ∧
      debt world (recordThen crates world ctx seq kind hash value result).2 =
        debt world ctx - (if kind = "spawn_agent" then 1 else 0) := by
  rcases recordThen_cases crates world ctx seq kind hash value result with
    ⟨error, herror, -⟩ | ⟨journal', hok, -, hentries⟩
  · exact .inl ⟨error, herror⟩
  · right
    rw [hok]
    exact ⟨rfl, debt_record hentries⟩

variable {kind : String} {payload : Value} {request : WorkflowHostRequest}
  {answers : ℕ → Delivery α} {toResult : α → Value}

/-- A request that is neither a reservation nor a release. -/
def Plain (world : World) (request : WorkflowHostRequest) : Prop :=
  (∀ k, grantedBy world request k = 0) ∧ request.givesBack = 0

theorem Plain.debt_send (h : Plain world request) (ctx : Ctx) :
    debt world (ctx.send request) = debt world ctx := by
  rw [Workflow.debt_send, h.1, h.2]
  simp

theorem debt_hostCall (hkind : kind ≠ "spawn_agent") (hplain : Plain world request) :
    debt world (hostCall crates world ctx kind payload request answers toResult).2 =
      debt world ctx := by
  have hrecord : ∀ (ctx' : Ctx) (seq : ℕ) (hash : String) (value : Value)
      (result : Except ScriptError Value), debt world ctx' = debt world ctx →
      debt world (recordThen crates world ctx' seq kind hash value result).2 = debt world ctx := by
    intro ctx' seq hash value result hsame
    rcases @debt_recordThen crates world ctx' _ seq kind hash value result with
      ⟨error, herror⟩ | ⟨-, hdebt⟩
    · rw [herror]
      exact hsame
    · rw [hdebt, if_neg hkind, hsame]
      simp
  have hsent : ∀ seq, debt world (Ctx.send { ctx with seq := seq } request) = debt world ctx := by
    intro seq
    rw [hplain.debt_send]
    rfl
  unfold hostCall Ctx.nextSeq Ctx.reserveSeqs
  split
  · rename_i h
    split at h
    · cases h
      rfl
    · cases h
  · rename_i h
    split at h
    · cases h
    · cases h
      dsimp only
      split
      · rfl
      · rfl
      · unfold settleReply
        split
        · exact hsent _
        · exact hsent _
        · exact hsent _
        · exact hsent _
        · exact hsent _
        · exact hrecord _ _ _ _ _ (hsent _)
        · exact hrecord _ _ _ _ _ (hsent _)
        · exact hrecord _ _ _ _ _ (hsent _)

end Counting

section AgentCalls

variable {crates : Crates} {world : World}

theorem plain_spawnAgent (opts : AgentOpts) : Plain world (.spawnAgent opts) :=
  ⟨fun _ => rfl, rfl⟩

/-- An agent call that is sent is journaled, or ends the run so that it is given
back. -/
theorem debt_settleReply (hquota : QuotaOnReservationOnly world.host) (ctx : Ctx) (seq k : ℕ)
    (hash : String)
    (hfatal : NotFatal (settleReply crates world ctx seq "spawn_agent" hash AgentResult.toValue
      (world.host.agent k)).1) :
    (debt world (settleReply crates world ctx seq "spawn_agent" hash AgentResult.toValue
        (world.host.agent k)).2 = debt world ctx - 1 ∧
      ∀ error, (settleReply crates world ctx seq "spawn_agent" hash AgentResult.toValue
        (world.host.agent k)).1 = .error error → isResumableUnjournaledTerminal error = false) ∨
    ∃ error, settleReply crates world ctx seq "spawn_agent" hash AgentResult.toValue
        (world.host.agent k) = (.error error, ctx) ∧
      isResumableUnjournaledTerminal error = true := by
  have hrecord : ∀ value (result : Except ScriptError Value),
      NotFatal (recordThen crates world ctx seq "spawn_agent" hash value result).1 →
      (∀ error, result = .error error → isResumableUnjournaledTerminal error = false) →
      debt world (recordThen crates world ctx seq "spawn_agent" hash value result).2 =
          debt world ctx - 1 ∧
        ∀ error, (recordThen crates world ctx seq "spawn_agent" hash value result).1 =
          .error error → isResumableUnjournaledTerminal error = false := by
    intro value result hnot hresult
    rcases @debt_recordThen crates world ctx _ seq "spawn_agent" hash value result with
      ⟨error, herror⟩ | ⟨heq, hdebt⟩
    · rw [herror] at hnot
      exact (hnot _ rfl).elim
    · rw [hdebt, heq]
      exact ⟨by simp, hresult⟩
  have hruntime : ∀ message error,
      (.error (.runtime message) : Except ScriptError Value) = .error error →
      isResumableUnjournaledTerminal error = false := by
    rintro message error ⟨⟩
    rfl
  revert hfatal
  unfold settleReply
  split
  · intro hfatal
    exact (hfatal _ rfl).elim
  · intro hfatal
    exact (hfatal _ rfl).elim
  · rename_i hreply
    exact (hquota.agent _ _ _ hreply).elim
  · exact fun _ => .inr ⟨_, rfl, rfl⟩
  · exact fun _ => .inr ⟨_, rfl, rfl⟩
  · exact fun hfatal => .inl (hrecord _ _ hfatal (hruntime _))
  · exact fun hfatal => .inl (hrecord _ _ hfatal (hruntime _))
  · exact fun hfatal => .inl (hrecord _ _ hfatal fun error h => by cases h)

theorem debt_spawnAgentCall (hquota : QuotaOnReservationOnly world.host) (ctx : Ctx)
    (opts : AgentOpts) (hfatal : NotFatal (spawnAgentCall crates world ctx opts).1) :
    debt world (spawnAgentCall crates world ctx opts).2 = debt world ctx := by
  revert hfatal
  unfold spawnAgentCall
  dsimp only
  rw [replaySpawnAgent_eq]
  split
  · exact fun _ => rfl
  · rename_i value hreplay
    have hlt : ctx.seq < ctx.journal.entries.length := by
      by_contra hge
      rw [replayKey_of_uncovered (by omega)] at hreplay
      cases hreplay
    unfold hostCall Ctx.nextSeq Ctx.reserveSeqs
    by_cases hmax : ctx.seq + 1 > maxHostCalls
    · rw [if_pos hmax]
      exact fun _ => rfl
    · unfold replayKey AgentOpts.key at hreplay
      dsimp only at hreplay
      rw [if_neg hmax]
      dsimp only
      rw [hreplay]
      dsimp only
      cases replayHostError value <;> exact fun _ => rfl
  · rename_i hreplay
    rcases debt_reserveAgentCalls world ctx 1 with ⟨hok, hdebt⟩ | ⟨error, herror, hdebt⟩
    · have hreserved : (reserveAgentCalls world ctx 1).2.journal = ctx.journal ∧
          (reserveAgentCalls world ctx 1).2.seq = ctx.seq := ⟨rfl, rfl⟩
      generalize reserveAgentCalls world ctx 1 = reserved at hok hdebt hreserved ⊢
      obtain ⟨result, ctx₁⟩ := reserved
      dsimp only at hok hdebt hreserved
      subst hok
      dsimp only
      unfold hostCall Ctx.nextSeq Ctx.reserveSeqs
      by_cases hmax : ctx₁.seq + 1 > maxHostCalls
      · rw [if_pos hmax]
        intro hfatal
        exact (hfatal _ rfl).elim
      · unfold replayKey AgentOpts.key at hreplay
        dsimp only at hreplay
        rw [← hreserved.1, ← hreserved.2] at hreplay
        rw [if_neg hmax]
        dsimp only
        rw [hreplay]
        dsimp only
        intro hfatal
        have hsent : debt world (Ctx.send { ctx₁ with seq := ctx₁.seq + 1 } (.spawnAgent opts)) =
            debt world ctx₁ := by
          rw [(plain_spawnAgent opts).debt_send]
          rfl
        have hsettle := @debt_settleReply crates world hquota
          (Ctx.send { ctx₁ with seq := ctx₁.seq + 1 } (.spawnAgent opts)) ctx₁.seq
          ctx₁.requests.length (requestHash crates "spawn_agent" opts.toValue)
        generalize settleReply crates world
          (Ctx.send { ctx₁ with seq := ctx₁.seq + 1 } (.spawnAgent opts)) ctx₁.seq "spawn_agent"
          (requestHash crates "spawn_agent" opts.toValue) AgentResult.toValue
          (world.host.agent ctx₁.requests.length) = settled at hsettle hfatal ⊢
        obtain ⟨result, ctx₂⟩ := settled
        cases result with
        | ok value =>
          rcases hsettle (fun cause h => by cases h) with ⟨hpaid, -⟩ | ⟨error, herror, -⟩
          · dsimp only at hpaid ⊢
            rw [hpaid, hsent, hdebt]
            simp
          · cases herror
        | error error =>
          dsimp only at hfatal hsettle ⊢
          rcases hsettle hfatal with ⟨hpaid, hresumable⟩ | ⟨error', herror, hresumable⟩
          · rw [hresumable error rfl, if_neg (by simp), hpaid, hsent, hdebt]
            simp
          · cases herror
            rw [hresumable, if_pos rfl, debt_releaseAgentCalls, hsent, hdebt]
            simp
    · generalize reserveAgentCalls world ctx 1 = reserved at herror hdebt ⊢
      obtain ⟨result, ctx₁⟩ := reserved
      dsimp only at herror hdebt
      subst herror
      exact fun _ => hdebt

end AgentCalls

section Batches

variable {crates : Crates} {world : World}

/-- Whether an item is sent to the host. -/
def PendingAgent.isLive : PendingAgent → Bool
  | .replayed _ => false
  | .live _ _ _ => true

theorem countP_isLive_cons {journal : Journal} {seq live : ℕ} {opts : AgentOpts}
    {rest : List AgentOpts} {recorded : Option Value} {item : PendingAgent}
    {pending : List PendingAgent} (hreplay : replayAgent crates journal seq opts = .ok recorded)
    (hitem : item.isLive = recorded.isNone)
    (hlive : ∀ live, liveCount crates journal (seq + 1) rest = .ok live →
      pending.countP PendingAgent.isLive = live)
    (h : liveCount crates journal seq (opts :: rest) = .ok live) :
    (item :: pending).countP PendingAgent.isLive = live := by
  rw [liveCount, hreplay] at h
  cases hrest : liveCount crates journal (seq + 1) rest with
  | error error => simp [hrest] at h
  | ok count =>
    rw [hrest] at h
    cases h
    rw [List.countP_cons, hlive count hrest, hitem]
    cases recorded <;> rfl

/-- Sending a batch owes nothing more, and the items sent are those reserved. -/
theorem debt_spawnAll (ctx : Ctx) (requests : List AgentOpts) :
    (∃ cause ctx', spawnAll crates world ctx requests = (.error (.terminated (.fatal cause)), ctx')) ∨
    ∃ pending ctx', spawnAll crates world ctx requests = (.ok pending, ctx') ∧
      debt world ctx' = debt world ctx ∧
      ∀ live, liveCount crates ctx.journal ctx.seq requests = .ok live →
        pending.countP PendingAgent.isLive = live := by
  induction requests generalizing ctx with
  | nil =>
    right
    refine ⟨[], ctx, rfl, rfl, ?_⟩
    intro live h
    cases h
    rfl
  | cons opts rest ih =>
    unfold spawnAll Ctx.nextSeq Ctx.reserveSeqs
    by_cases hmax : ctx.seq + 1 > maxHostCalls
    · rw [if_pos hmax]
      exact .inl ⟨_, _, rfl⟩
    · rw [if_neg hmax]
      dsimp only
      cases hreplay : replayAgent crates ctx.journal ctx.seq opts with
      | error error => exact .inl ⟨_, _, rfl⟩
      | ok recorded =>
        cases recorded with
        | some value =>
          dsimp only
          rcases ih { ctx with seq := ctx.seq + 1 } with
            ⟨cause, ctx', hfatal⟩ | ⟨pending, ctx', hok, hdebt, hlive⟩
          · rw [hfatal]
            exact .inl ⟨_, _, rfl⟩
          · rw [hok]
            right
            exact ⟨_, _, rfl, hdebt, fun _ => countP_isLive_cons hreplay rfl hlive⟩
        | none =>
          dsimp only
          have hsent : debt world (Ctx.send { ctx with seq := ctx.seq + 1 } (.spawnAgent opts)) =
              debt world ctx := by
            rw [(plain_spawnAgent opts).debt_send]
            rfl
          split
          · exact .inl ⟨_, _, rfl⟩
          · rcases ih (Ctx.send { ctx with seq := ctx.seq + 1 } (.spawnAgent opts)) with
              ⟨cause, ctx', hfatal⟩ | ⟨pending, ctx', hok, hdebt, hlive⟩
            · rw [hfatal]
              exact .inl ⟨_, _, rfl⟩
            · rw [hok]
              right
              exact ⟨_, _, rfl, hdebt.trans hsent, fun _ => countP_isLive_cons hreplay rfl hlive⟩

/-- Every live result that is recorded is no longer owed. -/
theorem debt_recordResolved (ctx : Ctx) (resolved : List (Option (ℕ × String) × Value)) :
    (∃ error ctx', recordResolved crates world ctx resolved = (.error (journalFatal error), ctx')) ∨
    ∃ ctx', recordResolved crates world ctx resolved = (.ok (), ctx') ∧
      debt world ctx' = debt world ctx - resolved.countP fun r => r.1.isSome := by
  induction resolved generalizing ctx with
  | nil =>
    right
    exact ⟨ctx, rfl, by simp⟩
  | cons r rest ih =>
    obtain ⟨live, value⟩ := r
    cases live with
    | none =>
      unfold recordResolved
      rw [List.countP_cons]
      simpa using ih ctx
    | some key =>
      obtain ⟨seq, hash⟩ := key
      unfold recordResolved
      rcases @record_ctx_cases crates world ctx seq "spawn_agent" hash value with
        ⟨error, herror, -⟩ | ⟨journal', hok, -, hentries⟩
      · rw [herror]
        exact .inl ⟨_, _, rfl⟩
      · rw [hok]
        dsimp only
        have hpaid : debt world { ctx with journal := journal' } = debt world ctx - 1 := by
          rw [debt_record hentries, if_pos rfl]
        rcases ih { ctx with journal := journal' } with h | ⟨ctx', hrest, hdebt⟩
        · exact .inl h
        · right
          refine ⟨ctx', hrest, ?_⟩
          rw [hdebt, hpaid, List.countP_cons]
          simp
          omega

theorem countP_resolved (pending : List PendingAgent) :
    ((pending.filterMap PendingAgent.resolved).countP fun r => r.1.isSome) =
      pending.countP PendingAgent.isLive := by
  induction pending with
  | nil => rfl
  | cons p pending ih =>
    rw [List.countP_cons, ← ih]
    cases p with
    | live seq hash reply => simp [PendingAgent.resolved, PendingAgent.isLive]
    | replayed value =>
      by_cases h : isHostTerminalSentinel value || (hostErrorMessage value).isSome
      · simp only [List.filterMap_cons, PendingAgent.resolved, if_pos h]
        simp [PendingAgent.isLive]
      · simp only [List.filterMap_cons, PendingAgent.resolved, if_neg h]
        simp [PendingAgent.isLive]

theorem Batch.terminalError_foldl {pending : List PendingAgent} {batch : Batch}
    {error : ScriptError} (hnone : batch.terminalError = none)
    (h : (pending.foldl Batch.add batch).terminalError = some error) :
    ∃ value message, .replayed value ∈ pending ∧ isHostTerminalSentinel value = false ∧
      hostErrorMessage value = some message := by
  induction pending generalizing batch with
  | nil =>
    rw [List.foldl_nil, hnone] at h
    cases h
  | cons p pending ih =>
    rw [List.foldl_cons] at h
    have hadded := batch.added p
    generalize batch.add p = added at hadded h
    have hrest : added.terminalError = none →
        ∃ value message, .replayed value ∈ p :: pending ∧ isHostTerminalSentinel value = false ∧
          hostErrorMessage value = some message := by
      intro hadd
      obtain ⟨value, message, hmem, hsentinel⟩ := ih hadd h
      exact ⟨value, message, .tail _ hmem, hsentinel⟩
    cases hadded with
    | terminal value kind => exact hrest hnone
    | error value message sentinel isError => exact ⟨value, message, .head _, sentinel, isError⟩
    | value | result | ended => exact hrest hnone

/-- The kind of an end that is not resumable. -/
def Batch.EndsForGood (batch : Batch) : Prop :=
  batch.resumableTerminal = false → ∀ kind, batch.terminalKind = some kind →
    kind ≠ "budget_exceeded" ∧ kind ≠ "cancelled"

theorem Batch.EndsForGood.terminal {batch : Batch} (h : batch.EndsForGood) (kind : String) :
    (batch.terminal kind).EndsForGood := by
  intro hresumable kind' hkind
  unfold Batch.terminal at hresumable hkind
  dsimp only at hresumable hkind
  simp only [Bool.or_eq_false_iff, decide_eq_false_iff_not] at hresumable
  cases hold : batch.terminalKind with
  | none =>
    rw [hold] at hkind
    cases hkind
    exact hresumable.2
  | some old =>
    rw [hold] at hkind
    cases hkind
    exact h hresumable.1 _ hold

theorem Batch.endsForGood_foldl (pending : List PendingAgent) {batch : Batch}
    (h : batch.EndsForGood) : (pending.foldl Batch.add batch).EndsForGood := by
  induction pending generalizing batch with
  | nil => exact h
  | cons p pending ih =>
    apply ih
    have hadded := batch.added p
    generalize batch.add p = added at hadded
    cases hadded with
    | terminal value kind => exact h.terminal kind
    | error | value | result => exact h
    | ended seq hash reply kind => exact h.terminal kind

theorem hostTerminalError_fatal {kind : String} (hbudget : kind ≠ "budget_exceeded")
    (hcancelled : kind ≠ "cancelled") :
    ∃ cause, hostTerminalError kind = .terminated (.fatal cause) := by
  unfold hostTerminalError
  rw [if_neg hbudget, if_neg hcancelled]
  split
  · exact ⟨_, rfl⟩
  · exact ⟨_, rfl⟩

/-- A batch is journaled or given back as a whole, unless it hides an error of the
journal. -/
theorem debt_settleBatch (ctx : Ctx) (live : ℕ) {pending : List PendingAgent}
    (hlive : pending.countP PendingAgent.isLive = live)
    (hhides : (pending.foldl Batch.add {}).terminalKind = none →
      (∃ value message, .replayed value ∈ pending ∧ isHostTerminalSentinel value = false ∧
        hostErrorMessage value = some message) →
      ∀ error, (recordResolved crates world ctx (pending.filterMap PendingAgent.resolved)).1 ≠
        .error error)
    (hfatal : NotFatal (settleBatch crates world ctx live (pending.foldl Batch.add {})).1) :
    debt world (settleBatch crates world ctx live (pending.foldl Batch.add {})).2 =
      debt world ctx - live := by
  have hresolved := Batch.resolved_foldl pending {}
  have hgood := Batch.endsForGood_foldl pending
    (show ({} : Batch).EndsForGood from fun _ kind h => by cases h)
  have herrors := fun error => @Batch.terminalError_foldl pending {} error rfl
  rw [List.nil_append] at hresolved
  rw [← hresolved] at hhides
  rw [← countP_resolved, ← hresolved] at hlive
  generalize pending.foldl Batch.add {} = batch at *
  revert hfatal
  unfold settleBatch
  cases hresumable : batch.resumableTerminal with
  | true =>
    intro _
    rw [if_pos rfl]
    dsimp only
    rw [← debt_releaseAgentCalls]
    cases batch.terminalKind with
    | some kind => rfl
    | none => cases batch.terminalError <;> rfl
  | false =>
    rw [if_neg (by simp)]
    rcases @debt_recordResolved crates world ctx batch.resolved with
      ⟨error, ctx', hrecord⟩ | ⟨ctx', hrecord, hdebt⟩
    · rw [hrecord] at hhides ⊢
      dsimp only
      cases hkind : batch.terminalKind with
      | some kind =>
        intro hfatal
        obtain ⟨hbudget, hcancelled⟩ := hgood hresumable kind hkind
        obtain ⟨cause, hcause⟩ := hostTerminalError_fatal hbudget hcancelled
        dsimp only at hfatal
        rw [hcause] at hfatal
        exact (hfatal cause rfl).elim
      | none =>
        cases hterminal : batch.terminalError with
        | none =>
          intro hfatal
          exact (hfatal _ rfl).elim
        | some first => exact (hhides hkind (herrors first hterminal) _ rfl).elim
    · rw [hrecord]
      dsimp only
      intro _
      rw [← hlive, ← hdebt]
      cases batch.terminalKind with
      | some kind => rfl
      | none => cases batch.terminalError <;> rfl

theorem debt_parallel {ctx : Ctx} {items : List (Except String AgentOpts)}
    (hhides : ¬ HidesJournalError crates world ctx (.parallel items))
    (hfatal : NotFatal (parallel crates world ctx items).1) :
    debt world (parallel crates world ctx items).2 = debt world ctx := by
  revert hfatal
  unfold parallel parallelCalls
  dsimp only
  split
  · exact fun _ => rfl
  · cases hopts : parallelOpts items with
    | error error => exact fun _ => rfl
    | ok requests =>
      dsimp only
      cases hlive : liveCount crates ctx.journal ctx.seq requests with
      | error error => exact fun _ => rfl
      | ok live =>
        dsimp only
        have hreserved : (reserveAgentCalls world ctx live).2.journal = ctx.journal ∧
            (reserveAgentCalls world ctx live).2.seq = ctx.seq := by
          unfold reserveAgentCalls
          split
          · exact ⟨rfl, rfl⟩
          · exact ⟨rfl, rfl⟩
        have hhides' : (reserveAgentCalls world ctx live).1 = .ok () → ∀ pending ctx',
            spawnAll crates world (reserveAgentCalls world ctx live).2 requests =
              (.ok pending, ctx') →
            (pending.foldl Batch.add {}).terminalKind = none →
            (∃ value message, .replayed value ∈ pending ∧ isHostTerminalSentinel value = false ∧
              hostErrorMessage value = some message) →
            ∀ error, (recordResolved crates world ctx'
              (pending.filterMap PendingAgent.resolved)).1 ≠ .error error := by
          intro hgranted pending ctx' hspawn hkind hreplayed error herror
          exact hhides ⟨items, requests, live, pending, ctx', rfl, hopts, hlive, hgranted, hspawn,
            hkind, hreplayed, error, herror⟩
        have hcases := debt_reserveAgentCalls world ctx live
        generalize reserveAgentCalls world ctx live = reserved at hreserved hhides' hcases ⊢
        obtain ⟨result, ctx₁⟩ := reserved
        dsimp only at hreserved hhides' hcases ⊢
        rcases hcases with ⟨rfl, hdebt⟩ | ⟨error, rfl, hdebt⟩
        · dsimp only
          rw [← hreserved.1, ← hreserved.2] at hlive
          rcases @debt_spawnAll crates world ctx₁ requests with
            ⟨cause, ctx', hspawn⟩ | ⟨pending, ctx', hspawn, hsame, hcount⟩
          · rw [hspawn]
            intro hfatal
            exact (hfatal cause rfl).elim
          · rw [hspawn]
            intro hfatal
            dsimp only at hfatal ⊢
            rw [debt_settleBatch ctx' live (hcount live hlive) (hhides' rfl pending ctx' hspawn)
              hfatal, hsame, hdebt]
            omega
        · exact fun _ => hdebt

end Batches

section Runs

variable {crates : Crates} {world : World}

theorem notFatal_map {α β : Type} {result : Except ScriptError α} {f : α → β}
    (h : NotFatal (result.map f)) : NotFatal result := by
  intro cause hcause
  subst hcause
  exact h cause rfl

theorem debt_valueCall {α : Type} {ctx : Ctx} {kind : String} {payload : Value}
    {request : WorkflowHostRequest} {answers : ℕ → Delivery α} {toResult : α → Value}
    (hkind : kind ≠ "spawn_agent") (hplain : Plain world request) :
    debt world (valueCall crates world ctx kind payload request answers toResult).2 =
      debt world ctx := by
  rw [← @debt_hostCall crates world ctx α kind payload request answers toResult hkind hplain]
  unfold valueCall
  generalize hostCall crates world ctx kind payload request answers toResult = r
  obtain ⟨result, ctx'⟩ := r
  cases result <;> rfl

theorem debt_awaitUser (ctx : Ctx) (kind message : String) :
    debt world (awaitUser crates world ctx kind message).2 = debt world ctx := by
  unfold awaitUser Ctx.nextSeq Ctx.reserveSeqs
  cases PauseKind.parse kind with
  | error error => rfl
  | ok parsed =>
    dsimp only
    by_cases hmax : ctx.seq + 1 > maxHostCalls
    · rw [if_pos hmax]
    · rw [if_neg hmax]
      dsimp only
      split
      · rfl
      · rcases @debt_recordThen crates world { ctx with seq := ctx.seq + 1 } _ ctx.seq
          "await_user" _ .null (.error (.terminated (.pause parsed message))) with
          ⟨error, herror⟩ | ⟨-, hdebt⟩
        · rw [herror]
          rfl
        · rw [hdebt, if_neg (by decide), debt_seq]
          simp
      · rfl

/-- A call that does not end the run with a failure leaves what is owed as it was. -/
theorem debt_call (hquota : QuotaOnReservationOnly world.host) {ctx : Ctx} {action : Action}
    (hhides : ¬ HidesJournalError crates world ctx action)
    (hfatal : NotFatal (call crates world ctx action).1) :
    debt world (call crates world ctx action).2 = debt world ctx := by
  cases action with
  | agent prompt => exact debt_spawnAgentCall hquota ctx _ (notFatal_map hfatal)
  | agentWith prompt opts =>
    simp only [call] at hfatal ⊢
    cases hopts : agentOptsFromMap (some prompt) opts with
    | error error => rfl
    | ok opts =>
      rw [hopts] at hfatal
      exact debt_spawnAgentCall hquota ctx _ (notFatal_map hfatal)
  | parallel items => exact debt_parallel hhides (notFatal_map hfatal)
  | phase | log => exact Plain.debt_send ⟨fun _ => rfl, rfl⟩ ctx
  | telemetryEvent name fields =>
    simp only [call]
    cases fields with
    | error error => rfl
    | ok fields => exact Plain.debt_send ⟨fun _ => rfl, rfl⟩ ctx
  | awaitUser kind message => exact debt_awaitUser ctx kind message
  | pause kind message =>
    simp only [call]
    cases PauseKind.parse kind <;> rfl
  | budget => exact debt_valueCall (by decide) ⟨fun _ => rfl, rfl⟩
  | renderTemplate name vars =>
    simp only [call]
    cases vars with
    | error error => rfl
    | ok vars => exact debt_valueCall (by decide) ⟨fun _ => rfl, rfl⟩
  | writeScratchFile | readScratchFile | gitDiffSince =>
    exact debt_valueCall (by decide) ⟨fun _ => rfl, rfl⟩
  | complete result => rfl
  | fail error => rfl

variable {script : Script} {journal : Journal}

theorem debt_succ (hquota : QuotaOnReservationOnly world.host) {n : ℕ}
    (hended : (runWorkflow crates world script journal n).ended = none)
    (hhides : ¬ HidesJournalError crates world (runWorkflow crates world script journal n).ctx
      (script (runWorkflow crates world script journal n).seen))
    (houtcome : ∀ error,
      (runWorkflow crates world script journal (n + 1)).outcome ≠ some (.failed error)) :
    debt world (runWorkflow crates world script journal (n + 1)).ctx =
      debt world (runWorkflow crates world script journal n).ctx := by
  rw [ctx_succ hended]
  apply debt_call hquota hhides
  intro cause hcause
  apply houtcome cause.message
  rw [runWorkflow_succ]
  unfold Run.step
  rw [hended]
  dsimp only
  generalize call crates world (runWorkflow crates world script journal n).ctx
    (script (runWorkflow crates world script journal n).seen) = called at hcause
  obtain ⟨result, ctx'⟩ := called
  dsimp only at hcause
  subst hcause
  rfl

/-- The agent calls that a run has reserved and not given back are those it has added to
the journal, unless a batch has hidden an error of the journal. -/
theorem reserved_eq_released_add_journaled (hquota : QuotaOnReservationOnly world.host) (n : ℕ)
    (hhides : ∀ i < n, (runWorkflow crates world script journal i).ended = none →
      ¬ HidesJournalError crates world (runWorkflow crates world script journal i).ctx
        (script (runWorkflow crates world script journal i).seen))
    (houtcome : ∀ error,
      (runWorkflow crates world script journal n).outcome ≠ some (.failed error)) :
    journal.agentReservationCount +
        reservedCalls world (runWorkflow crates world script journal n).ctx.requests =
      releasedCalls (runWorkflow crates world script journal n).ctx.requests +
        (runWorkflow crates world script journal n).ctx.journal.agentReservationCount := by
  have hdebt : debt world (runWorkflow crates world script journal n).ctx =
      -(journal.agentReservationCount : ℤ) := by
    induction n with
    | zero =>
      change ((0 : ℕ) : ℤ) - ((0 : ℕ) : ℤ) - (journal.agentReservationCount : ℤ) = _
      simp
    | succ n ih =>
      have hearlier := fun i hi => hhides i (Nat.lt_succ_of_lt hi)
      cases hended : (runWorkflow crates world script journal n).ended with
      | some error =>
        rw [runWorkflow_ended (Nat.le_succ n) hended] at houtcome ⊢
        exact ih hearlier houtcome
      | none =>
        rw [debt_succ hquota hended (hhides n (Nat.lt_succ_self n) hended) houtcome]
        apply ih hearlier
        intro error herror
        unfold Run.outcome at herror
        rw [hended] at herror
        cases herror
  unfold debt at hdebt
  omega

end Runs

/-- The crates on agent calls with the prompt `p`. -/
def promptCrates : Crates where
  jsonText _ := promptText "p"
  sha256 _ :=
    [237, 100, 103, 197, 98, 232, 126, 79, 122, 251, 214, 243, 28, 146, 19, 248,
      172, 246, 55, 98, 95, 42, 86, 75, 0, 188, 67, 209, 188, 53, 3, 7]
  printEntry entry := utf8 entry.reqHash
  parseEntry _ := .error "EOF while parsing a value at line 1 column 0"
  toDynamicError _ := none

/-- A script of one agent call. -/
def asking : Script := fun seen => if seen.length = 0 then .agent "p" else .complete .null

theorem answering_quota (reservations : Delivery Unit) :
    QuotaOnReservationOnly (answering reservations).host := by
  refine ⟨?_, ?_, ?_⟩
  · intro k requested maximum h
    cases h
  · intro k requested maximum h
    cases h
  · intro k requested maximum h
    cases h

/-- The one agent call of a completed run is reserved, kept and journaled. -/
theorem asking_reserved :
    (Journal.new true).agentReservationCount +
        reservedCalls (answering (.answered (.ok ())))
          (runWorkflow promptCrates (answering (.answered (.ok ()))) asking
            (Journal.new true) 2).ctx.requests =
      releasedCalls (runWorkflow promptCrates (answering (.answered (.ok ()))) asking
          (Journal.new true) 2).ctx.requests +
        (runWorkflow promptCrates (answering (.answered (.ok ()))) asking
          (Journal.new true) 2).ctx.journal.agentReservationCount := by
  apply reserved_eq_released_add_journaled (answering_quota _)
  · rintro i - - ⟨items, -, -, -, -, haction, -⟩
    unfold asking at haction
    split at haction
    · cases haction
    · cases haction
  · have hcompleted : (runWorkflow promptCrates (answering (.answered (.ok ()))) asking
        (Journal.new true) 2).outcome = some (.completed .null) := by
      rfl
    intro error herror
    rw [herror] at hcompleted
    cases hcompleted

/-- A script that makes one agent call when its batch of two fails, and gives up when
that call fails too. -/
def fallingBack : Script := fun seen =>
  match seen with
  | [] => .parallel [.ok { prompt := "p" }, .ok { prompt := "p" }]
  | [.error message] => if message = "disk full" then .agent "p" else .complete .null
  | [.error _, .error _] => .pause "infra" "retry later"
  | _ => .complete .null

/-- A host that refuses the first reservation, and whose agent calls fail. -/
def refusing : World where
  host := {
    agentCalls := fun k =>
      if k = 0 then .answered (.error (.failed "disk full")) else .answered (.ok ())
    agent := fun _ => .answered (.error (.failed "x"))
    budget := fun _ => .answered (.ok ⟨none, 0, 0, none⟩)
    text := fun _ => .answered (.ok "") }
  appendError := fun _ => none
  now := fun _ => 0

theorem refusing_quota : QuotaOnReservationOnly refusing.host := by
  refine ⟨?_, ?_, ?_⟩
  · intro k requested maximum h
    cases h
  · intro k requested maximum h
    cases h
  · intro k requested maximum h
    cases h

/-- A host that grants everything, while nothing can be appended to the journal file. -/
def fullDisk : World := { answering (.answered (.ok ())) with appendError := fun _ => some "ENOSPC" }

/-- A batch that replays a journaled host error hides that the result of its live item
was not journaled: the run completes, and the call stays reserved. -/
theorem fallingBack_reserved_not_journaled :
    QuotaOnReservationOnly refusing.host ∧ QuotaOnReservationOnly fullDisk.host ∧
    (runWorkflow promptCrates refusing fallingBack (Journal.new true) 3).outcome matches
      some (.paused .infra _) ∧
    (runWorkflow promptCrates fullDisk fallingBack
      (runWorkflow promptCrates refusing fallingBack (Journal.new true) 3).ctx.journal 2).outcome
      matches some (.completed .null) ∧
    ¬ (runWorkflow promptCrates refusing fallingBack
          (Journal.new true) 3).ctx.journal.agentReservationCount +
        reservedCalls fullDisk (runWorkflow promptCrates fullDisk fallingBack
          (runWorkflow promptCrates refusing fallingBack (Journal.new true) 3).ctx.journal
          2).ctx.requests =
      releasedCalls (runWorkflow promptCrates fullDisk fallingBack
          (runWorkflow promptCrates refusing fallingBack (Journal.new true) 3).ctx.journal
          2).ctx.requests +
        (runWorkflow promptCrates fullDisk fallingBack
          (runWorkflow promptCrates refusing fallingBack (Journal.new true) 3).ctx.journal
          2).ctx.journal.agentReservationCount := by
  exact ⟨refusing_quota, answering_quota _, by decide +kernel⟩

end Ezer.Workflow
