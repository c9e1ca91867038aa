import Ezer.Workflow.Replay

/-!
# Calls with one journal key

The host functions that take one sequence number: the plain host calls, the
agent call with its reservation, and the pause that waits for the user. Each
is replayed from its entry, and records it when it is not replayed.
-/

namespace Ezer.Workflow

section HostCalls

variable {crates : Crates} {world : World} {ctx : Ctx} {α : Type}

/-- Recording gives the next entry to the journal or fails. -/
theorem record_cases (journal : Journal) (entry : JournalEntry) (appendError : Option String) :
    (∃ error, journal.record crates entry appendError = .error error ∧
      (entry.seq = journal.entries.length → (journalFatal error).isReplayError = false)) ∨
    ∃ journal', journal.record crates entry appendError = .ok journal' ∧
      entry.seq = journal.entries.length ∧ journal'.entries = journal.entries ++ [entry] := by
  unfold Journal.record Journal.lineToAppend validateSequence
  by_cases hseq : entry.seq = journal.entries.length
  · simp only [hseq, ne_eq, not_true_eq_false, if_false]
    split
    · left
      rename_i error herror
      refine ⟨error, rfl, fun _ => ?_⟩
      split at herror
      · cases herror
        rfl
      · cases herror
    · split
      · exact .inl ⟨_, rfl, fun _ => rfl⟩
      · exact .inr ⟨_, rfl, trivial, rfl⟩
  · left
    refine ⟨.sequence journal.entries.length journal.entries.length entry.seq, ?_, fun h => ?_⟩
    · simp [hseq]
    · exact (hseq h).elim

theorem recordThen_cases (crates : Crates) (world : World) (ctx : Ctx) (seq : ℕ)
    (kind hash : String) (value : Value) (result : Except ScriptError α) :
    (∃ error, recordThen crates world ctx seq kind hash value result =
        (.error (journalFatal error), ctx) ∧
      (seq = ctx.journal.entries.length → (journalFatal error).isReplayError = false)) ∨
    ∃ journal', recordThen crates world ctx seq kind hash value result =
        (result, { ctx with journal := journal' }) ∧ seq = ctx.journal.entries.length ∧
      journal'.entries = ctx.journal.entries ++ [⟨seq, kind, hash, value, world.now seq⟩] := by
  unfold recordThen Ctx.record
  rcases record_cases ctx.journal ⟨seq, kind, hash, value, world.now seq⟩
    (world.appendError seq) with ⟨error, herror, hsafe⟩ | ⟨journal', hok, hseq, hentries⟩
  · rw [herror]
    exact .inl ⟨error, rfl, hsafe⟩
  · rw [hok]
    exact .inr ⟨journal', rfl, hseq, hentries⟩

/-- A result that is no journaled host error. -/
def PlainResult (toResult : α → Value) : Prop := ∀ v, hostErrorMessage (toResult v) = none

theorem hostErrorMessage_sentinel (message : String) :
    hostErrorMessage (hostErrorSentinel message) = some message := by
  simp [hostErrorMessage, hostErrorSentinel, Value.get, Value.asStr]

theorem plainResult_string : PlainResult Value.string := fun _ => rfl

theorem plainResult_agentResult : PlainResult AgentResult.toValue := by
  intro v
  simp [hostErrorMessage, AgentResult.toValue, Value.get, hostErrorKey]

theorem plainResult_budgetState : PlainResult BudgetState.toValue := by
  intro v
  simp [hostErrorMessage, BudgetState.toValue, Value.get, hostErrorKey]

theorem settleReply_cases {toResult : α → Value} (hplain : PlainResult toResult)
    (crates : Crates) (world : World) (ctx : Ctx) (seq : ℕ) (kind hash : String)
    (delivery : Delivery α) :
    (∃ error, settleReply crates world ctx seq kind hash toResult delivery = (.error error, ctx) ∧
      (seq = ctx.journal.entries.length → error.isReplayError = false)) ∨
    ∃ value journal', settleReply crates world ctx seq kind hash toResult delivery =
        (replayHostError value, { ctx with journal := journal' }) ∧
      seq = ctx.journal.entries.length ∧
      journal'.entries = ctx.journal.entries ++ [⟨seq, kind, hash, value, world.now seq⟩] := by
  have hrecord : ∀ value result, result = replayHostError value →
      (∃ error, recordThen crates world ctx seq kind hash value result = (.error error, ctx) ∧
        (seq = ctx.journal.entries.length → error.isReplayError = false)) ∨
      ∃ value' journal', recordThen crates world ctx seq kind hash value result =
          (replayHostError value', { ctx with journal := journal' }) ∧
        seq = ctx.journal.entries.length ∧
        journal'.entries = ctx.journal.entries ++ [⟨seq, kind, hash, value', world.now seq⟩] := by
    rintro value result rfl
    rcases recordThen_cases crates world ctx seq kind hash value (replayHostError value) with
      ⟨error, herror, hsafe⟩ | ⟨journal', hok, hseq, hentries⟩
    · exact .inl ⟨_, herror, hsafe⟩
    · exact .inr ⟨value, journal', hok, hseq, hentries⟩
  have hsentinel : ∀ message, (.error (.runtime message) : Except ScriptError Value) =
      replayHostError (hostErrorSentinel message) := by
    intro message
    unfold replayHostError
    rw [hostErrorMessage_sentinel]
  have hvalue : ∀ v, (.ok (toResult v) : Except ScriptError Value) =
      replayHostError (toResult v) := by
    intro v
    unfold replayHostError
    rw [hplain v]
  unfold settleReply
  split
  · exact .inl ⟨_, rfl, fun _ => rfl⟩
  · exact .inl ⟨_, rfl, fun _ => rfl⟩
  · exact .inl ⟨_, rfl, fun _ => rfl⟩
  · exact .inl ⟨_, rfl, fun _ => rfl⟩
  · exact .inl ⟨_, rfl, fun _ => rfl⟩
  · exact hrecord _ _ (hsentinel _)
  · exact hrecord _ _ (hsentinel _)
  · exact hrecord _ _ (hvalue _)

variable {kind : String} {payload : Value} {request : WorkflowHostRequest}
  {answers : ℕ → Delivery α} {toResult : α → Value}

theorem hostCall_covered (hlt : ctx.seq < ctx.journal.entries.length) (hmax : ctx.seq < maxHostCalls) :
    hostCall crates world ctx kind payload request answers toResult =
      ((match replayKey crates ctx.journal ctx.seq (kind, payload) with
        | .error error => .error (journalFatal error)
        | .ok recorded => replayHostError (recorded.getD .null)),
        { ctx with seq := ctx.seq + 1 }) := by
  have hne : replayKey crates ctx.journal ctx.seq (kind, payload) ≠ .ok none :=
    replayKey_ne_none hlt
  unfold hostCall Ctx.nextSeq Ctx.reserveSeqs
  rw [if_neg (by omega)]
  unfold replayKey at hne ⊢
  dsimp only at hne ⊢
  split
  · rename_i herror
    rw [herror]
  · rename_i hsome
    rw [hsome]
    rfl
  · rename_i hnone
    exact (hne hnone).elim

/-- A host call beyond the journal ends without an entry, or its entry is recorded. -/
theorem hostCall_cases (hplain : PlainResult toResult)
    (hlive : ctx.journal.entries.length ≤ ctx.seq) :
    (∃ error ctx', hostCall crates world ctx kind payload request answers toResult =
        (.error error, ctx') ∧ ctx'.journal = ctx.journal ∧
      (∀ message, error = .runtime message → ctx'.seq = ctx.seq + 1) ∧
      (ctx.seq = ctx.journal.entries.length → error.isReplayError = false)) ∨
    ∃ entry ctx', hostCall crates world ctx kind payload request answers toResult =
        (replayHostError entry.result, ctx') ∧ ctx.journal.entries.length = ctx.seq ∧
      ctx.seq < maxHostCalls ∧ EntryFor crates ctx.seq (kind, payload) entry ∧
      ctx'.journal.entries = ctx.journal.entries ++ [entry] ∧ ctx'.seq = ctx.seq + 1 := by
  unfold hostCall Ctx.nextSeq Ctx.reserveSeqs
  by_cases hmax : ctx.seq + 1 > maxHostCalls
  · rw [if_pos hmax]
    refine .inl ⟨_, _, rfl, rfl, fun message h => ?_, fun _ => rfl⟩
    cases h
  · have hnone : replayKey crates ctx.journal ctx.seq (kind, payload) = .ok none :=
      replayKey_of_uncovered hlive
    unfold replayKey at hnone
    rw [if_neg hmax]
    dsimp only at hnone ⊢
    rw [hnone]
    dsimp only
    rcases settleReply_cases hplain crates world (Ctx.send { ctx with seq := ctx.seq + 1 } request)
      ctx.seq kind (requestHash crates kind payload) (answers ctx.requests.length) with
      ⟨error, herror, hsafe⟩ | ⟨value, journal', hok, hseq, hentries⟩
    · exact .inl ⟨error, _, herror, rfl, fun _ _ => rfl, hsafe⟩
    · refine .inr ⟨⟨ctx.seq, kind, requestHash crates kind payload, value, world.now ctx.seq⟩, _,
        hok, hseq.symm, by omega, ⟨rfl, rfl, rfl⟩, hentries, rfl⟩

end HostCalls

/-- What the script sees of a journaled value. -/
def replayedValue (crates : Crates) (value : Value) : Except ScriptError Value :=
  match replayHostError value with
  | .error error => .error error
  | .ok value => valueToDynamic crates value

section Specs

variable {crates : Crates} {world : World} {ctx : Ctx} {α β : Type}

theorem valueToDynamic_error {value : Value} {error : ScriptError}
    (h : valueToDynamic crates value = .error error) : ∃ message, error = .runtime message := by
  unfold valueToDynamic at h
  split at h
  · cases h
    exact ⟨_, rfl⟩
  · cases h

theorem replayHostError_error {value : Value} {error : ScriptError}
    (h : replayHostError value = .error error) : ∃ message, error = .runtime message := by
  unfold replayHostError at h
  split at h
  · cases h
    exact ⟨_, rfl⟩
  · cases h

theorem replayedValue_of_error {value : Value} {error : ScriptError}
    (h : replayHostError value = .error error) : replayedValue crates value = .error error := by
  unfold replayedValue
  rw [h]

theorem replayedValue_of_ok {value value' : Value} (h : replayHostError value = .ok value') :
    replayedValue crates value = valueToDynamic crates value' := by
  unfold replayedValue
  rw [h]

theorem replayedValue_safe (value : Value) (error : ScriptError)
    (h : replayedValue crates value = .error error) : error.isReplayError = false := by
  unfold replayedValue at h
  split at h
  · rename_i herror
    cases h
    obtain ⟨message, rfl⟩ := replayHostError_error herror
    rfl
  · obtain ⟨message, rfl⟩ := valueToDynamic_error h
    rfl

theorem replyWith_error {f : α → β} {result : Except ScriptError α} {error : ScriptError} :
    result.map f = .error error ↔ result = .error error := by
  cases result <;> simp [Except.map]

theorem goesOn_map {f : α → β} {result : Except ScriptError α} :
    GoesOn (result.map f) ↔ GoesOn result := by
  unfold GoesOn
  simp only [ne_eq, replyWith_error]

/-- Wrapping the result of a host function keeps its description. -/
theorem CallSpec.map {keys : List Key} {replayOf : List Value → Except ScriptError α}
    {f : World → Ctx → Except ScriptError α × Ctx} (h : CallSpec crates keys replayOf f)
    (g : α → Reply) :
    CallSpec crates keys (fun values => (replayOf values).map g)
      (fun world ctx => replyWith g (f world ctx)) := by
  refine ⟨fun values error herror => h.safe values error (replyWith_error.mp herror),
    fun world ctx hcovered hmax => ?_, fun world ctx hnot => ?_⟩
  · obtain ⟨hresult, hjournal, hsilent, hseq⟩ := h.covered world ctx hcovered hmax
    refine ⟨?_, hjournal, hsilent, fun hgoes => hseq (goesOn_map.mp hgoes)⟩
    unfold replyWith
    dsimp only
    rw [hresult]
    cases replayKeys crates ctx.journal ctx.seq keys <;> rfl
  · obtain ⟨hgrows, hbounded, hgoesOn, hsafe, hundiverged, hreplays⟩ := h.live world ctx hnot
    refine ⟨hgrows, hbounded, fun hgoes => hgoesOn (goesOn_map.mp hgoes),
      fun hle hun error herror => hsafe hle hun error (replyWith_error.mp herror),
      fun hnone => hundiverged fun error herror => hnone error (replyWith_error.mpr herror),
      fun hgoes hcovered => ?_⟩
    obtain ⟨values, hvalues, heq⟩ := hreplays (goesOn_map.mp hgoes) hcovered
    refine ⟨values, hvalues, ?_⟩
    unfold replyWith
    dsimp only
    rw [heq]

theorem callSpec_valueCall {toResult : α → Value} (hplain : PlainResult toResult) (kind : String)
    (payload : Value) (request : WorkflowHostRequest) (answers : World → ℕ → Delivery α) :
    CallSpec crates [(kind, payload)] (fun values => replayedValue crates (values.headD .null))
      (fun world ctx => valueCall crates world ctx kind payload request (answers world) toResult) := by
  refine callSpec_single replayedValue_safe (fun world ctx hlt hmax => ?_)
    fun world ctx hlive => ?_
  · unfold valueCall
    rw [hostCall_covered hlt hmax]
    cases replayKey crates ctx.journal ctx.seq (kind, payload) with
    | error error => exact ⟨rfl, rfl, rfl, fun _ => rfl⟩
    | ok recorded =>
      dsimp only
      unfold replayedValue
      cases replayHostError (recorded.getD .null) <;> exact ⟨rfl, rfl, rfl, fun _ => rfl⟩
  · unfold valueCall
    rcases hostCall_cases hplain hlive with ⟨error, ctx', hcall, hjournal, hgoes, hsafe⟩ |
      ⟨entry, ctx', hcall, hdense, hbounded, hentry, hjournal, hseq⟩
    · rw [hcall]
      exact .unrecorded error ctx' hjournal hgoes hsafe
    · rw [hcall]
      have hrecorded : SingleLive crates world (kind, payload) (replayedValue crates) ctx
          (replayedValue crates entry.result, ctx') :=
        .recorded _ ctx' entry hdense hbounded hentry hjournal hseq (fun _ => rfl)
          (replayedValue_safe _)
      cases hresult : replayHostError entry.result with
      | error error => rwa [replayedValue_of_error hresult] at hrecorded
      | ok value => rwa [replayedValue_of_ok hresult] at hrecorded

/-- What becomes of a reservation: it is granted, refused or ends the script. -/
theorem reserveAgentCalls_cases (world : World) (ctx : Ctx) (count : ℕ) :
    (∃ ctx', reserveAgentCalls world ctx count = (.ok (), ctx') ∧
      ctx'.journal = ctx.journal ∧ ctx'.seq = ctx.seq) ∨
    (∃ message ctx', reserveAgentCalls world ctx count = (.error (.runtime message), ctx') ∧
      Refused world ctx ctx' ∧ ctx'.journal = ctx.journal ∧ ctx'.seq = ctx.seq) ∨
    ∃ token ctx', reserveAgentCalls world ctx count = (.error (.terminated token), ctx') ∧
      ctx'.journal = ctx.journal ∧ (ScriptError.terminated token).isReplayError = false := by
  unfold reserveAgentCalls
  by_cases hzero : count = 0
  · rw [if_pos hzero]
    exact .inl ⟨ctx, rfl, rfl, rfl⟩
  · rw [if_neg hzero]
    dsimp only
    split
    · exact .inr (.inr ⟨_, _, rfl, rfl, rfl⟩)
    · exact .inr (.inr ⟨_, _, rfl, rfl, rfl⟩)
    · exact .inl ⟨_, rfl, rfl, rfl⟩
    · exact .inr (.inr ⟨_, _, rfl, rfl, rfl⟩)
    · exact .inr (.inr ⟨_, _, rfl, rfl, rfl⟩)
    · exact .inr (.inr ⟨_, _, rfl, rfl, rfl⟩)
    · rename_i hreply
      refine .inr (.inl ⟨_, _, rfl, ⟨count, rfl, ?_⟩, rfl, rfl⟩)
      rw [hreply]
      rfl
    · rename_i hreply
      refine .inr (.inl ⟨_, _, rfl, ⟨count, rfl, ?_⟩, rfl, rfl⟩)
      rw [hreply]
      rfl

theorem replaySpawnAgent_eq (journal : Journal) (seq : ℕ) (opts : AgentOpts) :
    replaySpawnAgent crates journal seq opts.toValue
      (requestHash crates "spawn_agent" opts.toValue) = replayKey crates journal seq opts.key := by
  unfold replayKey replayCall AgentOpts.key
  rw [if_pos rfl]

theorem journal_releaseAgentCalls (ctx : Ctx) (count : ℕ) :
    (releaseAgentCalls ctx count).journal = ctx.journal := by
  unfold releaseAgentCalls
  split <;> rfl

theorem seq_releaseAgentCalls (ctx : Ctx) (count : ℕ) :
    (releaseAgentCalls ctx count).seq = ctx.seq := by
  unfold releaseAgentCalls
  split <;> rfl

theorem callSpec_spawnAgentCall (opts : AgentOpts) :
    CallSpec crates [opts.key] (fun values => replayedValue crates (values.headD .null))
      (fun world ctx => spawnAgentCall crates world ctx opts) := by
  refine callSpec_single replayedValue_safe (fun world ctx hlt hmax => ?_)
    fun world ctx hlive => ?_
  · have hne : replayKey crates ctx.journal ctx.seq opts.key ≠ .ok none := replayKey_ne_none hlt
    unfold spawnAgentCall
    dsimp only
    rw [replaySpawnAgent_eq]
    cases hkey : replayKey crates ctx.journal ctx.seq opts.key with
    | error error =>
      refine ⟨rfl, rfl, rfl, fun hgoes => ?_⟩
      exact (not_goesOn_terminated _ hgoes).elim
    | ok recorded =>
      cases recorded with
      | none => exact (hne hkey).elim
      | some value =>
        unfold AgentOpts.key at hkey
        dsimp only
        rw [hostCall_covered hlt hmax, hkey]
        dsimp only [Option.getD_some]
        unfold replayedValue
        cases replayHostError value <;> exact ⟨rfl, rfl, rfl, fun _ => rfl⟩
  · unfold spawnAgentCall
    dsimp only
    rw [replaySpawnAgent_eq, replayKey_of_uncovered hlive]
    dsimp only
    rcases reserveAgentCalls_cases world ctx 1 with ⟨ctx₁, hreserve, hjournal₁, hseq₁⟩ |
      ⟨message, ctx₁, hreserve, hrefused, hjournal₁, hseq₁⟩ |
      ⟨token, ctx₁, hreserve, hjournal₁, hsafe⟩
    · rw [hreserve]
      dsimp only
      have hlive₁ : ctx₁.journal.entries.length ≤ ctx₁.seq := by rwa [hjournal₁, hseq₁]
      rcases hostCall_cases plainResult_agentResult hlive₁ with
        ⟨error, ctx', hcall, hjournal, hgoes, hsafe⟩ |
        ⟨entry, ctx', hcall, hdense, hbounded, hentry, hjournal, hseq⟩
      · rw [hcall]
        refine .unrecorded error _ ?_ (fun message hmessage => ?_) fun hdense => ?_
        · split
          · rw [journal_releaseAgentCalls, hjournal, hjournal₁]
          · rw [hjournal, hjournal₁]
        · have hseq := hgoes message hmessage
          split
          · rw [seq_releaseAgentCalls, hseq, hseq₁]
          · rw [hseq, hseq₁]
        · exact hsafe (by rw [hjournal₁, hseq₁, hdense])
      · rw [hcall]
        rw [hjournal₁, hseq₁] at hdense
        rw [hseq₁] at hbounded hentry hseq
        rw [hjournal₁] at hjournal
        have hrecorded : SingleLive crates world opts.key (replayedValue crates) ctx
            (replayedValue crates entry.result, ctx') :=
          .recorded _ ctx' entry hdense hbounded hentry hjournal hseq (fun _ => rfl)
            (replayedValue_safe _)
        cases hresult : replayHostError entry.result with
        | error error =>
          obtain ⟨message, rfl⟩ := replayHostError_error hresult
          rwa [replayedValue_of_error hresult] at hrecorded
        | ok value => rwa [replayedValue_of_ok hresult] at hrecorded
    · rw [hreserve]
      exact .refused message ctx₁ hrefused hseq₁ hjournal₁
    · rw [hreserve]
      refine .unrecorded _ ctx₁ hjournal₁ (fun message h => ?_) fun _ => hsafe
      cases h

/-- A journaled pause is over. -/
def replayedPause (_ : Value) : Except ScriptError Unit := .ok ()

theorem callSpec_awaitUser {kind : String} {parsed : PauseKind}
    (hparse : PauseKind.parse kind = .ok parsed) (message : String) :
    CallSpec crates
      [("await_user", .object [("kind", .string kind), ("message", .string message)])]
      (fun values => replayedPause (values.headD .null))
      (fun world ctx => awaitUser crates world ctx kind message) := by
  refine callSpec_single (fun _ _ h => by cases h) (fun world ctx hlt hmax => ?_)
    fun world ctx hlive => ?_
  · have hne : replayKey crates ctx.journal ctx.seq
        ("await_user", .object [("kind", .string kind), ("message", .string message)]) ≠ .ok none :=
      replayKey_ne_none hlt
    have hkind : ("await_user" : String) ≠ "spawn_agent" := by decide
    unfold awaitUser Ctx.nextSeq Ctx.reserveSeqs
    unfold replayKey replayCall at hne ⊢
    rw [hparse, if_neg (by omega)]
    simp only [hkind, if_false] at hne ⊢
    split
    · rename_i hsome
      rw [hsome]
      exact ⟨rfl, rfl, rfl, fun _ => rfl⟩
    · rename_i hnone
      exact (hne hnone).elim
    · rename_i herror
      rw [herror]
      exact ⟨rfl, rfl, rfl, fun _ => rfl⟩
  · unfold awaitUser Ctx.nextSeq Ctx.reserveSeqs
    rw [hparse]
    dsimp only
    by_cases hmax : ctx.seq + 1 > maxHostCalls
    · rw [if_pos hmax]
      refine .unrecorded _ ctx rfl (fun message h => ?_) fun _ => rfl
      cases h
    · rw [if_neg hmax]
      dsimp only
      rw [replay_of_uncovered hlive]
      dsimp only
      rcases recordThen_cases crates world { ctx with seq := ctx.seq + 1 } ctx.seq "await_user"
        (requestHash crates "await_user"
          (.object [("kind", .string kind), ("message", .string message)])) .null
        (.error (.terminated (.pause parsed message)) : Except ScriptError Unit) with
        ⟨error, herror, hsafe⟩ | ⟨journal', hok, hseq, hentries⟩
      · rw [herror]
        refine .unrecorded _ _ rfl (fun message h => ?_) hsafe
        cases h
      · rw [hok]
        refine .recorded _ _ _ hseq.symm (by omega) ⟨rfl, rfl, rfl⟩ hentries rfl
          (fun hgoes => (not_goesOn_terminated _ hgoes).elim) ?_
        rintro error ⟨⟩
        rfl

end Specs

end Ezer.Workflow
