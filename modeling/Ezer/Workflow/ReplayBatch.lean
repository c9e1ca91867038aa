import Ezer.Workflow.ReplayCalls

/-!
# Parallel calls

A parallel call replays the items the journal has and sends the others. Its
live results are recorded together after all of them have come in, in the
order of their sequence numbers, so that a recorded batch is replayed with the
same results.
-/

namespace Ezer.Workflow

/-- The value recorded for an answer. -/
def Delivery.journaled : Delivery AgentResult → Value
  | .answered (.ok result) => result.toValue
  | .answered (.error .budgetExceeded) => hostTerminalSentinel "budget_exceeded"
  | .answered (.error .cancelled) => hostTerminalSentinel "cancelled"
  | .answered (.error _) => .null
  | .dropped | .closed => hostTerminalSentinel "dropped_reply"

namespace PendingAgent

/-- The value of an item, replayed or recorded. -/
def value : PendingAgent → Value
  | .replayed value => value
  | .live _ _ reply => reply.journaled

/-- What an item adds to the results of its batch. -/
def resolved : PendingAgent → Option (Option (ℕ × String) × Value)
  | .replayed value =>
    if isHostTerminalSentinel value || (hostErrorMessage value).isSome then none
    else some (none, value)
  | .live seq hash reply => some (some (seq, hash), reply.journaled)

end PendingAgent

/-- The items stand for the requests: replayed ones for entries of the journal, live
ones for the sequence numbers after it. -/
inductive PendingFor (crates : Crates) (journal : Journal) :
    ℕ → List AgentOpts → List PendingAgent → Prop where
  | nil (seq : ℕ) : PendingFor crates journal seq [] []
  | replayed {seq : ℕ} {opts : AgentOpts} {rest : List AgentOpts} {pending : List PendingAgent}
      (value : Value) (covered : seq < journal.entries.length)
      (replay : replayKey crates journal seq opts.key = .ok (some value))
      (tail : PendingFor crates journal (seq + 1) rest pending) :
      PendingFor crates journal seq (opts :: rest) (.replayed value :: pending)
  | live {seq : ℕ} {opts : AgentOpts} {rest : List AgentOpts} {pending : List PendingAgent}
      (reply : Delivery AgentResult) (uncovered : journal.entries.length ≤ seq)
      (tail : PendingFor crates journal (seq + 1) rest pending) :
      PendingFor crates journal seq (opts :: rest)
        (.live seq (requestHash crates "spawn_agent" opts.toValue) reply :: pending)

/-- The result of a batch whose entries are recorded. -/
def Batch.result (crates : Crates) (batch : Batch) : Except ScriptError (List Value) :=
  match batch.terminalKind, batch.terminalError with
  | some kind, _ => .error (hostTerminalError kind)
  | none, some error => .error error
  | none, none => valuesToDynamic crates (batch.resolved.map Prod.snd)

/-- The result of a batch of journaled values. -/
def replayedBatch (crates : Crates) (values : List Value) : Except ScriptError (List Value) :=
  ((values.map PendingAgent.replayed).foldl Batch.add {}).result crates

section Results

variable {crates : Crates}

theorem valuesToDynamic_error {values : List Value} {error : ScriptError}
    (h : valuesToDynamic crates values = .error error) : ∃ message, error = .runtime message := by
  induction values with
  | nil => cases h
  | cons v vs ih =>
    unfold valuesToDynamic at h
    split at h
    · rename_i herror
      cases h
      exact valueToDynamic_error herror
    · split at h
      · rename_i herror
        cases h
        exact ih herror
      · cases h

theorem hostTerminalError_terminated (kind : String) :
    ∃ token, hostTerminalError kind = .terminated token ∧
      (hostTerminalError kind).isReplayError = false := by
  unfold hostTerminalError
  split
  · exact ⟨_, rfl, rfl⟩
  · split
    · exact ⟨_, rfl, rfl⟩
    · split
      · exact ⟨_, rfl, rfl⟩
      · exact ⟨_, rfl, rfl⟩

/-- The first error of the replayed items of a batch is one the script can catch. -/
def Batch.Catchable (batch : Batch) : Prop :=
  ∀ error, batch.terminalError = some error → ∃ message, error = .runtime message

theorem isHostTerminalSentinel_agentResult (result : AgentResult) :
    isHostTerminalSentinel result.toValue = false := by
  simp [isHostTerminalSentinel, AgentResult.toValue, Value.get, hostTerminalKey]

/-- What one item does to its batch. -/
inductive Batch.Added (batch : Batch) : PendingAgent → Batch → Prop where
  | terminal (value : Value) (kind : String) :
      Added batch (.replayed value) (batch.terminal kind)
  | error (value : Value) (message : String) (sentinel : isHostTerminalSentinel value = false)
      (isError : hostErrorMessage value = some message) :
      Added batch (.replayed value)
        { batch with terminalError := batch.terminalError.or (some (.runtime message)) }
  | value (value : Value) (sentinel : isHostTerminalSentinel value = false)
      (noError : hostErrorMessage value = none) :
      Added batch (.replayed value) (batch.push none value)
  | result (seq : ℕ) (hash : String) (reply : Delivery AgentResult)
      (sentinel : isHostTerminalSentinel reply.journaled = false)
      (noError : hostErrorMessage reply.journaled = none) :
      Added batch (.live seq hash reply) (batch.push (some (seq, hash)) reply.journaled)
  | ended (seq : ℕ) (hash : String) (reply : Delivery AgentResult) (kind : String) :
      Added batch (.live seq hash reply)
        ((batch.terminal kind).push (some (seq, hash)) reply.journaled)

theorem Batch.added (batch : Batch) (p : PendingAgent) : batch.Added p (batch.add p) := by
  cases p with
  | replayed value =>
    cases hsentinel : isHostTerminalSentinel value with
    | true =>
      have hadd : batch.add (.replayed value) =
          batch.terminal (((value.get hostTerminalKey).bind Value.asStr).getD "unknown") := by
        simp [Batch.add, hsentinel]
      rw [hadd]
      exact .terminal value _
    | false =>
      cases hmessage : hostErrorMessage value with
      | some message =>
        have hadd : batch.add (.replayed value) =
            { batch with terminalError := batch.terminalError.or (some (.runtime message)) } := by
          simp [Batch.add, hsentinel, hmessage]
        rw [hadd]
        exact .error value message hsentinel hmessage
      | none =>
        have hadd : batch.add (.replayed value) = batch.push none value := by
          simp [Batch.add, hsentinel, hmessage]
        rw [hadd]
        exact .value value hsentinel hmessage
  | live seq hash reply =>
    cases reply with
    | closed | dropped => exact .ended seq hash _ "dropped_reply"
    | answered answer =>
      cases answer with
      | ok result =>
        exact .result seq hash _ (isHostTerminalSentinel_agentResult result)
          (plainResult_agentResult result)
      | error error =>
        cases error with
        | budgetExceeded => exact .ended seq hash _ "budget_exceeded"
        | cancelled => exact .ended seq hash _ "cancelled"
        | agentCallQuotaExceeded | unsupported | failed => exact .result seq hash _ rfl rfl

theorem Batch.terminalKind_terminal (batch : Batch) (kind : String) :
    (batch.terminal kind).terminalKind ≠ none := by
  unfold Batch.terminal
  cases batch.terminalKind <;> simp

variable {batch b b' : Batch}

theorem Batch.Catchable.add (h : batch.Catchable) (p : PendingAgent) : (batch.add p).Catchable := by
  have hadded := batch.added p
  generalize batch.add p = added at hadded
  cases hadded with
  | error value message sentinel isError =>
    intro error herror
    dsimp only at herror
    cases hold : batch.terminalError with
    | none =>
      rw [hold] at herror
      cases herror
      exact ⟨_, rfl⟩
    | some old =>
      rw [hold] at herror
      cases herror
      exact h _ hold
  | terminal | value | result | ended => exact h

theorem Batch.catchable_foldl (pending : List PendingAgent) (h : batch.Catchable) :
    (pending.foldl Batch.add batch).Catchable := by
  induction pending generalizing batch with
  | nil => exact h
  | cons p pending ih => exact ih (h.add p)

theorem Batch.catchable_empty : ({} : Batch).Catchable := by
  intro error h
  cases h

/-- A result without an error of the journal never says that the journal does not
fit. -/
theorem Batch.result_safe (h : batch.Catchable) (error : ScriptError)
    (herror : batch.result crates = .error error) : error.isReplayError = false := by
  unfold Batch.result at herror
  split at herror
  · cases herror
    exact (hostTerminalError_terminated _).choose_spec.2
  · rename_i hterminal
    cases herror
    obtain ⟨message, rfl⟩ := h _ hterminal
    rfl
  · obtain ⟨message, rfl⟩ := valuesToDynamic_error herror
    rfl

/-- The results of a batch are those of its items. -/
theorem Batch.resolved_foldl (pending : List PendingAgent) (batch : Batch) :
    (pending.foldl Batch.add batch).resolved =
      batch.resolved ++ pending.filterMap PendingAgent.resolved := by
  induction pending generalizing batch with
  | nil => simp
  | cons p pending ih =>
    have hadd : (batch.add p).resolved = batch.resolved ++ p.resolved.toList := by
      cases p with
      | replayed value =>
        unfold Batch.add PendingAgent.resolved
        by_cases hterminal : isHostTerminalSentinel value = true
        · simp [hterminal, Batch.terminal]
        · cases hmessage : hostErrorMessage value <;> simp [hterminal, hmessage, Batch.push]
      | live seq hash reply =>
        have hadded := batch.added (.live seq hash reply)
        generalize batch.add (.live seq hash reply) = added at hadded
        cases hadded <;> rfl
    rw [List.foldl_cons, ih, hadd, List.append_assoc]
    cases hresolved : p.resolved <;> simp [hresolved]

/-- Two batches have the same errors and results, whatever of them is recorded. -/
structure Batch.Alike (b b' : Batch) : Prop where
  kind : b'.terminalKind = b.terminalKind
  error : b'.terminalError = b.terminalError
  values : b'.resolved.map Prod.snd = b.resolved.map Prod.snd

theorem Batch.terminalKind_add {p : PendingAgent}
    (h : (batch.add p).terminalKind = none) : batch.terminalKind = none := by
  have hadded := batch.added p
  generalize batch.add p = added at hadded h
  cases hadded with
  | terminal value kind => exact (batch.terminalKind_terminal kind h).elim
  | error | value | result => exact h
  | ended seq hash reply kind => exact (batch.terminalKind_terminal kind h).elim

theorem Batch.terminalKind_foldl {pending : List PendingAgent}
    (h : (pending.foldl Batch.add batch).terminalKind = none) : batch.terminalKind = none := by
  induction pending generalizing batch with
  | nil => exact h
  | cons p pending ih => exact Batch.terminalKind_add (ih h)

theorem Batch.add_value (batch : Batch) {value : Value}
    (hsentinel : isHostTerminalSentinel value = false) (hmessage : hostErrorMessage value = none) :
    batch.add (.replayed value) = batch.push none value := by
  simp [Batch.add, hsentinel, hmessage]

theorem Batch.Alike.push (h : b.Alike b') (live live' : Option (ℕ × String))
    (value : Value) : (b.push live value).Alike (b'.push live' value) := by
  refine ⟨h.kind, h.error, ?_⟩
  simp [Batch.push, h.values]

/-- An item that does not end the batch is replayed as it was recorded. -/
theorem Batch.Alike.add (h : b.Alike b') {p : PendingAgent}
    (hnone : (b.add p).terminalKind = none) : (b.add p).Alike (b'.add (.replayed p.value)) := by
  have hadded := b.added p
  generalize b.add p = added at hadded hnone
  cases hadded with
  | terminal value kind => exact (b.terminalKind_terminal kind hnone).elim
  | error value message sentinel isError =>
    refine ⟨?_, ?_, ?_⟩
    · simp [Batch.add, PendingAgent.value, sentinel, isError, h.kind]
    · simp [Batch.add, PendingAgent.value, sentinel, isError, h.error]
    · simp [Batch.add, PendingAgent.value, sentinel, isError, h.values]
  | value value sentinel noError =>
    unfold PendingAgent.value
    rw [b'.add_value sentinel noError]
    exact h.push _ _ _
  | result seq hash reply sentinel noError =>
    unfold PendingAgent.value
    rw [b'.add_value sentinel noError]
    exact h.push _ _ _
  | ended seq hash reply kind => exact (b.terminalKind_terminal kind hnone).elim

theorem Batch.Alike.foldl {pending : List PendingAgent} (h : b.Alike b')
    (hnone : (pending.foldl Batch.add b).terminalKind = none) :
    (pending.foldl Batch.add b).Alike
      (((pending.map PendingAgent.value).map PendingAgent.replayed).foldl Batch.add b') := by
  induction pending generalizing b b' with
  | nil => exact h
  | cons p pending ih => exact ih (h.add (Batch.terminalKind_foldl hnone)) hnone

theorem Batch.Alike.result (h : b.Alike b') :
    b'.result crates = b.result crates := by
  unfold Batch.result
  rw [h.kind, h.error, h.values]

/-- A resumable end of a batch is an end of the batch. -/
theorem Batch.terminalKind_of_resumable {pending : List PendingAgent}
    (hold : batch.resumableTerminal = true → batch.terminalKind ≠ none)
    (h : (pending.foldl Batch.add batch).resumableTerminal = true) :
    (pending.foldl Batch.add batch).terminalKind ≠ none := by
  induction pending generalizing batch with
  | nil => exact hold h
  | cons p pending ih =>
    refine ih (fun hadd => ?_) h
    have hadded := batch.added p
    generalize batch.add p = added at hadded hadd
    cases hadded with
    | terminal value kind => exact batch.terminalKind_terminal kind
    | error | value | result => exact hold hadd
    | ended seq hash reply kind => exact batch.terminalKind_terminal kind

end Results

section Spawning

variable {crates : Crates} {world : World} {journal : Journal}

theorem replayAgent_eq (journal : Journal) (seq : ℕ) (opts : AgentOpts) :
    replayAgent crates journal seq opts = replayKey crates journal seq opts.key :=
  replaySpawnAgent_eq journal seq opts

/-- The check before a parallel call finds just the divergences. -/
theorem liveCount_error_iff {seq : ℕ} {requests : List AgentOpts} {error : JournalError} :
    liveCount crates journal seq requests = .error error ↔
      replayKeys crates journal seq (requests.map AgentOpts.key) = .error error := by
  induction requests generalizing seq with
  | nil => simp [liveCount, replayKeys]
  | cons opts rest ih =>
    have hrest := @ih (seq + 1)
    unfold liveCount
    rw [List.map_cons, replayKeys_cons, replayAgent_eq]
    cases replayKey crates journal seq opts.key with
    | error e => simp
    | ok recorded =>
      dsimp only
      cases hlive : liveCount crates journal (seq + 1) rest with
      | error e =>
        cases hkeys : replayKeys crates journal (seq + 1) (rest.map AgentOpts.key) with
        | error | ok =>
          rw [hlive, hkeys] at hrest
          simpa using hrest
      | ok live =>
        cases hkeys : replayKeys crates journal (seq + 1) (rest.map AgentOpts.key) with
        | error e' =>
          rw [hlive, hkeys] at hrest
          simpa using hrest
        | ok values => simp

theorem liveCount_covered {seq live : ℕ} {requests : List AgentOpts}
    (hcovered : Covered journal seq (requests.map AgentOpts.key))
    (h : liveCount crates journal seq requests = .ok live) : live = 0 := by
  induction requests generalizing seq live with
  | nil =>
    cases h
    rfl
  | cons opts rest ih =>
    unfold Covered at hcovered
    simp only [List.map_cons, List.length_cons] at hcovered
    unfold liveCount at h
    rw [replayAgent_eq] at h
    split at h
    · cases h
    · rename_i recorded hrecorded
      cases recorded with
      | none => exact (replayKey_ne_none (by omega) hrecorded).elim
      | some value =>
        split at h
        · cases h
        · rename_i live' hlive
          have hzero := ih (by unfold Covered; omega) hlive
          cases h
          simpa using hzero

theorem spawnAll_covered {ctx : Ctx} {requests : List AgentOpts} {values : List Value}
    (hcovered : Covered ctx.journal ctx.seq (requests.map AgentOpts.key))
    (hmax : ctx.journal.entries.length ≤ maxHostCalls)
    (h : replayKeys crates ctx.journal ctx.seq (requests.map AgentOpts.key) = .ok values) :
    spawnAll crates world ctx requests =
      (.ok (values.map .replayed), { ctx with seq := ctx.seq + requests.length }) := by
  induction requests generalizing ctx values with
  | nil =>
    cases h
    rfl
  | cons opts rest ih =>
    unfold Covered at hcovered
    simp only [List.map_cons, List.length_cons] at hcovered
    rw [List.map_cons, replayKeys_cons] at h
    split at h
    · cases h
    · rename_i recorded hrecorded
      cases recorded with
      | none => exact (replayKey_ne_none (by omega) hrecorded).elim
      | some value =>
        split at h
        · cases h
        · rename_i values' hvalues
          cases h
          have htail := @ih { ctx with seq := ctx.seq + 1 } values'
            (by unfold Covered; dsimp only; omega) hmax hvalues
          unfold spawnAll Ctx.nextSeq Ctx.reserveSeqs
          rw [if_neg (by omega)]
          dsimp only
          rw [replayAgent_eq, hrecorded]
          dsimp only
          rw [htail]
          simp only [List.length_cons, List.map_cons, Option.getD_some]
          rw [show ctx.seq + 1 + rest.length = ctx.seq + (rest.length + 1) by omega]

/-- Sending the items of a batch that does not diverge ends the script, or all items
wait for their results. -/
theorem spawnAll_cases {ctx : Ctx} {requests : List AgentOpts}
    (hundiverged : Undiverged crates ctx.journal ctx.seq (requests.map AgentOpts.key)) :
    (∃ token ctx', spawnAll crates world ctx requests = (.error (.terminated token), ctx') ∧
      ctx'.journal = ctx.journal ∧ (ScriptError.terminated token).isReplayError = false) ∨
    ∃ pending ctx', spawnAll crates world ctx requests = (.ok pending, ctx') ∧
      ctx'.journal = ctx.journal ∧ ctx'.seq = ctx.seq + requests.length ∧
      PendingFor crates ctx.journal ctx.seq requests pending ∧
      (requests ≠ [] → ctx.seq + requests.length ≤ maxHostCalls) := by
  induction requests generalizing ctx with
  | nil => exact .inr ⟨[], ctx, rfl, rfl, rfl, .nil _, fun h => (h rfl).elim⟩
  | cons opts rest ih =>
    have hhead := hundiverged 0 opts.key rfl
    have hrest : Undiverged crates ctx.journal (ctx.seq + 1) (rest.map AgentOpts.key) := by
      intro i key hkey error herror
      refine hundiverged (i + 1) key hkey error ?_
      rwa [show ctx.seq + (i + 1) = ctx.seq + 1 + i by omega]
    rw [Nat.add_zero] at hhead
    unfold spawnAll Ctx.nextSeq Ctx.reserveSeqs
    by_cases hmax : ctx.seq + 1 > maxHostCalls
    · rw [if_pos hmax]
      exact .inl ⟨_, _, rfl, rfl, rfl⟩
    rw [if_neg hmax]
    dsimp only
    rw [replayAgent_eq]
    cases hkey : replayKey crates ctx.journal ctx.seq opts.key with
    | error error => exact (hhead error hkey).elim
    | ok recorded =>
      have hbound : ∀ seq, seq = ctx.seq + 1 + rest.length →
          (rest ≠ [] → ctx.seq + 1 + rest.length ≤ maxHostCalls) →
          seq = ctx.seq + (opts :: rest).length ∧
            (opts :: rest ≠ [] → ctx.seq + (opts :: rest).length ≤ maxHostCalls) := by
        intro seq hseq hle
        simp only [List.length_cons]
        refine ⟨by omega, fun _ => ?_⟩
        by_cases hnil : rest = []
        · subst hnil
          simp only [List.length_nil]
          omega
        · have hle' := hle hnil
          omega
      cases recorded with
      | some value =>
        have hlt : ctx.seq < ctx.journal.entries.length := by
          by_contra hge
          rw [replayKey_of_uncovered (by omega)] at hkey
          cases hkey
        dsimp only
        rcases @ih { ctx with seq := ctx.seq + 1 } hrest with
          ⟨token, ctx', hspawn, hjournal, hsafe⟩ |
          ⟨pending, ctx', hspawn, hjournal, hseq, hpending, hle⟩
        · rw [hspawn]
          exact .inl ⟨token, ctx', rfl, hjournal, hsafe⟩
        · rw [hspawn]
          obtain ⟨hseq', hle'⟩ := hbound _ hseq hle
          exact .inr ⟨_, ctx', rfl, hjournal, hseq', .replayed value hlt hkey hpending, hle'⟩
      | none =>
        have hge : ctx.journal.entries.length ≤ ctx.seq := by
          by_contra hlt
          exact replayKey_ne_none (by omega) hkey
        dsimp only
        split
        · exact .inl ⟨_, _, rfl, rfl, rfl⟩
        · rcases @ih (Ctx.send { ctx with seq := ctx.seq + 1 } (.spawnAgent opts)) hrest with
            ⟨token, ctx', hspawn, hjournal, hsafe⟩ |
            ⟨pending, ctx', hspawn, hjournal, hseq, hpending, hle⟩
          · rw [hspawn]
            exact .inl ⟨token, ctx', rfl, hjournal, hsafe⟩
          · rw [hspawn]
            obtain ⟨hseq', hle'⟩ := hbound _ hseq hle
            exact .inr ⟨_, ctx', rfl, hjournal, hseq', .live _ hge hpending, hle'⟩

end Spawning

section Recording

variable {crates : Crates} {world : World}

theorem Extends.cons {seq : ℕ} {key : Key} {keys : List Key} {journal journal' : Journal}
    (h : Extends crates (seq + 1) keys journal journal') :
    Extends crates seq (key :: keys) journal journal' := by
  refine ⟨h.grows, fun j entry hj hget => ?_⟩
  obtain ⟨hle, k, hk, hentry⟩ := h.entryFor j entry hj hget
  refine ⟨by omega, k, ?_, hentry⟩
  rw [show j - seq = j - (seq + 1) + 1 by omega]
  exact hk

/-- What recording the live results of a batch has done. -/
structure Recorded (crates : Crates) (seq : ℕ) (requests : List AgentOpts)
    (pending : List PendingAgent) (journal : Journal) (ctx : Ctx)
    (r : Except ScriptError Unit × Ctx) : Prop where
  seq_eq : r.2.seq = ctx.seq
  requests_eq : r.2.requests = ctx.requests
  grows : Extends crates seq (requests.map AgentOpts.key) ctx.journal r.2.journal
  failed : ∀ error, r.1 = .error error → (∃ token, error = .terminated token) ∧
    (ctx.journal.entries.length = max seq journal.entries.length →
      error.isReplayError = false ∧ r.2.journal.entries.length < seq + requests.length)
  replays : r.1 = .ok () → journal.entries <+: ctx.journal.entries →
    ctx.journal.entries.length = max seq journal.entries.length →
    replayKeys crates r.2.journal seq (requests.map AgentOpts.key) =
      .ok (pending.map PendingAgent.value)

theorem record_ctx_cases (ctx : Ctx) (seq : ℕ) (kind hash : String) (value : Value) :
    (∃ error, ctx.record crates world seq kind hash value = (.error (journalFatal error), ctx) ∧
      (seq = ctx.journal.entries.length → (journalFatal error).isReplayError = false)) ∨
    ∃ journal', ctx.record crates world seq kind hash value =
        (.ok (), { ctx with journal := journal' }) ∧ seq = ctx.journal.entries.length ∧
      journal'.entries = ctx.journal.entries ++ [⟨seq, kind, hash, value, world.now seq⟩] := by
  unfold Ctx.record
  rcases record_cases ctx.journal ⟨seq, kind, hash, value, world.now seq⟩
    (world.appendError seq) with ⟨error, herror, hsafe⟩ | ⟨journal', hok, hseq, hentries⟩
  · rw [herror]
    exact .inl ⟨error, rfl, hsafe⟩
  · rw [hok]
    exact .inr ⟨journal', rfl, hseq, hentries⟩

theorem recordResolved_recorded {journal : Journal} {seq : ℕ} {requests : List AgentOpts}
    {pending : List PendingAgent} (h : PendingFor crates journal seq requests pending) (ctx : Ctx) :
    Recorded crates seq requests pending journal ctx
      (recordResolved crates world ctx (pending.filterMap PendingAgent.resolved)) := by
  induction h generalizing ctx with
  | nil seq =>
    refine ⟨rfl, rfl, .refl, fun error herror => ?_, fun _ _ _ => rfl⟩
    cases herror
  | @replayed seq opts rest pending value covered replay tail ih =>
    have hskip : recordResolved crates world ctx
        ((PendingAgent.replayed value :: pending).filterMap PendingAgent.resolved) =
        recordResolved crates world ctx (pending.filterMap PendingAgent.resolved) := by
      cases hresolved : (PendingAgent.replayed value).resolved with
      | none => rw [List.filterMap_cons_none hresolved]
      | some resolved =>
        rw [List.filterMap_cons_some hresolved]
        simp only [PendingAgent.resolved] at hresolved
        split at hresolved
        · cases hresolved
        · cases hresolved
          rfl
    rw [hskip]
    obtain ⟨hseq, hrequests, hgrows, hfailed, hreplays⟩ := ih ctx
    refine ⟨hseq, hrequests, hgrows.cons, fun error herror => ?_, fun hok hprefix hlen => ?_⟩
    · obtain ⟨htoken, hdense⟩ := hfailed error herror
      refine ⟨htoken, fun hlen => ?_⟩
      obtain ⟨hsafe, hshort⟩ := hdense (by omega)
      exact ⟨hsafe, by simp only [List.length_cons]; omega⟩
    · have htail := hreplays hok hprefix (by omega)
      have hget : (recordResolved crates world ctx
          (pending.filterMap PendingAgent.resolved)).2.journal.entries[seq]? =
          journal.entries[seq]? := by
        obtain ⟨more, hmore⟩ := hprefix
        rw [hgrows.get (by omega), ← hmore, List.getElem?_append_left covered]
      rw [List.map_cons, replayKeys_cons, replayKey_congr hget, replay]
      dsimp only
      rw [htail]
      rfl
  | @live seq opts rest pending reply uncovered tail ih =>
    simp only [List.filterMap_cons, PendingAgent.resolved, recordResolved]
    rcases record_ctx_cases ctx seq "spawn_agent"
      (requestHash crates "spawn_agent" opts.toValue) reply.journaled with
      ⟨error, herror, hsafe⟩ | ⟨journal', hok, hseq, hentries⟩
    · rw [herror]
      refine ⟨rfl, rfl, .refl, ?_, fun hok => by cases hok⟩
      rintro error' ⟨⟩
      refine ⟨⟨_, rfl⟩, fun hlen => ⟨hsafe (by omega), ?_⟩⟩
      simp only [List.length_cons]
      omega
    · rw [hok]
      dsimp only
      have hentry : EntryFor crates seq opts.key ⟨seq, "spawn_agent",
          requestHash crates "spawn_agent" opts.toValue, reply.journaled, world.now seq⟩ :=
        ⟨rfl, rfl, rfl⟩
      have hone : Extends crates seq ((opts :: rest).map AgentOpts.key) ctx.journal journal' :=
        .concat (i := 0) hseq.symm rfl hentry hentries
      have hlen' : journal'.entries.length = seq + 1 := by
        rw [hentries, List.length_append, ← hseq]
        rfl
      obtain ⟨hseq', hrequests, hgrows, hfailed, hreplays⟩ := ih { ctx with journal := journal' }
      refine ⟨hseq', hrequests, hone.trans hgrows.cons, fun error herror => ?_,
        fun hok' hprefix _ => ?_⟩
      · obtain ⟨htoken, hdense⟩ := hfailed error herror
        refine ⟨htoken, fun _ => ?_⟩
        obtain ⟨hsafe, hshort⟩ := hdense (by dsimp only; omega)
        exact ⟨hsafe, by simp only [List.length_cons]; omega⟩
      · have hprefix' : journal.entries <+: journal'.entries := hprefix.trans hone.grows
        have htail := hreplays hok' hprefix' (by dsimp only; omega)
        have hget : (recordResolved crates world { ctx with journal := journal' }
            (pending.filterMap PendingAgent.resolved)).2.journal.entries[seq]? =
            some ⟨seq, "spawn_agent", requestHash crates "spawn_agent" opts.toValue,
              reply.journaled, world.now seq⟩ := by
          have hlt : seq < journal'.entries.length := by omega
          rw [hgrows.get hlt, hentries, hseq, List.getElem?_concat_length]
        rw [List.map_cons, replayKeys_cons, replayKey_of_entryFor hget hentry]
        dsimp only
        rw [htail]
        rfl

end Recording

section Parallel

variable {crates : Crates} {world : World}

theorem recordResolved_replayed (ctx : Ctx) (values : List Value) :
    recordResolved crates world ctx
      ((values.map PendingAgent.replayed).filterMap PendingAgent.resolved) = (.ok (), ctx) := by
  induction values with
  | nil => rfl
  | cons value values ih =>
    rw [List.map_cons]
    cases hresolved : (PendingAgent.replayed value).resolved with
    | none => rwa [List.filterMap_cons_none hresolved]
    | some resolved =>
      rw [List.filterMap_cons_some hresolved]
      simp only [PendingAgent.resolved] at hresolved
      split at hresolved
      · cases hresolved
      · cases hresolved
        exact ih

/-- A batch that was recorded or replayed as a whole has its own result. -/
theorem settleBatch_eq (ctx : Ctx) (live : ℕ) (batch : Batch) :
    (batch.resumableTerminal = true ∧
      settleBatch crates world ctx live batch =
        (batch.result crates, releaseAgentCalls ctx live)) ∨
    (batch.resumableTerminal = true ∧ batch.terminalKind = none) ∨
    (batch.resumableTerminal = false ∧
      (recordResolved crates world ctx batch.resolved).1 = .ok () ∧
      settleBatch crates world ctx live batch =
        (batch.result crates, (recordResolved crates world ctx batch.resolved).2)) ∨
    ∃ error, batch.resumableTerminal = false ∧
      (recordResolved crates world ctx batch.resolved).1 = .error error ∧
      settleBatch crates world ctx live batch =
        ((match batch.terminalKind, batch.terminalError with
          | some kind, _ => .error (hostTerminalError kind)
          | none, some earlier => .error earlier
          | none, none => .error error),
          (recordResolved crates world ctx batch.resolved).2) := by
  unfold settleBatch Batch.result
  cases hresumable : batch.resumableTerminal with
  | true =>
    cases hkind : batch.terminalKind with
    | none => exact .inr (.inl ⟨rfl, rfl⟩)
    | some kind =>
      refine .inl ⟨rfl, ?_⟩
      simp
  | false =>
    obtain ⟨result, ctx'⟩ := recordResolved crates world ctx batch.resolved
    cases result with
    | ok _ =>
      refine .inr (.inr (.inl ⟨rfl, rfl, ?_⟩))
      cases batch.terminalKind <;> cases batch.terminalError <;> rfl
    | error error =>
      refine .inr (.inr (.inr ⟨error, rfl, rfl, ?_⟩))
      cases batch.terminalKind <;> cases batch.terminalError <;> rfl

theorem settleBatch_resumable (ctx : Ctx) (live : ℕ) (pending : List PendingAgent)
    (h : (pending.foldl Batch.add {}).resumableTerminal = true) :
    ∃ token, settleBatch crates world ctx live (pending.foldl Batch.add {}) =
        (.error (.terminated token), releaseAgentCalls ctx live) ∧
      (ScriptError.terminated token).isReplayError = false := by
  have hkind : (pending.foldl Batch.add {}).terminalKind ≠ none :=
    Batch.terminalKind_of_resumable (by simp) h
  obtain ⟨kind, hkind⟩ := Option.ne_none_iff_exists'.mp hkind
  obtain ⟨token, htoken, hsafe⟩ := hostTerminalError_terminated kind
  refine ⟨token, ?_, htoken ▸ hsafe⟩
  unfold settleBatch
  rw [h, hkind, ← htoken]
  rfl

theorem settled_liveCall {ctx ctx' : Ctx} {requests : List AgentOpts}
    {pending : List PendingAgent}
    (hnot : ¬Covered ctx.journal ctx.seq (requests.map AgentOpts.key))
    (hundiverged : Undiverged crates ctx.journal ctx.seq (requests.map AgentOpts.key))
    (hpending : PendingFor crates ctx.journal ctx.seq requests pending)
    (hjournal : ctx'.journal = ctx.journal) (hseq : ctx'.seq = ctx.seq + requests.length)
    (hmax : requests ≠ [] → ctx.seq + requests.length ≤ maxHostCalls) (live : ℕ) :
    LiveCall crates world (requests.map AgentOpts.key) (replayedBatch crates) ctx
      (settleBatch crates world ctx' live (pending.foldl Batch.add {})) := by
  have hresolved := Batch.resolved_foldl pending {}
  rw [show ({} : Batch).resolved = [] from rfl, List.nil_append] at hresolved
  have hcatchable : (pending.foldl Batch.add {}).Catchable :=
    Batch.catchable_foldl pending Batch.catchable_empty
  obtain ⟨hseq', -, hgrows, hfailed, hreplays⟩ :=
    @recordResolved_recorded crates world ctx.journal ctx.seq requests pending hpending ctx'
  rw [hjournal] at hgrows hfailed hreplays
  have hlength : (requests.map AgentOpts.key).length = requests.length := List.length_map _
  -- Nothing of the journal is recorded twice, and no more than the batch.
  have hbounded : ∀ journal : Journal,
      Extends crates ctx.seq (requests.map AgentOpts.key) ctx.journal journal →
      ctx.journal.entries.length < journal.entries.length →
      journal.entries.length ≤ maxHostCalls := by
    intro journal hextends hlt
    have hbound := (hextends.bounds hlt).2
    have hne : requests ≠ [] := by
      rintro rfl
      have hfirst := (hextends.bounds hlt).1
      simp only [List.map_nil, List.length_nil] at hbound
      omega
    have hle := hmax hne
    omega
  have hdense : ctx.seq ≤ ctx.journal.entries.length →
      ctx.journal.entries.length = max ctx.seq ctx.journal.entries.length := by omega
  by_cases hresumable : (pending.foldl Batch.add {}).resumableTerminal = true
  · obtain ⟨token, hsettle, hsafe⟩ := @settleBatch_resumable crates world ctx' live pending hresumable
    rw [hsettle]
    have hsame : (releaseAgentCalls ctx' live).journal = ctx.journal :=
      (journal_releaseAgentCalls ctx' live).trans hjournal
    refine ⟨hsame ▸ .refl, fun hlt => ?_, fun hgoes => (not_goesOn_terminated _ hgoes).elim, ?_,
      fun _ => hundiverged, fun hgoes => (not_goesOn_terminated _ hgoes).elim⟩
    · dsimp only at hlt
      rw [hsame] at hlt
      exact (lt_irrefl _ hlt).elim
    · rintro - - error ⟨⟩
      exact hsafe
  · rcases @settleBatch_eq crates world ctx' live (pending.foldl Batch.add {}) with
      ⟨htrue, -⟩ | ⟨htrue, -⟩ | ⟨-, hok, hsettle⟩ | ⟨error, -, herror, hsettle⟩
    · exact (hresumable htrue).elim
    · exact (hresumable htrue).elim
    · rw [hsettle]
      rw [hresolved] at hok ⊢
      refine ⟨hgrows, hbounded _ hgrows, fun _ => .inr ?_, fun _ _ => Batch.result_safe hcatchable,
        fun _ => hundiverged, fun hgoes hcovered => ⟨_, hreplays hok List.prefix_rfl ?_, ?_⟩⟩
      · rw [hlength]
        exact hseq'.trans hseq
      · dsimp only at hcovered
        have hlt : ctx.journal.entries.length < (recordResolved crates world ctx'
            (pending.filterMap PendingAgent.resolved)).2.journal.entries.length := by
          unfold Covered at hnot hcovered
          omega
        exact hdense (hgrows.bounds hlt).1
      · have hnone : (pending.foldl Batch.add {}).terminalKind = none := by
          by_contra hsome
          obtain ⟨kind, hkind⟩ := Option.ne_none_iff_exists'.mp hsome
          obtain ⟨token, htoken, -⟩ := hostTerminalError_terminated kind
          refine hgoes token ?_
          dsimp only
          unfold Batch.result
          rw [hkind, ← htoken]
        have halike : ({} : Batch).Alike {} := ⟨rfl, rfl, rfl⟩
        exact (halike.foldl hnone).result.symm
    · rw [hsettle]
      rw [hresolved] at herror ⊢
      obtain ⟨⟨token, htoken⟩, hshort⟩ := hfailed error herror
      refine ⟨hgrows, hbounded _ hgrows, fun _ => .inr ?_, fun hle _ error' herror' => ?_,
        fun _ => hundiverged, fun _ hcovered => ?_⟩
      · rw [hlength]
        exact hseq'.trans hseq
      · dsimp only at herror'
        split at herror'
        · cases herror'
          exact (hostTerminalError_terminated _).choose_spec.2
        · rename_i hearlier
          cases herror'
          obtain ⟨message, rfl⟩ := hcatchable _ hearlier
          rfl
        · cases herror'
          exact (hshort (hdense hle)).1
      · dsimp only at hcovered
        have hlt : ctx.journal.entries.length < (recordResolved crates world ctx'
            (pending.filterMap PendingAgent.resolved)).2.journal.entries.length := by
          unfold Covered at hnot hcovered
          omega
        have hless := (hshort (hdense (hgrows.bounds hlt).1)).2
        unfold Covered at hcovered
        omega

theorem callSpec_parallelCalls (requests : List AgentOpts) :
    CallSpec crates (requests.map AgentOpts.key) (replayedBatch crates)
      (fun world ctx => parallelCalls crates world ctx requests) := by
  refine ⟨fun values error => Batch.result_safe (Batch.catchable_foldl _ Batch.catchable_empty) error,
    fun world ctx hcovered hmax => ?_, fun world ctx hnot => ?_⟩
  · unfold parallelCalls
    cases hlive : liveCount crates ctx.journal ctx.seq requests with
    | error error =>
      have hkeys := liveCount_error_iff.mp hlive
      refine ⟨by rw [hkeys], rfl, ⟨[], by simp, by simp⟩, fun hgoes => ?_⟩
      exact (not_goesOn_terminated _ hgoes).elim
    | ok live =>
      obtain rfl := liveCount_covered hcovered hlive
      cases hkeys : replayKeys crates ctx.journal ctx.seq (requests.map AgentOpts.key) with
      | error error =>
        rw [liveCount_error_iff.mpr hkeys] at hlive
        cases hlive
      | ok values =>
        have hsettle : settleBatch crates world { ctx with seq := ctx.seq + requests.length } 0
            ((values.map PendingAgent.replayed).foldl Batch.add {}) =
            (replayedBatch crates values, { ctx with seq := ctx.seq + requests.length }) := by
          have hresolved := Batch.resolved_foldl (values.map PendingAgent.replayed) {}
          have hrecord := @recordResolved_replayed crates world
            { ctx with seq := ctx.seq + requests.length } values
          rcases settleBatch_eq { ctx with seq := ctx.seq + requests.length } 0
            ((values.map PendingAgent.replayed).foldl Batch.add {}) with
            ⟨-, heq⟩ | ⟨hresumable, hnone⟩ | ⟨-, -, heq⟩ | ⟨error, -, herror, -⟩
          · exact heq
          · exact (Batch.terminalKind_of_resumable (by simp) hresumable hnone).elim
          · rw [heq, hresolved, List.nil_append, hrecord]
            rfl
          · rw [hresolved, List.nil_append, hrecord] at herror
            cases herror
        have hreserve : reserveAgentCalls world ctx 0 = (.ok (), ctx) := rfl
        dsimp only
        rw [hreserve]
        dsimp only
        rw [spawnAll_covered hcovered hmax hkeys]
        dsimp only
        rw [hsettle]
        exact ⟨by rw [hkeys], rfl, ⟨[], by simp, by simp⟩, fun _ => by simp⟩
  · unfold parallelCalls
    cases hlive : liveCount crates ctx.journal ctx.seq requests with
    | error error =>
      have hkeys := liveCount_error_iff.mp hlive
      have hdiverged : ¬Undiverged crates ctx.journal ctx.seq (requests.map AgentOpts.key) := by
        rw [← replayKeys_ok_iff, hkeys]
        simp
      refine ⟨.refl, fun hlt => (lt_irrefl _ hlt).elim,
        fun hgoes => (not_goesOn_terminated _ hgoes).elim, fun _ hun => (hdiverged hun).elim,
        fun hnone => ?_, fun hgoes => (not_goesOn_terminated _ hgoes).elim⟩
      have hfalse := hnone _ rfl
      rw [isReplayError_of_replayKeys hkeys] at hfalse
      cases hfalse
    | ok live =>
      have hundiverged : Undiverged crates ctx.journal ctx.seq (requests.map AgentOpts.key) := by
        rw [← replayKeys_ok_iff]
        cases hkeys : replayKeys crates ctx.journal ctx.seq (requests.map AgentOpts.key) with
        | error error =>
          rw [liveCount_error_iff.mpr hkeys] at hlive
          cases hlive
        | ok values => exact ⟨values, rfl⟩
      have hstopped : ∀ token (ctx' : Ctx), ctx'.journal = ctx.journal →
          (ScriptError.terminated token).isReplayError = false →
          LiveCall crates world (requests.map AgentOpts.key) (replayedBatch crates) ctx
            (.error (.terminated token), ctx') := by
        intro token ctx' hjournal hsafe
        refine ⟨hjournal ▸ .refl, fun hlt => ?_, fun hgoes => (not_goesOn_terminated _ hgoes).elim,
          ?_, fun _ => hundiverged, fun hgoes => (not_goesOn_terminated _ hgoes).elim⟩
        · rw [hjournal] at hlt
          exact (lt_irrefl _ hlt).elim
        · rintro - - error ⟨⟩
          exact hsafe
      dsimp only
      rcases reserveAgentCalls_cases world ctx live with ⟨ctx₁, hreserve, hjournal₁, hseq₁⟩ |
        ⟨message, ctx₁, hreserve, hrefused, hjournal₁, hseq₁⟩ |
        ⟨token, ctx₁, hreserve, hjournal₁, hsafe⟩
      · rw [hreserve]
        dsimp only
        rcases @spawnAll_cases crates world ctx₁ requests (by rwa [hjournal₁, hseq₁]) with
          ⟨token, ctx₂, hspawn, hjournal₂, hsafe⟩ |
          ⟨pending, ctx₂, hspawn, hjournal₂, hseq₂, hpending, hle⟩
        · rw [hspawn]
          exact hstopped token ctx₂ (hjournal₂.trans hjournal₁) hsafe
        · rw [hspawn]
          dsimp only
          rw [hjournal₁] at hjournal₂
          rw [hjournal₁, hseq₁] at hpending
          rw [hseq₁] at hseq₂ hle
          exact settled_liveCall hnot hundiverged hpending hjournal₂ hseq₂ hle live
      · rw [hreserve]
        refine ⟨hjournal₁ ▸ .refl, fun hlt => ?_, fun _ => .inl ⟨hrefused, hseq₁, hjournal₁⟩, ?_,
          fun _ => hundiverged, fun _ hcovered => ?_⟩
        · dsimp only at hlt
          rw [hjournal₁] at hlt
          exact (lt_irrefl _ hlt).elim
        · rintro - - error ⟨⟩
          rfl
        · dsimp only at hcovered
          rw [hjournal₁] at hcovered
          exact (hnot hcovered).elim
      · rw [hreserve]
        exact hstopped token ctx₁ hjournal₁ hsafe

end Parallel

section Actions

variable {crates : Crates}

/-- An action without keys has the same result everywhere. -/
theorem callSpec_nil {result : Except ScriptError Reply} {g : Ctx → Ctx}
    (hsafe : ∀ error, result = .error error → error.isReplayError = false)
    (hjournal : ∀ ctx, (g ctx).journal = ctx.journal) (hseq : ∀ ctx, (g ctx).seq = ctx.seq)
    (hsilent : ∀ ctx, ∃ notices, (g ctx).requests = ctx.requests ++ notices ∧
      ∀ n ∈ notices, n.isNotice = true) :
    CallSpec crates [] (fun _ => result) (fun _ ctx => (result, g ctx)) := by
  refine ⟨fun _ => hsafe, fun world ctx hcovered hmax => ?_, fun world ctx hnot => ?_⟩
  · exact ⟨rfl, hjournal ctx, hsilent ctx, fun _ => hseq ctx⟩
  · have hextends : Extends crates ctx.seq [] ctx.journal (g ctx).journal := by
      rw [hjournal]
      exact .refl
    refine ⟨hextends, fun hlt => ?_, fun _ => .inr (hseq ctx), fun _ _ => hsafe, fun _ => ?_,
      fun _ _ => ⟨[], rfl, rfl⟩⟩
    · dsimp only at hlt
      rw [hjournal] at hlt
      exact (lt_irrefl _ hlt).elim
    · intro i key hkey
      cases hkey

theorem callSpec_error {message : String} :
    CallSpec crates [] (fun _ => .error (.runtime message))
      (fun _ ctx => ((.error (.runtime message) : Except ScriptError Reply), ctx)) := by
  refine callSpec_nil (g := id) ?_ (fun _ => rfl) (fun _ => rfl) fun ctx => ⟨[], by simp, by simp⟩
  rintro error ⟨⟩
  rfl

theorem callSpec_notice {build : Bool → WorkflowHostRequest}
    (hnotice : ∀ replayed, (build replayed).isNotice = true) :
    CallSpec crates [] (fun _ => .ok .unit)
      (fun _ ctx => ((.ok .unit : Except ScriptError Reply), hostEmit ctx build)) := by
  refine callSpec_nil (g := fun ctx => hostEmit ctx build) (fun _ h => by cases h) (fun _ => rfl)
    (fun _ => rfl) fun ctx => ⟨[build ctx.replaying], rfl, ?_⟩
  simp [hnotice]

theorem callSpec_terminated {token : ControlToken}
    (h : (ScriptError.terminated token).isReplayError = false) :
    CallSpec crates [] (fun _ => .error (.terminated token))
      (fun _ ctx => ((.error (.terminated token) : Except ScriptError Reply), ctx)) := by
  refine callSpec_nil (g := id) ?_ (fun _ => rfl) (fun _ => rfl) fun ctx => ⟨[], by simp, by simp⟩
  rintro error ⟨⟩
  exact h

/-- Every action of a script follows the description of host functions. -/
theorem callSpec_call (crates : Crates) (action : Action) :
    ∃ replayOf, CallSpec crates action.keys replayOf
      (fun world ctx => call crates world ctx action) := by
  cases action with
  | agent prompt => exact ⟨_, (callSpec_spawnAgentCall _).map .value⟩
  | agentWith prompt opts =>
    simp only [call, Action.keys]
    cases agentOptsFromMap (some prompt) opts with
    | error error => exact ⟨_, callSpec_error⟩
    | ok opts => exact ⟨_, (callSpec_spawnAgentCall opts).map .value⟩
  | parallel items =>
    simp only [call, Action.keys, parallel]
    split
    · exact ⟨_, callSpec_error⟩
    · cases parallelOpts items with
      | error error => exact ⟨_, callSpec_error⟩
      | ok requests => exact ⟨_, (callSpec_parallelCalls requests).map .values⟩
  | phase | log => exact ⟨_, callSpec_notice fun _ => rfl⟩
  | telemetryEvent name fields =>
    simp only [call, Action.keys]
    cases fields with
    | error error => exact ⟨_, callSpec_error⟩
    | ok fields => exact ⟨_, callSpec_notice fun _ => rfl⟩
  | awaitUser kind message =>
    simp only [call, Action.keys]
    cases hparse : PauseKind.parse kind with
    | error error =>
      unfold awaitUser
      simp only [hparse]
      exact ⟨_, callSpec_error⟩
    | ok parsed => exact ⟨_, (callSpec_awaitUser hparse message).map _⟩
  | pause kind message =>
    simp only [call, Action.keys]
    cases PauseKind.parse kind with
    | error error => exact ⟨_, callSpec_error⟩
    | ok kind => exact ⟨_, callSpec_terminated rfl⟩
  | budget =>
    exact ⟨_, (callSpec_valueCall plainResult_budgetState _ _ _ fun world => world.host.budget).map
      .value⟩
  | renderTemplate name vars =>
    simp only [call, Action.keys, renderTemplate]
    cases vars with
    | error error => exact ⟨_, callSpec_error⟩
    | ok vars =>
      exact ⟨_, (callSpec_valueCall plainResult_string _ _ _ fun world => world.host.text).map
        .value⟩
  | writeScratchFile | readScratchFile | gitDiffSince =>
    exact ⟨_, (callSpec_valueCall plainResult_string _ _ _ fun world => world.host.text).map
      .value⟩
  | complete result => exact ⟨_, callSpec_terminated rfl⟩
  | fail error => exact ⟨_, callSpec_error⟩

end Actions

end Ezer.Workflow
