import Ezer.Sampling.RequestTask

/-!
# Runs of the task of one request

Whatever its attempts meet, a request ends after a bounded number of them with
one event that ends it, and the one who waits gets the same outcome. What is
sent in each attempt is the request, save for images taken out of it and for
what was said behind failed turns.
-/

namespace Ezer.Sampling

open Ezer.Lib Ezer.ChatState

/-! ## Attempts -/

/-- Whether an attempt ended in a doom loop. -/
def AttemptOutcome.isDoomLoop : AttemptOutcome → Bool
  | .failed error _ _ => error.isDoomLoopDetected
  | _ => false

/-- What of the failed turn is said again. -/
def AttemptOutcome.recoveryItems : AttemptOutcome → List RecoveryItem
  | .failed _ _ recoveryItems => recoveryItems
  | _ => []

section Drive

variable {completeJson : String → Bool} {doomCheck : Option DoomLoopRecoveryPolicy}
  {lengthPolicy : LengthPolicy} {captured : Option SamplingError} {failedTurn : List RecoveryItem}

/-- What an attempt forwards ends nothing, and output in it is noticed. -/
theorem driveL2_forwarded (signals : List String) (items : List StreamItem) :
    let run := driveL2 completeJson doomCheck lengthPolicy captured failedTurn signals items
    (∀ e ∈ run.forwarded, e.isTerminal = false) ∧
      (run.forwarded.any SamplingEvent.isOutput = true → run.output = true) := by
  have hsignals (triggers : List String) :
      ∀ e ∈ (if triggers = [] then [] else [SamplingEvent.doomLoopSignals triggers]),
        e.isTerminal = false := by
    intro e he
    split at he
    · cases he
    · rw [List.mem_singleton.mp he]
      rfl
  induction items generalizing signals with
  | nil => exact ⟨fun e he => (List.not_mem_nil he).elim, id⟩
  | cons item rest ih =>
    cases item with
    | cancelled => exact ⟨fun e he => (List.not_mem_nil he).elim, id⟩
    | event event =>
      have hkept (signals' : List String) (heq : event.isTerminal = false)
          (hout : ∀ run : AttemptRun, event.isOutput = true ∨ run.output = true →
            (event.isOutput || run.output) = true) :
          let run := driveL2 completeJson doomCheck lengthPolicy captured failedTurn signals' rest
          (∀ e ∈ event :: run.forwarded, e.isTerminal = false) ∧
            ((event :: run.forwarded).any SamplingEvent.isOutput = true →
              (event.isOutput || run.output) = true) := by
        obtain ⟨hforwarded, houtput⟩ := ih signals'
        refine ⟨List.forall_mem_cons.mpr ⟨heq, hforwarded⟩, ?_⟩
        intro hany
        rw [List.any_cons, Bool.or_eq_true] at hany
        exact hout _ (hany.imp id houtput)
      have hor (run : AttemptRun) (h : event.isOutput = true ∨ run.output = true) :
          (event.isOutput || run.output) = true := (Bool.or_eq_true _ _).mpr h
      cases event with
      | completed response => exact ⟨hsignals _, fun _ => rfl⟩
      | failed info => exact ⟨fun e he => (List.not_mem_nil he).elim, id⟩
      | doomLoopSignals triggers =>
        exact hkept (mergeSignalLabels signals triggers) rfl hor
      | streamStarted | firstToken | channelToken | toolCallDelta | responseStarted
      | reasoningCompleted | imagesStripped | retrying | modelMetadata | backendToolCallStarted
      | backendToolCallCompleted => exact hkept signals rfl hor

/-- An attempt whose abort is disarmed does not end in a doom loop. -/
theorem driveL2_doomFree {items : List StreamItem}
    (hcaptured : ∀ error ∈ captured, error.isDoomLoopDetected = false)
    (hitems : ∀ info, .event (.failed info) ∈ items → info.kind ≠ .doomLoopDetected)
    (signals : List String) :
    (driveL2 completeJson none lengthPolicy captured failedTurn signals items).outcome.isDoomLoop =
      false := by
  have hsynthesized (info : SamplingErrorInfo) (hkind : info.kind ≠ .doomLoopDetected) :
      (synthesizeFromInfo info).isDoomLoopDetected = false := by
    rw [synthesizeFromInfo]
    cases hcase : info.kind with
    | doomLoopDetected => exact (hkind hcase).elim
    | emptyResponse =>
      dsimp only
      split <;> rfl
    | auth | http | api | serialization | idleTimeout | rateLimited | maxTokensTruncation => rfl
  induction items generalizing signals with
  | nil => rfl
  | cons item rest ih =>
    have hrest := ih fun info hinfo => hitems info (List.mem_cons_of_mem _ hinfo)
    cases item with
    | cancelled => rfl
    | event event =>
      cases event with
      | completed response =>
        rw [driveL2, completedOutcome]
        dsimp only
        rw [if_neg (by simp)]
        rw [applyLengthPolicy]
        split
        · rename_i herror
          split at herror
          · cases herror
          · cases herror
          · cases herror
          · cases herror
            rfl
        · split
          · rfl
          · split <;> rfl
      | failed info =>
        rw [driveL2]
        cases hcase : captured with
        | none => exact hsynthesized info (hitems info List.mem_cons_self)
        | some error => exact hcaptured error (by rw [hcase]; rfl)
      | doomLoopSignals triggers => exact hrest _
      | streamStarted | firstToken | channelToken | toolCallDelta | responseStarted
      | reasoningCompleted | imagesStripped | retrying | modelMetadata | backendToolCallStarted
      | backendToolCallCompleted => exact hrest _

end Drive

section Attempts

variable {w : World} {t : Task} {lengthPolicy : LengthPolicy} {n : ℕ}
  {doomCheck : Option DoomLoopRecoveryPolicy}

theorem runOneAttempt_forwarded :
    let run := runOneAttempt w t lengthPolicy n doomCheck
    (∀ e ∈ run.forwarded, e.isTerminal = false) ∧
      (run.forwarded.any SamplingEvent.isOutput = true → run.output = true) := by
  rw [runOneAttempt]
  dsimp only
  split
  · exact ⟨fun e he => (List.not_mem_nil he).elim, id⟩
  · exact driveL2_forwarded _ _

theorem runOneAttempt_doomFree :
    (runOneAttempt w t lengthPolicy n none).outcome.isDoomLoop = false := by
  rw [runOneAttempt]
  have hnone : (if t.config.apiBackend = .responses then none else none) =
      (none : Option DoomLoopRecoveryPolicy) := ite_self _
  rw [hnone]
  have hfree := w.disarmed n
  split
  · rfl
  · rename_i items captured failedTurn hconnect
    rw [Option.isSome_none] at hconnect
    rw [hconnect] at hfree
    exact driveL2_doomFree hfree.1 hfree.2 _

theorem runOneAttempt_initFailed {error : SamplingError}
    (h : (runOneAttempt w t lengthPolicy n doomCheck).outcome = .initFailed error) :
    error.isDoomLoopDetected = false := by
  have hdrive (check : Option DoomLoopRecoveryPolicy) (captured : Option SamplingError)
      (failedTurn : List RecoveryItem) (signals : List String) (items : List StreamItem) :
      (driveL2 w.completeJson check lengthPolicy captured failedTurn signals items).outcome ≠
        .initFailed error := by
    induction items generalizing signals with
    | nil => nofun
    | cons item rest ih =>
      cases item with
      | cancelled => nofun
      | event event =>
        cases event with
        | completed response =>
          rw [driveL2, completedOutcome]
          dsimp only
          split
          · nofun
          · split
            · nofun
            · split
              · nofun
              · split <;> nofun
        | failed info => nofun
        | doomLoopSignals triggers => exact ih _
        | streamStarted | firstToken | channelToken | toolCallDelta | responseStarted
        | reasoningCompleted | imagesStripped | retrying | modelMetadata | backendToolCallStarted
        | backendToolCallCompleted => exact ih _
  rw [runOneAttempt] at h
  split at h
  · rename_i hconnect
    cases h
    exact w.initFree n _ error hconnect
  · exact (hdrive _ _ _ _ _ h).elim

end Attempts

/-! ## Effects -/

namespace Effect

variable {ρ : Type*}

/-- Whether an effect starts an attempt. -/
def isAttempt : Effect ρ → Bool
  | .attempt _ => true
  | _ => false

/-- Whether an effect ends the request or resolves the one who waits. -/
def isFinal : Effect ρ → Bool
  | .forward event | .emit event => event.isTerminal
  | .resolve _ => true
  | .attempt _ => false

/-- Whether an effect hands on output. -/
def isOutput : Effect ρ → Bool
  | .forward event => event.isOutput
  | _ => false

/-- Whether an effect says that images were taken out of the request. -/
def isStrip : Effect ρ → Bool
  | .emit (.imagesStripped _ _) => true
  | _ => false

/-- Whether an effect announces another attempt behind a doom loop. -/
def isResample : Effect ρ → Bool
  | .emit (.retrying _ _ kind _ _ _) => kind == .doomLoopDetected
  | _ => false

end Effect

/-- The one who waits gets the outcome that consumers of the events get: the same response, or the
same error. A cancellation is told to both in words of their own. -/
def SameOutcome (last : SamplingEvent) (result : CollectedSamplingResult) : Prop :=
  match last, result.result with
  | .completed response, .ok (response', _) => response' = response
  | .failed info, .error err =>
    info = .of err ∨ (info = cancelledInfo ∧ err = .authUnknown "request cancelled")
  | _, _ => False

section Settling

variable {ρ : Type*} {w : World} {t : Task}

/-- The end of a request: one event that ends it, and the same outcome for the one who waits. -/
def Final (t : Task) (out : List (Effect ρ)) : Prop :=
  ∃ last result, out = .emit last :: (if t.completion then [.resolve result] else []) ∧
    last.isTerminal = true ∧ SameOutcome last result

/-- Effects of the loop between the events of an attempt and what ends the request. -/
def Quiet (out : List (Effect ρ)) : Prop :=
  ∀ e ∈ out, e.isFinal = false ∧ e.isAttempt = false ∧ e.isOutput = false

theorem final_failWith (c : CompletionState) {emitted completed : SamplingError}
    (h : completed = emitted) : Final t (failWith w t c emitted completed : List (Effect ρ)) := by
  refine ⟨_, ⟨.error completed, w.listening, c.doomLoopSignals, c.doomLoopRecoveryAttempts⟩,
    rfl, rfl, Or.inl ?_⟩
  rw [h]

theorem final_handleCancellation (c : CompletionState) :
    Final t (handleCancellation w t c : List (Effect ρ)) :=
  ⟨_, ⟨.error (.authUnknown "request cancelled"), w.listening, c.doomLoopSignals,
    c.doomLoopRecoveryAttempts⟩, rfl, rfl, Or.inr ⟨rfl, rfl⟩⟩

/-- Another attempt with the transport budget: the same request, or the one without its images. -/
structure Retried (t : Task) (s s' : LoopState ρ) (out : List (Effect ρ)) : Prop where
  quiet : Quiet out
  retryCount : s'.retryCount = s.retryCount + 1
  doomRetryCount : s'.doomRetryCount = s.doomRetryCount
  outputObserved : s'.outputObserved = s.outputObserved
  unobserved : t.retryPolicy.retryOnlyBeforeOutput = true → s.outputObserved = false
  budget : t.maxRetries ≠ 0 ∧ (s.retryCount + 1 < t.maxRetries ∨
    s.request.stripImages.2 ≠ [] ∧ s'.request = s.request.stripImages.1)
  request : s'.request = s.request ∨
    s'.request = s.request.stripImages.1 ∧ out.any Effect.isStrip = true
  resamples : out.countP Effect.isResample = 0

/-- Another attempt with the budget of doom loops: the request with a failed turn and a reminder
behind it. -/
structure Resampled (t : Task) (items : List RecoveryItem) (s s' : LoopState ρ)
    (out : List (Effect ρ)) : Prop where
  quiet : Quiet out
  retryCount : s'.retryCount = s.retryCount
  doomRetryCount : s'.doomRetryCount = s.doomRetryCount + 1
  outputObserved : s'.outputObserved = s.outputObserved
  unobserved : t.retryPolicy.retryOnlyBeforeOutput = true → s.outputObserved = false
  request : s'.request = appendRecoveryContext s.request items
  resamples : out.countP Effect.isResample = 1

/-- The request is at its end. -/
def Ended (t : Task) (out : List (Effect ρ)) : Prop :=
  ∃ quiet final, out = quiet ++ final ∧ Quiet quiet ∧ Final t final

theorem Final.ended {out : List (Effect ρ)} (h : Final t out) : Ended t out :=
  ⟨[], out, rfl, fun _ he => (List.not_mem_nil he).elim, h⟩

theorem quiet_singleton {e : Effect ρ} (hfinal : e.isFinal = false)
    (hattempt : e.isAttempt = false) (houtput : e.isOutput = false) : Quiet [e] := by
  intro e' he
  rw [List.mem_singleton.mp he]
  exact ⟨hfinal, hattempt, houtput⟩

theorem Quiet.append {xs ys : List (Effect ρ)} (hx : Quiet xs) (hy : Quiet ys) :
    Quiet (xs ++ ys) := by
  intro e he
  rcases List.mem_append.mp he with he | he
  · exact hx e he
  · exact hy e he

variable {err : SamplingError}

theorem kind_ne_doomLoopDetected (h : err.isDoomLoopDetected = false) :
    (SamplingErrorInfo.of err).kind ≠ .doomLoopDetected := by
  cases err with
  | doomLoopDetected => cases h
  | api status message metadata retryAfter shouldRetry code =>
    rw [SamplingErrorInfo.of]
    dsimp only
    split <;> nofun
  | auth | invalidConfiguration | mtlsConfiguration | http | serialization | eventStreamError
  | streamError | idleTimeout | emptyResponse | maxTokensTruncation => nofun

theorem isResample_emitRetrying (h : err.isDoomLoopDetected = false) (attempt maxRetries : ℕ) :
    (emitRetrying attempt maxRetries err : Effect ρ).isResample = false := by
  exact beq_eq_false_iff_ne.mpr (kind_ne_doomLoopDetected h)

theorem quiet_imagesStripped (urls : List String) (reason : StripReason) :
    Quiet [(.emit (.imagesStripped urls reason) : Effect ρ)] := quiet_singleton rfl rfl rfl

theorem quiet_emitRetrying (attempt maxRetries : ℕ) (err : SamplingError) :
    Quiet [(emitRetrying attempt maxRetries err : Effect ρ)] := quiet_singleton rfl rfl rfl

/-- The budget that is left while no output was seen that must not be sent again. -/
def effectiveMaxRetries (t : Task) (s : LoopState ρ) : ℕ :=
  if t.retryPolicy.retryOnlyBeforeOutput ∧ s.outputObserved then 0 else t.maxRetries

theorem of_effectiveMaxRetries {s : LoopState ρ} (h : effectiveMaxRetries t s ≠ 0) :
    effectiveMaxRetries t s = t.maxRetries ∧
      (t.retryPolicy.retryOnlyBeforeOutput = true → s.outputObserved = false) := by
  rw [effectiveMaxRetries] at h ⊢
  split at h
  · exact (h rfl).elim
  · rename_i hunobserved
    rw [if_neg hunobserved]
    refine ⟨rfl, ?_⟩
    intro honly
    exact Bool.eq_false_iff.mpr fun hseen => hunobserved ⟨honly, hseen⟩

theorem stripImages_eq_self {request : ConversationRequest ρ}
    (h : request.stripImages.2 = []) : request.stripImages.1 = request := by
  rw [ConversationRequest.stripImages]
  dsimp only
  rw [Sampling.stripImages, stripImagesWhere_eq_self h]

theorem retryAgain_spec (n : ℕ) (hdoom : err.isDoomLoopDetected = false)
    {s : LoopState ρ} (hbudget : s.retryCount + 1 < effectiveMaxRetries t s) :
    match retryAgain w t n err (effectiveMaxRetries t s) s with
    | (out, none) => Ended t out
    | (out, some s') => Retried t s s' out := by
  have hne : effectiveMaxRetries t s ≠ 0 := by omega
  obtain ⟨hmax, hunobserved⟩ := of_effectiveMaxRetries hne
  have hquiet : Quiet ((if err.isLikelyBodyRejected ∧ s.request.stripImages.2 ≠ [] then
      [.emit (.imagesStripped s.request.stripImages.2 .payloadHeuristic)] else []) ++
        [(emitRetrying (s.retryCount + 1) (effectiveMaxRetries t s) err : Effect ρ)]) := by
    refine Quiet.append ?_ (quiet_emitRetrying _ _ _)
    split
    · exact quiet_imagesStripped _ _
    · exact fun e he => (List.not_mem_nil he).elim
  rw [retryAgain]
  split
  · rename_i out heq
    split at heq
    · cases heq
      exact ⟨_, _, rfl, hquiet, final_handleCancellation _⟩
    · cases heq
  · rename_i out s' heq
    split at heq
    · cases heq
    · cases heq
      refine ⟨hquiet, rfl, rfl, rfl, hunobserved, ⟨?_, Or.inl ?_⟩, ?_, ?_⟩
      · rw [← hmax]
        exact hne
      · rw [← hmax]
        exact hbudget
      · by_cases hrejected : err.isLikelyBodyRejected = true
        · by_cases hnone : s.request.stripImages.2 = []
          · left
            dsimp only
            rw [if_pos hrejected, stripImages_eq_self hnone]
          · right
            dsimp only
            rw [if_pos hrejected, if_pos ⟨hrejected, hnone⟩]
            exact ⟨rfl, rfl⟩
        · left
          exact if_neg hrejected
      · rw [List.countP_append, List.countP_singleton, isResample_emitRetrying hdoom]
        split <;> rfl

theorem retryWithoutImages_spec (hdoom : err.isDoomLoopDetected = false)
    (hclone : err.cloneError = err) {s : LoopState ρ} (hne : effectiveMaxRetries t s ≠ 0) :
    match retryWithoutImages w t err (effectiveMaxRetries t s) s with
    | (out, none) => Ended t out
    | (out, some s') => Retried t s s' out := by
  obtain ⟨hmax, hunobserved⟩ := of_effectiveMaxRetries hne
  rw [retryWithoutImages]
  split
  · rename_i out heq
    split at heq
    · cases heq
      exact (final_failWith _ hclone).ended
    · cases heq
  · rename_i out s' heq
    split at heq
    · cases heq
    · rename_i hsome
      cases heq
      refine ⟨(quiet_imagesStripped _ _).append (quiet_emitRetrying _ _ _), rfl, rfl, rfl,
        hunobserved, ⟨?_, Or.inr ⟨hsome, rfl⟩⟩, Or.inr ⟨rfl, rfl⟩, ?_⟩
      · rw [← hmax]
        exact hne
      · rw [List.countP_cons, List.countP_singleton, isResample_emitRetrying hdoom]
        rfl

theorem applyRetryDecision_spec (n : ℕ) {err : SamplingError}
    (hdoom : err.isDoomLoopDetected = false) (s : LoopState ρ) :
    match applyRetryDecision w t n err (effectiveMaxRetries t s) s with
    | (out, none) => Ended t out
    | (out, some s') => Retried t s s' out := by
  have hbudget (hwill : (classifyError err s.retryCount (effectiveMaxRetries t s)
      t.rateLimitThreshold).willRetry = true) := lt_of_willRetry hdoom hwill
  rw [applyRetryDecision]
  cases hdecision : classifyError err s.retryCount (effectiveMaxRetries t s)
      t.rateLimitThreshold with
  | retry | retryWithBackoff | retryWithClientRebuild =>
    rw [hdecision] at hbudget
    exact retryAgain_spec n hdoom (hbudget rfl)
  | retryWithImageStrip =>
    obtain ⟨hne, hclone⟩ := of_retryWithImageStrip hdecision
    exact retryWithoutImages_spec hdoom hclone hne
  | emitToSession | fatal => exact (final_failWith _ rfl).ended

theorem resampleDoomLoop_spec (n : ℕ) (triggers : List String) (abortedAtChunk : Option ℕ)
    (items : List RecoveryItem) (s : LoopState ρ) :
    match resampleDoomLoop w t n triggers abortedAtChunk items s with
    | (out, none) => Ended t out
    | (out, some s') => Resampled t items s s' out := by
  rw [resampleDoomLoop]
  dsimp only
  split
  · rename_i out heq
    split at heq
    · cases heq
      exact (final_failWith _ rfl).ended
    · split at heq
      · cases heq
        exact ⟨_, _, rfl, quiet_emitRetrying _ _ _, final_handleCancellation _⟩
      · cases heq
  · rename_i out s' heq
    split at heq
    · cases heq
    · rename_i hunobserved
      split at heq
      · cases heq
      · cases heq
        refine ⟨quiet_emitRetrying _ _ _, rfl, rfl, rfl, ?_, rfl, rfl⟩
        intro honly
        exact Bool.eq_false_iff.mpr fun hseen => hunobserved ⟨honly, hseen⟩

/-- What may follow from an attempt: the end, another attempt with the transport budget, or another
one behind a doom loop. -/
def Settled (t : Task) (outcome : AttemptOutcome) (s : LoopState ρ) :
    List (Effect ρ) × Option (LoopState ρ) → Prop
  | (out, none) => Ended t out
  | (out, some s') => Retried t s s' out ∨
      outcome.isDoomLoop = true ∧ Resampled t outcome.recoveryItems s s' out

theorem settled_retry (n : ℕ) (hdoom : err.isDoomLoopDetected = false)
    (outcome : AttemptOutcome) (s : LoopState ρ) (completion : CompletionState) :
    Settled t outcome s (applyRetryDecision w t n err (effectiveMaxRetries t s)
      { s with completion := completion }) := by
  have hspec := @applyRetryDecision_spec _ w t n _ hdoom { s with completion := completion }
  change match applyRetryDecision w t n err (effectiveMaxRetries t s)
    { s with completion := completion } with
    | (out, none) => Ended t out
    | (out, some s') => Retried t { s with completion := completion } s' out at hspec
  revert hspec
  obtain ⟨out, next⟩ := applyRetryDecision w t n err (effectiveMaxRetries t s)
    { s with completion := completion }
  intro hspec
  cases next with
  | none => exact hspec
  | some s' =>
    exact Or.inl ⟨hspec.quiet, hspec.retryCount, hspec.doomRetryCount, hspec.outputObserved,
      hspec.unobserved, hspec.budget, hspec.request, hspec.resamples⟩

theorem settled_resample (n : ℕ) (triggers : List String) (abortedAtChunk : Option ℕ)
    {outcome : AttemptOutcome} (houtcome : outcome.isDoomLoop = true) (s : LoopState ρ)
    (completion : CompletionState) :
    Settled t outcome s (resampleDoomLoop w t n triggers abortedAtChunk outcome.recoveryItems
      { s with completion := completion }) := by
  have hspec := @resampleDoomLoop_spec _ w t n triggers abortedAtChunk outcome.recoveryItems
    { s with completion := completion }
  revert hspec
  obtain ⟨out, next⟩ := resampleDoomLoop w t n triggers abortedAtChunk outcome.recoveryItems
    { s with completion := completion }
  intro hspec
  cases next with
  | none => exact hspec
  | some s' =>
    exact Or.inr ⟨houtcome, hspec.quiet, hspec.retryCount, hspec.doomRetryCount,
      hspec.outputObserved, hspec.unobserved, hspec.request, hspec.resamples⟩

theorem settled_settleAttempt (n : ℕ) (outcome : AttemptOutcome)
    (hinit : ∀ error, outcome = .initFailed error → error.isDoomLoopDetected = false)
    (s : LoopState ρ) : Settled t outcome s (settleAttempt w t n outcome s) := by
  cases outcome with
  | completed response => exact Final.ended ⟨_, ⟨_, w.listening, _, _⟩, rfl, rfl, rfl⟩
  | empty context signals =>
    refine settled_retry n ?_ _ s _
    rfl
  | failed error signals items =>
    cases error with
    | doomLoopDetected triggers abortedAtChunk =>
      exact @settled_resample _ w t n triggers abortedAtChunk
        (.failed (.doomLoopDetected triggers abortedAtChunk) signals items) rfl s _
    | auth | invalidConfiguration | mtlsConfiguration | http | serialization | api
    | eventStreamError | streamError | idleTimeout | emptyResponse | maxTokensTruncation =>
      unfold settleAttempt
      exact settled_retry n rfl _ s _
  | cancelled => exact (final_handleCancellation _).ended
  | initFailed error => exact settled_retry n (hinit error rfl) _ s s.completion

end Settling

/-! ## Runs -/

section Runs

variable {ρ : Type*} (w : World) (t : Task) (request₀ : ConversationRequest ρ)

/-- What became of an attempt whose abort is armed. -/
def armedOutcome (n : ℕ) : AttemptOutcome :=
  (runOneAttempt w t request₀.lengthPolicy n t.config.doomLoopRecovery).outcome

/-- The request of an attempt behind some effects: the original one, without its images only if that
was announced, and behind it the failed turn and a reminder for each attempt that was resampled
because of a doom loop. -/
def SentAfter (before : List (Effect ρ)) (request : ConversationRequest ρ) : Prop :=
  ∃ (stripped : Bool) (resampled : List ℕ),
    (stripped = true → before.any Effect.isStrip = true) ∧
    resampled.length = before.countP Effect.isResample ∧ resampled.Pairwise (· < ·) ∧
    (∀ i ∈ resampled, i < before.countP Effect.isAttempt ∧
      (armedOutcome w t request₀ i).isDoomLoop = true) ∧
    request =
      { request₀ with
        items := (if stripped then (stripImages request₀.items).1 else request₀.items) ++
          resampled.flatMap fun i =>
            recoveryContext (armedOutcome w t request₀ i).recoveryItems }

/-- What an attempt may follow: with the option set no output, and any request as it may be sent. -/
def Allowed (before : List (Effect ρ)) (request : ConversationRequest ρ) : Prop :=
  SentAfter w t request₀ before request ∧
    (t.retryPolicy.retryOnlyBeforeOutput = true → before.any Effect.isOutput = false)

/-- A request is settled: within the budgets, with one event that ends it, and with attempts that may
follow what came before them. -/
structure Settles (log : List (Effect ρ)) : Prop where
  attempts : log.countP Effect.isAttempt ≤ t.maxRetries + t.doomMaxRetries + 1
  ended : ∃ front final, log = front ++ final ∧ (∀ e ∈ front, e.isFinal = false) ∧ Final t final
  allowed : ∀ before request behind, log = before ++ .attempt request :: behind →
    Allowed w t request₀ before request

/-- What holds before each pass of the loop. -/
structure Before (n : ℕ) (s : LoopState ρ) (log : List (Effect ρ)) : Prop where
  attempts : log.countP Effect.isAttempt = n
  counted : n = s.retryCount + s.doomRetryCount
  retries : s.retryCount ≤ t.maxRetries
  spare : t.maxRetries ≠ 0 → s.request.stripImages.2 ≠ [] → s.retryCount < t.maxRetries
  resamples : s.doomRetryCount ≤ t.doomMaxRetries
  quiet : ∀ e ∈ log, e.isFinal = false
  observed : log.any Effect.isOutput = true → s.outputObserved = true
  unobserved : t.retryPolicy.retryOnlyBeforeOutput = true → s.outputObserved = false
  allowed : ∀ before request behind, log = before ++ .attempt request :: behind →
    Allowed w t request₀ before request
  current : SentAfter w t request₀ log s.request

end Runs

section Passes

variable {ρ : Type*} {w : World} {t : Task} {request₀ : ConversationRequest ρ}

variable {before : List (Effect ρ)} {request : ConversationRequest ρ}

/-- An attempt behind a log without other attempts behind it is in the log. -/
theorem attempt_of_append {log behind rest : List (Effect ρ)}
    (hnone : ∀ e ∈ behind, e.isAttempt = false)
    (h : log ++ behind = before ++ .attempt request :: rest) :
    ∃ rest', log = before ++ .attempt request :: rest' := by
  have hmem (more : List (Effect ρ)) (hrest : behind = more ++ .attempt request :: rest) : False := by
    have hfalse := hnone (.attempt request) <| by
      rw [hrest]
      exact List.mem_append_right _ List.mem_cons_self
    cases hfalse
  rcases List.append_eq_append_iff.mp h with ⟨more, _, hrest⟩ | ⟨more, hlog, hrest⟩
  · exact (hmem more hrest).elim
  · cases more with
    | nil => exact (hmem [] hrest.symm).elim
    | cons e more =>
      obtain ⟨rfl, _⟩ := List.cons_eq_cons.mp hrest
      exact ⟨more, hlog⟩

theorem attempt_cases {log behind rest : List (Effect ρ)}
    {request' : ConversationRequest ρ} (hnone : ∀ e ∈ behind, e.isAttempt = false)
    (h : log ++ .attempt request :: behind = before ++ .attempt request' :: rest) :
    (∃ rest', log = before ++ .attempt request' :: rest') ∨
      before = log ∧ request' = request := by
  have hsplit : (log ++ [.attempt request]) ++ behind = before ++ .attempt request' :: rest := by
    rw [List.append_assoc]
    exact h
  obtain ⟨rest', hlog⟩ := attempt_of_append hnone hsplit
  rcases List.eq_nil_or_concat rest' with rfl | ⟨init, e, rfl⟩
  · obtain ⟨hbefore, heq⟩ := List.append_inj' hlog rfl
    exact Or.inr ⟨hbefore.symm, (Effect.attempt.inj (List.cons_eq_cons.mp heq).1).symm⟩
  · rw [List.concat_eq_append, ← List.cons_append, ← List.append_assoc] at hlog
    obtain ⟨hbefore, _⟩ := List.append_inj' hlog rfl
    exact Or.inl ⟨init, hbefore⟩

/-- Effects of the loop count no attempt. -/
theorem Quiet.countP_isAttempt {out : List (Effect ρ)} (h : Quiet out) :
    out.countP Effect.isAttempt = 0 := by
  apply List.countP_eq_zero.mpr
  intro e he hattempt
  rw [(h e he).2.1] at hattempt
  cases hattempt

theorem Quiet.any_isOutput {out : List (Effect ρ)} (h : Quiet out) :
    out.any Effect.isOutput = false := by
  apply List.any_eq_false.mpr
  intro e he houtput
  rw [(h e he).2.2] at houtput
  cases houtput

theorem Before.start : Before w t request₀ 0 (.start request₀) [] where
  attempts := rfl
  counted := rfl
  retries := Nat.zero_le _
  spare hne _ := Nat.pos_of_ne_zero hne
  resamples := Nat.zero_le _
  quiet e he := (List.not_mem_nil he).elim
  observed h := by cases h
  unobserved _ := rfl
  allowed before request behind h := by cases List.append_eq_nil_iff.mp h.symm |>.2
  current := by
    refine ⟨false, [], nofun, rfl, List.Pairwise.nil, fun i hi => (List.not_mem_nil hi).elim, ?_⟩
    rw [if_neg Bool.false_ne_true, List.flatMap_nil, List.append_nil]
    rfl

/-- What is said behind failed turns has no images. -/
theorem stripImages_recoveryContext (items : List RecoveryItem) :
    (stripImages (recoveryContext items)).2 = [] := by
  rw [recoveryContext, stripImages_append]
  apply List.append_eq_nil_iff.mpr
  refine ⟨?_, rfl⟩
  induction items with
  | nil => rfl
  | cons item items ih => cases item <;> exact ih

theorem stripImages_contexts (resampled : List ℕ) (f : ℕ → List RecoveryItem) :
    (stripImages (resampled.flatMap fun i => recoveryContext (f i))).2 = [] := by
  induction resampled with
  | nil => rfl
  | cons i rest ih =>
    rw [List.flatMap_cons, stripImages_append]
    exact List.append_eq_nil_iff.mpr ⟨stripImages_recoveryContext _, ih⟩

/-- More effects keep what a request may be. -/
theorem SentAfter.mono {more : List (Effect ρ)}
    (h : SentAfter w t request₀ before request) (hmore : more.countP Effect.isResample = 0) :
    SentAfter w t request₀ (before ++ more) request := by
  obtain ⟨stripped, resampled, hstripped, hcount, hsorted, hbelow, hrequest⟩ := h
  refine ⟨stripped, resampled, ?_, ?_, hsorted, ?_, hrequest⟩
  · intro h
    rw [List.any_append, hstripped h, Bool.true_or]
  · rw [List.countP_append, hmore]
    exact hcount
  · intro i hi
    obtain ⟨hlt, hdoom⟩ := hbelow i hi
    rw [List.countP_append]
    exact ⟨Nat.lt_add_right _ hlt, hdoom⟩

/-- The images may be taken out once that is announced. -/
theorem SentAfter.strip
    (h : SentAfter w t request₀ before request) (hannounced : before.any Effect.isStrip = true) :
    SentAfter w t request₀ before request.stripImages.1 := by
  obtain ⟨stripped, resampled, hstripped, hcount, hsorted, hbelow, hrequest⟩ := h
  refine ⟨true, resampled, fun _ => hannounced, hcount, hsorted, hbelow, ?_⟩
  have hcontexts := stripImagesWhere_eq_self (stripImages_contexts resampled
    fun i => (armedOutcome w t request₀ i).recoveryItems)
  have hbase : (stripImages (if stripped = true then (stripImages request₀.items).1
      else request₀.items)).1 = (stripImages request₀.items).1 := by
    split
    · exact stripImagesWhere_eq_self (stripImages_stripImages request₀.items)
    · rfl
  rw [if_pos rfl, hrequest, ConversationRequest.stripImages]
  dsimp only
  rw [stripImages_append, hbase]
  dsimp only
  rw [Sampling.stripImages, Sampling.stripImages, hcontexts]

/-- A failed turn and a reminder may be put behind the request of an attempt that was resampled. -/
theorem SentAfter.resample {more : List (Effect ρ)} {n : ℕ}
    (h : SentAfter w t request₀ before request) (hn : before.countP Effect.isAttempt = n)
    (hmore : more.countP Effect.isResample = 1) (hattempt : 0 < more.countP Effect.isAttempt)
    (hdoom : (armedOutcome w t request₀ n).isDoomLoop = true) :
    SentAfter w t request₀ (before ++ more)
      (appendRecoveryContext request (armedOutcome w t request₀ n).recoveryItems) := by
  obtain ⟨stripped, resampled, hstripped, hcount, hsorted, hbelow, hrequest⟩ := h
  refine ⟨stripped, resampled ++ [n], ?_, ?_, ?_, ?_, ?_⟩
  · intro h
    rw [List.any_append, hstripped h, Bool.true_or]
  · rw [List.length_append, List.countP_append, hcount, hmore]
    rfl
  · refine List.pairwise_append.mpr ⟨hsorted, List.pairwise_singleton _ _, ?_⟩
    intro i hi j hj
    rw [List.mem_singleton.mp hj, ← hn]
    exact (hbelow i hi).1
  · intro i hi
    rw [List.countP_append]
    rcases List.mem_append.mp hi with hi | hi
    · exact ⟨Nat.lt_add_right _ (hbelow i hi).1, (hbelow i hi).2⟩
    · rw [List.mem_singleton.mp hi, hn]
      exact ⟨Nat.lt_add_of_pos_right hattempt, hdoom⟩
  · rw [hrequest, appendRecoveryContext]
    dsimp only
    rw [List.flatMap_append, List.flatMap_singleton, List.append_assoc]

theorem SentAfter.lengthPolicy (h : SentAfter w t request₀ before request) :
    request.lengthPolicy = request₀.lengthPolicy := by
  obtain ⟨stripped, resampled, _, _, _, _, hrequest⟩ := h
  rw [hrequest]

section Step

variable {n : ℕ} {s s' : LoopState ρ} {log out : List (Effect ρ)} {forwarded : List SamplingEvent}

/-- The effects of an attempt that goes on: its start, what it forwards and what the loop adds. -/
theorem countP_attempt {p : Effect ρ → Bool} (hforward : ∀ e, p (.forward e) = false) :
    (.attempt s.request :: forwarded.map .forward ++ out : List (Effect ρ)).countP p =
      (p (.attempt s.request)).toNat + out.countP p := by
  have hmap : (forwarded.map Effect.forward : List (Effect ρ)).countP p = 0 := by
    apply List.countP_eq_zero.mpr
    intro e he hp
    obtain ⟨event, _, rfl⟩ := List.mem_map.mp he
    rw [hforward event] at hp
    cases hp
  rw [List.cons_append, List.countP_cons, List.countP_append, hmap]
  cases p (.attempt s.request) with
  | true =>
    simp
    omega
  | false => simp

theorem not_isAttempt_rest (hout : ∀ e ∈ out, e.isAttempt = false) :
    ∀ e ∈ (forwarded.map .forward ++ out : List (Effect ρ)), e.isAttempt = false := by
  intro e he
  rcases List.mem_append.mp he with he | he
  · obtain ⟨event, _, rfl⟩ := List.mem_map.mp he
    rfl
  · exact hout e he

/-- An attempt at this point follows what it may follow. -/
theorem Before.allowed_attempt (h : Before w t request₀ n s log)
    (hout : ∀ e ∈ out, e.isAttempt = false) (before : List (Effect ρ))
    (request : ConversationRequest ρ) (behind : List (Effect ρ))
    (heq : log ++ (.attempt s.request :: forwarded.map .forward ++ out) =
      before ++ .attempt request :: behind) : Allowed w t request₀ before request := by
  rcases attempt_cases (not_isAttempt_rest hout) heq with ⟨rest, hlog⟩ | ⟨rfl, rfl⟩
  · exact h.allowed before request rest hlog
  · refine ⟨h.current, ?_⟩
    intro honly
    have hunobserved := h.unobserved honly
    refine Bool.eq_false_iff.mpr fun hany => ?_
    rw [h.observed hany] at hunobserved
    cases hunobserved

/-- What holds before the next pass but for the budgets and the request. -/
theorem Before.next (h : Before w t request₀ n s log)
    (hforwarded : ∀ e ∈ forwarded, e.isTerminal = false) (hquiet : Quiet out)
    (hobserved : s.outputObserved = true ∨ forwarded.any SamplingEvent.isOutput = true →
      s'.outputObserved = true)
    (hunobserved : t.retryPolicy.retryOnlyBeforeOutput = true → s'.outputObserved = false)
    (hcounted : n + 1 = s'.retryCount + s'.doomRetryCount)
    (hretries : s'.retryCount ≤ t.maxRetries)
    (hspare : t.maxRetries ≠ 0 → s'.request.stripImages.2 ≠ [] → s'.retryCount < t.maxRetries)
    (hresamples : s'.doomRetryCount ≤ t.doomMaxRetries)
    (hcurrent : SentAfter w t request₀
      (log ++ (.attempt s.request :: forwarded.map .forward ++ out)) s'.request) :
    Before w t request₀ (n + 1) s'
      (log ++ (.attempt s.request :: forwarded.map .forward ++ out)) where
  attempts := by
    rw [List.countP_append, countP_attempt fun _ => rfl, h.attempts, hquiet.countP_isAttempt]
    rfl
  counted := hcounted
  retries := hretries
  spare := hspare
  resamples := hresamples
  quiet := by
    intro e he
    rcases List.mem_append.mp he with he | he
    · exact h.quiet e he
    · rcases List.mem_append.mp he with he | he
      · rcases List.mem_cons.mp he with rfl | he
        · rfl
        · obtain ⟨event, hevent, rfl⟩ := List.mem_map.mp he
          exact hforwarded event hevent
      · exact (hquiet e he).1
  observed := by
    intro hany
    apply hobserved
    rw [List.any_append, List.any_append, hquiet.any_isOutput, Bool.or_false, List.any_cons,
      List.any_map, Bool.or_eq_true] at hany
    rcases hany with hlog | hforward
    · exact Or.inl (h.observed hlog)
    · exact Or.inr hforward
  unobserved := hunobserved
  allowed := h.allowed_attempt fun e he => (hquiet e he).2.1
  current := hcurrent

/-- The end behind a log in which nothing is final. -/
theorem Before.settles (h : Before w t request₀ n s log) {front final : List (Effect ρ)}
    (hfinal : Final t final) (hfront : ∀ e ∈ front, e.isFinal = false)
    (hattempts : front.countP Effect.isAttempt ≤ 1)
    (hallowed : ∀ before request behind, log ++ front = before ++ .attempt request :: behind →
      Allowed w t request₀ before request) : Settles w t request₀ (log ++ (front ++ final)) := by
  have hnone : ∀ e ∈ final, e.isAttempt = false := by
    obtain ⟨last, result, rfl, _, _⟩ := hfinal
    intro e he
    rcases List.mem_cons.mp he with rfl | he
    · rfl
    · split at he
      · rw [List.mem_singleton.mp he]
        rfl
      · cases he
  have hzero : final.countP Effect.isAttempt = 0 := by
    apply List.countP_eq_zero.mpr
    intro e he hattempt
    rw [hnone e he] at hattempt
    cases hattempt
  refine ⟨?_, ⟨log ++ front, final, (List.append_assoc _ _ _).symm, ?_, hfinal⟩, ?_⟩
  · have hcounted := h.counted
    have hretries := h.retries
    have hresamples := h.resamples
    rw [List.countP_append, List.countP_append, h.attempts, hzero]
    omega
  · intro e he
    rcases List.mem_append.mp he with he | he
    · exact h.quiet e he
    · exact hfront e he
  · intro before request behind heq
    rw [← List.append_assoc] at heq
    obtain ⟨rest, hrest⟩ := attempt_of_append hnone heq
    exact hallowed before request rest hrest

theorem armed_of_isDoomLoop (hpolicy : s.request.lengthPolicy = request₀.lengthPolicy)
    (h : (runOneAttempt w t s.request.lengthPolicy n
      (t.config.doomLoopRecovery.filter fun _ => s.doomRetryCount < t.doomMaxRetries)).outcome.isDoomLoop
        = true) :
    s.doomRetryCount < t.doomMaxRetries ∧
      (runOneAttempt w t s.request.lengthPolicy n
        (t.config.doomLoopRecovery.filter fun _ => s.doomRetryCount < t.doomMaxRetries)).outcome =
          armedOutcome w t request₀ n := by
  by_cases hleft : s.doomRetryCount < t.doomMaxRetries
  · refine ⟨hleft, ?_⟩
    have hfilter : (t.config.doomLoopRecovery.filter fun _ =>
        decide (s.doomRetryCount < t.doomMaxRetries)) = t.config.doomLoopRecovery := by
      cases t.config.doomLoopRecovery with
      | none => rfl
      | some policy => simp [hleft]
    rw [hfilter, hpolicy, armedOutcome]
  · have hfilter : (t.config.doomLoopRecovery.filter fun _ =>
        decide (s.doomRetryCount < t.doomMaxRetries)) = none := by
      cases t.config.doomLoopRecovery with
      | none => rfl
      | some policy => simp [hleft]
    rw [hfilter, runOneAttempt_doomFree] at h
    cases h

theorem loopStep_spec (h : Before w t request₀ n s log) :
    match loopStep w t n s with
    | (out, none) => Settles w t request₀ (log ++ out)
    | (out, some s') => Before w t request₀ (n + 1) s' (log ++ out) := by
  rw [loopStep]
  by_cases hcancelled : w.cancelledBefore n = true
  · rw [if_pos hcancelled]
    refine @Before.settles _ _ _ _ _ _ _ h [] _ (final_handleCancellation _) ?_ (Nat.zero_le _) ?_
    · intro e he
      cases he
    · rw [List.append_nil]
      exact h.allowed
  · rw [if_neg hcancelled]
    dsimp only
    obtain ⟨hforwarded, houtput⟩ := @runOneAttempt_forwarded w t s.request.lengthPolicy n
      (t.config.doomLoopRecovery.filter fun _ => s.doomRetryCount < t.doomMaxRetries)
    have harmed := @armed_of_isDoomLoop _ w t request₀ n s h.current.lengthPolicy
    have hinit (error : SamplingError) := @runOneAttempt_initFailed w t s.request.lengthPolicy n
      (t.config.doomLoopRecovery.filter fun _ => s.doomRetryCount < t.doomMaxRetries) error
    revert hforwarded houtput harmed hinit
    generalize runOneAttempt w t s.request.lengthPolicy n
      (t.config.doomLoopRecovery.filter fun _ => s.doomRetryCount < t.doomMaxRetries) = run
    intro hforwarded houtput harmed hinit
    have hsettled := @settled_settleAttempt _ w t n run.outcome hinit
      { s with outputObserved := s.outputObserved || run.output }
    revert hsettled
    obtain ⟨out, next⟩ := settleAttempt w t n run.outcome
      { s with outputObserved := s.outputObserved || run.output }
    intro hsettled
    have hobserved (hany : s.outputObserved = true ∨
        run.forwarded.any SamplingEvent.isOutput = true) :
        (s.outputObserved || run.output) = true :=
      (Bool.or_eq_true _ _).mpr (hany.imp id houtput)
    cases next with
    | none =>
      obtain ⟨quiet, final, rfl, hquiet, hfinal⟩ := hsettled
      have hassoc : (.attempt s.request :: run.forwarded.map .forward ++ (quiet ++ final) :
          List (Effect ρ)) = (.attempt s.request :: run.forwarded.map .forward ++ quiet) ++ final :=
        (List.append_assoc _ _ _).symm
      dsimp only
      rw [hassoc]
      refine h.settles hfinal ?_ ?_ ?_
      · intro e he
        rcases List.mem_append.mp he with he | he
        · rcases List.mem_cons.mp he with rfl | he
          · rfl
          · obtain ⟨event, hevent, rfl⟩ := List.mem_map.mp he
            exact hforwarded event hevent
        · exact (hquiet e he).1
      · rw [countP_attempt fun _ => rfl, hquiet.countP_isAttempt]
        exact Nat.le_refl _
      · exact h.allowed_attempt fun e he => (hquiet e he).2.1
    | some s' =>
      have hcounted := h.counted
      have hretries := h.retries
      have hresamples := h.resamples
      rcases hsettled with hretried | ⟨hdoom, hresampled⟩
      · have hcount := hretried.retryCount
        have hdoomCount := hretried.doomRetryCount
        obtain ⟨hne, hbudget⟩ := hretried.budget
        dsimp only at hcount hdoomCount hbudget
        have hnone : (.attempt s.request :: run.forwarded.map .forward ++ out :
            List (Effect ρ)).countP Effect.isResample = 0 := by
          rw [countP_attempt fun _ => rfl, hretried.resamples]
          rfl
        have hsent := h.current.mono hnone
        refine h.next hforwarded hretried.quiet ?_ ?_ ?_ ?_ ?_ ?_ ?_
        · rw [hretried.outputObserved]
          exact hobserved
        · rw [hretried.outputObserved]
          exact hretried.unobserved
        · omega
        · rcases hbudget with hlt | ⟨himages, _⟩
          · omega
          · have hspare := h.spare hne himages
            omega
        · intro _ himages
          rcases hbudget with hlt | ⟨_, hstripped⟩
          · omega
          · rw [hstripped] at himages
            exact (himages (stripImages_stripImages _)).elim
        · omega
        · rcases hretried.request with hsame | ⟨hstripped, hannounced⟩
          · rw [hsame]
            exact hsent
          · rw [hstripped]
            refine hsent.strip ?_
            rw [List.any_append, List.any_append, hannounced, Bool.or_true, Bool.or_true]
      · obtain ⟨hleft, houtcome⟩ := harmed hdoom
        rw [houtcome] at hdoom hresampled
        have hcount := hresampled.retryCount
        have hdoomCount := hresampled.doomRetryCount
        dsimp only at hcount hdoomCount
        refine h.next hforwarded hresampled.quiet ?_ ?_ ?_ ?_ ?_ ?_ ?_
        · rw [hresampled.outputObserved]
          exact hobserved
        · rw [hresampled.outputObserved]
          exact hresampled.unobserved
        · omega
        · omega
        · intro hne himages
          rw [hcount]
          refine h.spare hne ?_
          intro hnone
          apply himages
          rw [hresampled.request]
          rw [ConversationRequest.stripImages, appendRecoveryContext]
          dsimp only
          rw [stripImages_append, stripImages_recoveryContext, List.append_nil]
          exact hnone
        · omega
        · rw [hresampled.request]
          refine h.current.resample h.attempts ?_ ?_ hdoom
          · rw [countP_attempt fun _ => rfl, hresampled.resamples]
            rfl
          · rw [countP_attempt fun _ => rfl]
            exact Nat.lt_add_right _ Nat.zero_lt_one

end Step

theorem runLoop_settles {fuel n : ℕ} {s : LoopState ρ} {log : List (Effect ρ)}
    (h : Before w t request₀ n s log) (hfuel : t.maxRetries + t.doomMaxRetries + 1 ≤ n + fuel) :
    ∃ out, runLoop w t fuel n s = some out ∧ Settles w t request₀ (log ++ out) := by
  induction fuel generalizing n s log with
  | zero =>
    have hcounted := h.counted
    have hretries := h.retries
    have hresamples := h.resamples
    omega
  | succ fuel ih =>
    have hstep := loopStep_spec h
    rw [runLoop]
    revert hstep
    obtain ⟨out, next⟩ := loopStep w t n s
    intro hstep
    cases next with
    | none => exact ⟨out, rfl, hstep⟩
    | some s' =>
      obtain ⟨rest, hrun, hsettles⟩ := ih hstep (by omega)
      refine ⟨out ++ rest, ?_, ?_⟩
      · dsimp only
        rw [hrun]
        rfl
      · rw [← List.append_assoc]
        exact hsettles

end Passes

/-- Every request is settled: within the budgets of retries and of samples behind doom loops it ends
with exactly one event that ends it, nothing is sent behind that event, whoever waits is resolved
once with the same outcome, no attempt follows output that must not be sent again, and every attempt
sends the request, without its images only once that was announced and with one failed turn and one
reminder for each sample behind a doom loop. -/
theorem runRequestTask_settles {ρ : Type*} (w : World) (t : Task)
    (request : ConversationRequest ρ) {fuel : ℕ}
    (hfuel : t.maxRetries + t.doomMaxRetries + 1 ≤ fuel) :
    ∃ log, runRequestTask w t fuel request = some log ∧ Settles w t request log := by
  rw [runRequestTask]
  cases t.clientError with
  | some err =>
    have hended := @Before.settles _ w t request 0 (.start request) [] .start [] _
      (@final_failWith _ w t ⟨[], []⟩ err err rfl) (fun e he => (List.not_mem_nil he).elim)
      (Nat.zero_le _) Before.start.allowed
    exact ⟨_, rfl, hended⟩
  | none =>
    have hfuel' : t.maxRetries + t.doomMaxRetries + 1 ≤ 0 + fuel := by omega
    exact runLoop_settles Before.start hfuel'

/-- A configuration with two retries and one sample behind a doom loop. -/
def recoveringTask : Task where
  config := ⟨some 2, none, some ⟨64, 1⟩, .responses⟩
  retryPolicy := ⟨15, 2, false⟩
  envMaxRetries := none
  clientError := none
  completion := true

/-- First a doom loop, then a rejected image, then a broken stream. -/
def rejectingWorld : World where
  connect n armed :=
    if n = 0 ∧ armed then
      .opened [.event .firstToken,
        .event (.failed (.of (.doomLoopDetected ["tail_repetition:8@thinking"] none)))] none []
    else if n = 1 then .initFailed (.api 413 "too large" none none none none)
    else .opened [] none []
  cancelledBefore _ := false
  cancelledBackoff _ := false
  listening := true
  completeJson _ := true
  disarmed n := by
    rw [if_neg fun h => Bool.false_ne_true h.2]
    split
    · rfl
    · exact ⟨nofun, fun info h => (List.not_mem_nil h).elim⟩
  initFree n armed error h := by
    split at h
    · cases h
    · split at h
      · cases h
        rfl
      · cases h

/-- A request with an image. -/
def imageRequest : ConversationRequest Unit where
  items :=
    [.user ⟨[.text "What is this?", .image "data:image/png;base64,AA"], .human, none, none, none⟩]
  lengthPolicy := .completeToolCalls
  rest := ()

theorem runRequestTask_settles_rejecting :
    ∃ log, runRequestTask rejectingWorld recoveringTask 4 imageRequest = some log ∧
      Settles rejectingWorld recoveringTask imageRequest log ∧
      log.countP Effect.isAttempt = 3 ∧ log.any Effect.isStrip = true ∧
      log.countP Effect.isResample = 1 := by
  have hfuel : recoveringTask.maxRetries + recoveringTask.doomMaxRetries + 1 ≤ 4 := by decide
  obtain ⟨log, hrun, hsettles⟩ := runRequestTask_settles rejectingWorld recoveringTask imageRequest
    hfuel
  have hcounts : (runRequestTask rejectingWorld recoveringTask 4 imageRequest).map (fun log =>
      (log.countP Effect.isAttempt, log.any Effect.isStrip, log.countP Effect.isResample)) =
        some (3, true, 1) := by
    decide +kernel
  rw [hrun, Option.map_some] at hcounts
  have hvalues := Option.some.inj hcounts
  exact ⟨log, hrun, hsettles, congrArg Prod.fst hvalues,
    congrArg (fun v => v.2.1) hvalues, congrArg (fun v => v.2.2) hvalues⟩

end Ezer.Sampling
