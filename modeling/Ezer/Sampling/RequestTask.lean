import Ezer.Sampling.Retry
import Ezer.Sampling.Events

/-!
# The task of one request

A request is tried until it gets a response, fails for good or is cancelled.
Each try forwards the events of its stream except the last one; the loop sends
the only event that ends the request and resolves whoever waits for it.
-/

namespace Ezer.Sampling

open Ezer.Lib Ezer.ChatState

/-! ## Requests and responses -/

/-- What is done with a response that was cut at its length. -/
inductive LengthPolicy where
  | fail
  | completeToolCalls
  | completePartial
  deriving DecidableEq

/-- A request: its conversation, its length policy and the rest of its settings. -/
structure ConversationRequest (ρ : Type*) where
  items : List ConversationItem
  lengthPolicy : LengthPolicy
  rest : ρ

/-- The reasoning items of a response. -/
def ConversationResponse.reasoningItems (response : ConversationResponse) : List ReasoningItem :=
  response.items.filterMap fun item =>
    match item with
    | .reasoning r => some r
    | _ => none

/-- Whether a response has reasoning of some kind. -/
def ConversationResponse.hasReasoning (response : ConversationResponse) : Bool :=
  response.reasoningItems.any fun r =>
    !r.summary.isEmpty || r.content.isSome || r.encryptedContent.isSome

/-- Why a response is empty, if it is. -/
def ConversationResponse.emptyReason (response : ConversationResponse) : Option EmptyReason :=
  match response.assistant with
  | none => some .noVisibleContent
  | some a =>
    if a.content ≠ "" ∨ a.toolCalls ≠ [] then none
    else if response.hasReasoning then some .reasoningOnly
    else some .noVisibleContent

/-- What becomes of a response under a length policy. -/
inductive LengthVerdict where
  | pass
  | salvage
  | salvageToolCalls
  | fail

/-- What becomes of a response, given which texts are complete JSON. -/
def LengthPolicy.verdict (completeJson : String → Bool) (policy : LengthPolicy)
    (response : ConversationResponse) : LengthVerdict :=
  if response.stopReason ≠ some .length then .pass
  else if response.toolCalls ≠ [] then
    let allArgumentsComplete := response.toolCalls.all fun call =>
      trim call.arguments.toList == [] || completeJson call.arguments
    match policy, allArgumentsComplete with
    | .fail, _ | .completeToolCalls, false | .completePartial, false => .fail
    | .completeToolCalls, true | .completePartial, true => .salvageToolCalls
  else if policy = .completePartial ∧ response.emptyReason = none then .salvage
  else .fail

/-- A response that the length policy lets through. -/
def applyLengthPolicy (completeJson : String → Bool) (policy : LengthPolicy)
    (response : ConversationResponse) : Except SamplingError ConversationResponse :=
  match policy.verdict completeJson response with
  | .pass | .salvage | .salvageToolCalls => .ok response
  | .fail => .error .maxTokensTruncation

/-- The name of a reason. -/
def StopReason.asRef : StopReason → String
  | .stop => "stop"
  | .length => "length"
  | .toolCalls => "tool_calls"
  | .contentFilter => "content_filter"

/-- What an empty response had. -/
def buildEmptyContext (reason : EmptyReason) (response : ConversationResponse) :
    EmptyResponseContext where
  reason := reason
  hadReasoning := response.hasReasoning
  contentLen := response.content.utf8ByteSize
  toolCallCount := response.toolCalls.length
  finishReason := response.stopReason.map StopReason.asRef
  completionTokens := response.usage.map TokenUsage.completionTokens
  reasoningTokens := response.usage.map TokenUsage.reasoningTokens
  promptTokens := response.usage.map TokenUsage.promptTokens
  model := (response.assistant.bind AssistantItem.modelId).getD ""
  firstChoiceSeen := (response.assistant.bind AssistantItem.modelId).isSome

/-! ## Doom loops -/

/-- When a doom loop is acted upon, and how often. -/
structure DoomLoopRecoveryPolicy where
  maxThreshold : ℕ
  maxRetries : ℕ

/-- A tight repetition in the thinking channel. -/
def DoomLoopRecoveryPolicy.isConfident (policy : DoomLoopRecoveryPolicy)
    (signal : DoomLoopSignal) : Bool :=
  signal.channel == "thinking" &&
    match signal.kind with
    | .tailRepetition threshold => decide (threshold ≤ policy.maxThreshold)
    | _ => false

/-- The labels of the signals that are acted upon. -/
def DoomLoopRecoveryPolicy.confidentTriggers (policy : DoomLoopRecoveryPolicy)
    (signals : List DoomLoopSignal) : List String :=
  (signals.filter policy.isConfident).map DoomLoopSignal.raw

/-- The number of labels that are collected. -/
def maxCollectedDoomLoopSignals : ℕ := 64

/-- The number of bytes of a label that is collected. -/
def maxDoomLoopSignalBytes : ℕ := 256

/-- Collect labels, each once. -/
def mergeSignalLabels : List String → List String → List String
  | target, [] => target
  | target, signal :: signals =>
    if target.length ≥ maxCollectedDoomLoopSignals then target
    else if signal.utf8ByteSize ≤ maxDoomLoopSignalBytes ∧ signal ∉ target then
      mergeSignalLabels (target ++ [signal]) signals
    else mergeSignalLabels target signals

/-- What of a failed turn is said again: reasoning and visible text. -/
inductive RecoveryItem where
  | reasoning (item : ReasoningItem)
  | text (content : String)

/-- An item of a failed turn in a conversation. -/
def RecoveryItem.toItem : RecoveryItem → ConversationItem
  | .reasoning item => .reasoning item
  | .text content => .assistant ⟨content, [], none, none⟩

/-- What a model in a loop is told. -/
def recoveryReminder : String :=
  "<system_reminder>Your messages have been flagged as looping. " ++
    "Your response has been flagged as repeating the same text pattern. " ++
    "Avoid excessive repetition. " ++
    "If you are having trouble ask the user for guidance.</system_reminder>"

/-- A reminder of the system. -/
def systemReminder (content : String) : ConversationItem :=
  .user ⟨[.text content], .systemReminder, none, none, none⟩

/-- What is said behind a failed turn: its items and a reminder. -/
def recoveryContext (failedItems : List RecoveryItem) : List ConversationItem :=
  failedItems.map RecoveryItem.toItem ++ [systemReminder recoveryReminder]

/-- Put a failed turn and a reminder behind the conversation. -/
def appendRecoveryContext {ρ : Type*} (request : ConversationRequest ρ)
    (failedItems : List RecoveryItem) : ConversationRequest ρ :=
  { request with items := request.items ++ recoveryContext failedItems }

/-! ## One attempt -/

/-- Which API a client speaks. -/
inductive ApiBackend where
  | chatCompletions
  | responses
  | messages
  deriving DecidableEq

/-- What an attempt meets next: an event of its stream, or a cancellation. -/
inductive StreamItem where
  | event (event : SamplingEvent)
  | cancelled

/-- What an attempt meets: no stream, or a stream with the first raw error in it and the failed turn
as far as it was captured. -/
inductive Connection where
  | initFailed (error : SamplingError)
  | opened (items : List StreamItem) (captured : Option SamplingError)
      (failedTurn : List RecoveryItem)

/-- A connection never reports a doom loop. -/
def Connection.DoomFree : Connection → Prop
  | .initFailed error => error.isDoomLoopDetected = false
  | .opened items captured _ =>
    (∀ error ∈ captured, error.isDoomLoopDetected = false) ∧
      ∀ info, .event (.failed info) ∈ items → info.kind ≠ .doomLoopDetected

/-- What became of an attempt. -/
inductive AttemptOutcome where
  | completed (response : ConversationResponse)
  | empty (context : EmptyResponseContext) (doomLoopSignals : List String)
  | failed (error : SamplingError) (doomLoopSignals : List String)
      (recoveryItems : List RecoveryItem)
  | cancelled
  | initFailed (error : SamplingError)

/-- An attempt: the events it forwarded, whether output was among them, and what became of it. -/
structure AttemptRun where
  forwarded : List SamplingEvent
  output : Bool
  outcome : AttemptOutcome

/-- An error of which only the information is left. -/
def synthesizeFromInfo (info : SamplingErrorInfo) : SamplingError :=
  match info.kind with
  | .idleTimeout =>
    .idleTimeout <|
      (((info.message.toList.splitOnP isWhitespace).filter (· ≠ [])).findSome? fun token =>
        (stripSuffix 's' token).bind parseUsize).getD 0
  | .auth => .auth info.message info.credential
  | .serialization =>
    .serialization <| String.ofList <|
      (stripStart "serialization error: ".toList info.message.toList).getD info.message.toList
  | .http => .eventStreamError info.message
  | .api | .rateLimited =>
    .api ((info.statusCode.filter fun code => 100 ≤ code ∧ code < 1000).getD 500) info.message
      info.modelMetadata info.retryAfterSecs info.shouldRetry info.errorCode
  | .emptyResponse =>
    match info.emptyResponseContext with
    | some context => .emptyResponse context
    | none => .eventStreamError info.message
  | .maxTokensTruncation => .maxTokensTruncation
  | .doomLoopDetected =>
    .doomLoopDetected (info.doomLoopTriggers.getD []) info.doomLoopAbortedAtChunk

/-- Whether an event is output that a consumer cannot take back. -/
def SamplingEvent.isOutput : SamplingEvent → Bool
  | .firstToken | .channelToken _ _ _ | .toolCallDelta _ _ _ _ | .backendToolCallStarted _ _
  | .backendToolCallCompleted _ _ _ => true
  | _ => false

section Drive

variable (completeJson : String → Bool) (doomCheck : Option DoomLoopRecoveryPolicy)
  (lengthPolicy : LengthPolicy) (captured : Option SamplingError) (failedTurn : List RecoveryItem)

/-- What becomes of an attempt with a response. -/
def completedOutcome (response : ConversationResponse) (allTriggers : List String) :
    AttemptOutcome :=
  let triggers := (doomCheck.map fun policy =>
    policy.confidentTriggers response.doomLoopSignals).getD []
  if triggers ≠ [] then .failed (.doomLoopDetected triggers none) allTriggers failedTurn
  else
    match applyLengthPolicy completeJson lengthPolicy response with
    | .error error => .failed error allTriggers []
    | .ok response =>
      if response.stopReason = some .contentFilter then .completed response
      else
        match response.emptyReason with
        | some reason => .empty (buildEmptyContext reason response) allTriggers
        | none => .completed response

/-- Forward the events of a stream until the one that ends it. -/
def driveL2 : List String → List StreamItem → AttemptRun
  | signals, [] =>
    ⟨[], false, .failed (.eventStreamError "stream dropped without terminal event") signals []⟩
  | _, .cancelled :: _ => ⟨[], false, .cancelled⟩
  | _, .event (.completed response) :: _ =>
    let allTriggers := mergeSignalLabels [] (response.doomLoopSignals.map DoomLoopSignal.raw)
    ⟨if allTriggers = [] then [] else [.doomLoopSignals allTriggers], true,
      completedOutcome completeJson doomCheck lengthPolicy failedTurn response allTriggers⟩
  | signals, .event (.failed info) :: _ =>
    let error := captured.getD (synthesizeFromInfo info)
    ⟨[], false, .failed error signals (if error.isDoomLoopDetected then failedTurn else [])⟩
  | signals, .event (.doomLoopSignals triggers) :: rest =>
    let run := driveL2 (mergeSignalLabels signals triggers) rest
    { run with forwarded := .doomLoopSignals triggers :: run.forwarded }
  | signals, .event event :: rest =>
    let run := driveL2 signals rest
    { run with forwarded := event :: run.forwarded, output := event.isOutput || run.output }

end Drive

/-! ## The loop -/

/-- The parts of a configuration that decide about retries. -/
structure SamplerConfig where
  maxRetries : Option ℕ
  rateLimitRetryThreshold : Option ℕ
  doomLoopRecovery : Option DoomLoopRecoveryPolicy
  apiBackend : ApiBackend

/-- When a request is tried again. -/
structure RetryPolicy where
  maxRetries : ℕ
  rateLimitRetryThreshold : ℕ
  retryOnlyBeforeOutput : Bool

/-- How a request is run: the configuration, the policy, the environment, whether no client can be
built, and whether someone waits for the result. -/
structure Task where
  config : SamplerConfig
  retryPolicy : RetryPolicy
  envMaxRetries : Option String
  clientError : Option SamplingError
  completion : Bool

namespace Task

/-- The number of retries. -/
def maxRetries (t : Task) : ℕ :=
  let configured := t.config.maxRetries.or (some t.retryPolicy.maxRetries)
  if configured = some 0 then 0 else resolveMaxRetriesWithEnv t.envMaxRetries configured

/-- The number of samples behind a doom loop. -/
def doomMaxRetries (t : Task) : ℕ :=
  (t.config.doomLoopRecovery.map DoomLoopRecoveryPolicy.maxRetries).getD 0

/-- From which attempt on a rate limit is not waited for. -/
def rateLimitThreshold (t : Task) : ℕ :=
  t.config.rateLimitRetryThreshold.getD t.retryPolicy.rateLimitRetryThreshold

end Task

/-- What is around a request: what each attempt meets, by whether its abort is armed, whether it is
cancelled before an attempt or while it waits for the next one, whether its events are still
received at the end, and which texts are complete JSON. Only an attempt whose abort is armed can
end in a doom loop, and none can before it has a stream. -/
structure World where
  connect : ℕ → Bool → Connection
  cancelledBefore : ℕ → Bool
  cancelledBackoff : ℕ → Bool
  listening : Bool
  completeJson : String → Bool
  disarmed : ∀ n, (connect n false).DoomFree
  initFree : ∀ n armed error, connect n armed = .initFailed error →
    error.isDoomLoopDetected = false

/-- Run one attempt. -/
def runOneAttempt (w : World) (t : Task) (lengthPolicy : LengthPolicy) (n : ℕ)
    (doomCheck : Option DoomLoopRecoveryPolicy) : AttemptRun :=
  let doomCheck := if t.config.apiBackend = .responses then doomCheck else none
  match w.connect n doomCheck.isSome with
  | .initFailed error => ⟨[], false, .initFailed error⟩
  | .opened items captured failedTurn =>
    driveL2 w.completeJson doomCheck lengthPolicy captured
      (if doomCheck.isSome then failedTurn else []) [] items

/-- A recovery that was tried. -/
structure DoomLoopRecoveryAttempt where
  triggers : List String
  abortedAtChunk : Option ℕ

/-- What the one who waits gets: the response with the number of attempts, or the error. -/
structure CollectedSamplingResult where
  result : Except SamplingError (ConversationResponse × ℕ)
  terminalEventQueued : Bool
  doomLoopSignals : List String
  doomLoopRecoveryAttempts : List DoomLoopRecoveryAttempt

/-- What is collected for the one who waits. -/
structure CompletionState where
  doomLoopSignals : List String
  doomLoopRecoveryAttempts : List DoomLoopRecoveryAttempt

namespace CompletionState

/-- Collect labels. -/
def mergeDoomLoopSignals (c : CompletionState) (signals : List String) : CompletionState :=
  { c with doomLoopSignals := mergeSignalLabels c.doomLoopSignals signals }

/-- Collect a recovery. -/
def recordRecoveryAttempt (c : CompletionState) (triggers : List String)
    (abortedAtChunk : Option ℕ) : CompletionState :=
  if c.doomLoopRecoveryAttempts.length ≥ 16 then c
  else
    { c with
      doomLoopRecoveryAttempts :=
        c.doomLoopRecoveryAttempts ++ [⟨mergeSignalLabels [] triggers, abortedAtChunk⟩] }

end CompletionState

/-- What the task does: start an attempt, hand on an event of its stream, send an event of its own,
or resolve the one who waits. -/
inductive Effect (ρ : Type*) where
  | attempt (request : ConversationRequest ρ)
  | forward (event : SamplingEvent)
  | emit (event : SamplingEvent)
  | resolve (result : CollectedSamplingResult)

/-- The state of the loop. -/
structure LoopState (ρ : Type*) where
  request : ConversationRequest ρ
  retryCount : ℕ
  doomRetryCount : ℕ
  outputObserved : Bool
  completion : CompletionState

section Loop

variable {ρ : Type*} (w : World) (t : Task)

/-- Resolve the one who waits, if there is one. -/
def sendCompletion (c : CompletionState) (result : Except SamplingError (ConversationResponse × ℕ)) :
    List (Effect ρ) :=
  if t.completion then
    [.resolve ⟨result, w.listening, c.doomLoopSignals, c.doomLoopRecoveryAttempts⟩]
  else []

/-- Fail with an error. -/
def failWith (c : CompletionState) (emitted completed : SamplingError) : List (Effect ρ) :=
  .emit (.failed (.of emitted)) :: sendCompletion w t c (.error completed)

/-- What consumers get to know of a cancellation. -/
def cancelledInfo : SamplingErrorInfo where
  kind := .api
  statusCode := none
  message := "request cancelled"
  isRetryable := false
  retryAfterSecs := none
  shouldRetry := none
  errorCode := none
  modelMetadata := none
  emptyResponseContext := none
  doomLoopTriggers := none
  doomLoopAbortedAtChunk := none
  credential := .unknown

/-- Fail because of a cancellation. -/
def handleCancellation (c : CompletionState) : List (Effect ρ) :=
  .emit (.failed cancelledInfo) ::
    sendCompletion w t c (.error (.authUnknown "request cancelled"))

/-- Announce another attempt. -/
def emitRetrying (attempt maxRetries : ℕ) (err : SamplingError) : Effect ρ :=
  .emit (.retrying attempt maxRetries (SamplingErrorInfo.of err).kind err.detailWithCauses
    (SamplingErrorInfo.of err).doomLoopTriggers (SamplingErrorInfo.of err).doomLoopAbortedAtChunk)

/-- Why images are taken out for an error about them. -/
def stripReasonForImageError : SamplingError → StripReason
  | .api _ _ _ _ _ (some .invalidImage) | .streamError _ _ (some .invalidImage) => .serverRejected
  | _ => .payloadHeuristic

/-- Take every image out of a request. -/
def ConversationRequest.stripImages (request : ConversationRequest ρ) :
    ConversationRequest ρ × List String :=
  ({ request with items := (Sampling.stripImages request.items).1 },
    (Sampling.stripImages request.items).2)

/-- Try again, without the images if the connection broke while they were sent. -/
def retryAgain (n : ℕ) (err : SamplingError) (maxRetries : ℕ) (s : LoopState ρ) :
    List (Effect ρ) × Option (LoopState ρ) :=
  let stripped := s.request.stripImages
  let out :=
    (if err.isLikelyBodyRejected ∧ stripped.2 ≠ [] then
      [.emit (.imagesStripped stripped.2 .payloadHeuristic)] else []) ++
      [emitRetrying (s.retryCount + 1) maxRetries err]
  if w.cancelledBackoff n then (out ++ handleCancellation w t s.completion, none)
  else
    (out, some
      { s with
        request := if err.isLikelyBodyRejected then stripped.1 else s.request
        retryCount := s.retryCount + 1 })

/-- Try again without the images at once, if there are any. -/
def retryWithoutImages (err : SamplingError) (maxRetries : ℕ) (s : LoopState ρ) :
    List (Effect ρ) × Option (LoopState ρ) :=
  let stripped := s.request.stripImages
  if stripped.2 = [] then (failWith w t s.completion err err.cloneError, none)
  else
    ([.emit (.imagesStripped stripped.2 (stripReasonForImageError err)),
      emitRetrying (s.retryCount + 1) maxRetries err],
      some { s with request := stripped.1, retryCount := s.retryCount + 1 })

/-- Decide about an error: go on with a new state, or end. -/
def applyRetryDecision (n : ℕ) (err : SamplingError) (maxRetries : ℕ) (s : LoopState ρ) :
    List (Effect ρ) × Option (LoopState ρ) :=
  match classifyError err s.retryCount maxRetries t.rateLimitThreshold with
  | .retry | .retryWithBackoff _ | .retryWithClientRebuild => retryAgain w t n err maxRetries s
  | .retryWithImageStrip => retryWithoutImages w t err maxRetries s
  | .emitToSession emitted | .fatal emitted => (failWith w t s.completion emitted emitted, none)

/-- Sample again behind a doom loop, or end. -/
def resampleDoomLoop (n : ℕ) (triggers : List String) (abortedAtChunk : Option ℕ)
    (recoveryItems : List RecoveryItem) (s : LoopState ρ) :
    List (Effect ρ) × Option (LoopState ρ) :=
  let err := SamplingError.doomLoopDetected triggers abortedAtChunk
  if t.retryPolicy.retryOnlyBeforeOutput ∧ s.outputObserved then
    (failWith w t s.completion err err.cloneError, none)
  else
    let completion := s.completion.recordRecoveryAttempt triggers abortedAtChunk
    let out := [emitRetrying (s.doomRetryCount + 1) t.doomMaxRetries err]
    if w.cancelledBackoff n then (out ++ handleCancellation w t completion, none)
    else
      (out, some
        { s with
          request := appendRecoveryContext s.request recoveryItems
          doomRetryCount := s.doomRetryCount + 1
          completion := completion })

/-- What follows from an attempt. -/
def settleAttempt (n : ℕ) (outcome : AttemptOutcome) (s : LoopState ρ) :
    List (Effect ρ) × Option (LoopState ρ) :=
  let effectiveMaxRetries :=
    if t.retryPolicy.retryOnlyBeforeOutput ∧ s.outputObserved then 0 else t.maxRetries
  match outcome with
  | .completed response =>
    let completion :=
      s.completion.mergeDoomLoopSignals (response.doomLoopSignals.map DoomLoopSignal.raw)
    (.emit (.completed response) ::
      sendCompletion w t completion (.ok (response, s.retryCount + s.doomRetryCount + 1)), none)
  | .empty context signals =>
    applyRetryDecision w t n (.emptyResponse context) effectiveMaxRetries
      { s with completion := s.completion.mergeDoomLoopSignals signals }
  | .failed (.doomLoopDetected triggers abortedAtChunk) signals recoveryItems =>
    resampleDoomLoop w t n triggers abortedAtChunk recoveryItems
      { s with completion := s.completion.mergeDoomLoopSignals signals }
  | .failed error signals _ =>
    applyRetryDecision w t n error effectiveMaxRetries
      { s with completion := s.completion.mergeDoomLoopSignals signals }
  | .cancelled => (handleCancellation w t s.completion, none)
  | .initFailed error => applyRetryDecision w t n error effectiveMaxRetries s

/-- One pass of the loop. -/
def loopStep (n : ℕ) (s : LoopState ρ) : List (Effect ρ) × Option (LoopState ρ) :=
  if w.cancelledBefore n then (handleCancellation w t s.completion, none)
  else
    let doomCheck := t.config.doomLoopRecovery.filter fun _ => s.doomRetryCount < t.doomMaxRetries
    let run := runOneAttempt w t s.request.lengthPolicy n doomCheck
    let settled := settleAttempt w t n run.outcome
      { s with outputObserved := s.outputObserved || run.output }
    (.attempt s.request :: run.forwarded.map .forward ++ settled.1, settled.2)

/-- The loop, with a bound on its passes. -/
def runLoop : ℕ → ℕ → LoopState ρ → Option (List (Effect ρ))
  | 0, _, _ => none
  | fuel + 1, n, s =>
    match loopStep w t n s with
    | (out, none) => some out
    | (out, some s') => (runLoop fuel (n + 1) s').map (out ++ ·)

/-- The loop before its first pass. -/
def LoopState.start (request : ConversationRequest ρ) : LoopState ρ :=
  ⟨request, 0, 0, false, ⟨[], []⟩⟩

/-- Run a request, with a bound on the passes of the loop. -/
def runRequestTask (fuel : ℕ) (request : ConversationRequest ρ) : Option (List (Effect ρ)) :=
  match t.clientError with
  | some err => some (failWith w t ⟨[], []⟩ err err)
  | none => runLoop w t fuel 0 (.start request)

end Loop

end Ezer.Sampling
