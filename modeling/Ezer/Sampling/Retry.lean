import Ezer.Sampling.Errors
import Ezer.ChatState.Persistence

/-!
# Retry decisions

What the retry loop does about an error, how many tries a request has, and the
images that are taken out of a request that the server rejected.
-/

namespace Ezer.Sampling

open Ezer.Lib Ezer.ChatState

/-- The number of retries without a configuration. -/
def defaultMaxRetries : ℕ := 15

/-- A number of 32 bits read from decimal digits. -/
def parseU32 (text : String) : Option ℕ := (parseUsize text.toList).filter (· < 2 ^ 32)

/-- The number of retries: that of the environment, of the model, or the default. -/
def resolveMaxRetriesWithEnv (envOverride : Option String) (modelMaxRetries : Option ℕ) : ℕ :=
  ((envOverride.bind parseU32).or modelMaxRetries).getD defaultMaxRetries

/-- What the retry loop does about an error. -/
inductive RetryDecision where
  | retry
  | retryWithBackoff (isRateLimited : Bool)
  | retryWithImageStrip
  | retryWithClientRebuild
  | emitToSession (err : SamplingError)
  | fatal (err : SamplingError)

/-- Whether an error is a doom loop. -/
def SamplingError.isDoomLoopDetected : SamplingError → Bool
  | .doomLoopDetected _ _ => true
  | _ => false

/-- What the retry loop does about an error, behind some retries. -/
def classifyError (err : SamplingError) (retryCount maxRetries rateLimitThreshold : ℕ) :
    RetryDecision :=
  if err.isAuthError then .emitToSession err.cloneError
  else if err.isEncryptedContentError then .emitToSession err.cloneError
  else if maxRetries = 0 then .fatal err.cloneError
  else if err.isPayloadTooLarge || err.isByteSizeOverflowCoded then .retryWithImageStrip
  else if err.isImageProcessingError then .retryWithImageStrip
  else if err.isRetryVetoed then .fatal err.cloneError
  else if err.isDoomLoopDetected then .retry
  else if err.isRateLimited then
    if retryCount + 1 ≥ min maxRetries rateLimitThreshold then .fatal err.cloneError
    else .retryWithBackoff true
  else if err.isRetryable then
    if retryCount + 1 ≥ maxRetries then .fatal err.cloneError
    else if retryCount + 1 = 1 then .retryWithClientRebuild
    else .retry
  else .fatal err.cloneError

/-- Whether a decision is another try with the same request. -/
def RetryDecision.willRetry : RetryDecision → Bool
  | .retry | .retryWithBackoff _ | .retryWithClientRebuild => true
  | .retryWithImageStrip | .emitToSession _ | .fatal _ => false

section Decisions

variable {err : SamplingError} {retryCount maxRetries rateLimitThreshold : ℕ}

/-- Another try with the same request is within the retries. -/
theorem lt_of_willRetry (hdoom : err.isDoomLoopDetected = false)
    (h : (classifyError err retryCount maxRetries rateLimitThreshold).willRetry = true) :
    retryCount + 1 < maxRetries := by
  simp only [classifyError, hdoom, apply_ite RetryDecision.willRetry] at h
  simp only [RetryDecision.willRetry, ite_eq_iff, reduceCtorEq, and_false, false_and, false_or,
    or_false] at h
  obtain ⟨-, -, -, -, -, -, -, ⟨-, hmin, -⟩ | ⟨-, -, hmax, -⟩⟩ := h
  · omega
  · omega

/-- Images are only taken out for errors that can be copied, and only when there are retries. -/
theorem of_retryWithImageStrip
    (h : classifyError err retryCount maxRetries rateLimitThreshold = .retryWithImageStrip) :
    maxRetries ≠ 0 ∧ err.cloneError = err := by
  have hclone (hsome : err.isPayloadTooLarge = true ∨ err.isByteSizeOverflowCoded = true ∨
      err.isImageProcessingError = true) : err.cloneError = err := by
    cases err with
    | http e => rcases hsome with h | h | h <;> cases h
    | auth | invalidConfiguration | mtlsConfiguration | serialization | api | eventStreamError
    | streamError | idleTimeout | emptyResponse | maxTokensTruncation | doomLoopDetected => rfl
  simp only [classifyError, ite_eq_iff, reduceCtorEq, and_false, false_or, or_false, and_true,
    Bool.or_eq_true] at h
  obtain ⟨-, -, hmax, (hlarge | hcoded) | ⟨-, himage⟩⟩ := h
  · exact ⟨hmax, hclone (.inl hlarge)⟩
  · exact ⟨hmax, hclone (.inr (.inl hcoded))⟩
  · exact ⟨hmax, hclone (.inr (.inr himage))⟩

end Decisions

section Images

/-- Take every image out of a conversation. -/
def stripImages (items : List ConversationItem) : List ConversationItem × List String :=
  stripImagesWhere (fun _ => true) items

theorem stripImages_cons (item : ConversationItem) (rest : List ConversationItem) :
    stripImages (item :: rest) =
      ((stripItem (fun _ => true) item).1 :: (stripImages rest).1,
        (stripItem (fun _ => true) item).2 ++ (stripImages rest).2) := rfl

theorem stripImages_append (xs ys : List ConversationItem) :
    stripImages (xs ++ ys) =
      ((stripImages xs).1 ++ (stripImages ys).1, (stripImages xs).2 ++ (stripImages ys).2) := by
  induction xs with
  | nil => rfl
  | cons item rest ih =>
    rw [List.cons_append, stripImages_cons, stripImages_cons, ih]
    dsimp only
    rw [List.cons_append, List.append_assoc]

/-- No image is left in a message behind its images were taken out. -/
theorem stripParts_stripParts (parts : List ContentPart) :
    (stripParts (fun _ => true) (stripParts (fun _ => true) parts).1).2 = [] := by
  induction parts with
  | nil => rfl
  | cons part parts ih => cases part <;> exact ih

theorem stripResultImages_stripResultImages (parts : List ContentPart) :
    (stripResultImages (fun _ => true) (stripResultImages (fun _ => true) parts).1).2 = [] := by
  induction parts with
  | nil => rfl
  | cons part parts ih => cases part <;> exact ih

/-- No image is left in a conversation behind its images were taken out. -/
theorem stripImages_stripImages (items : List ConversationItem) :
    (stripImages (stripImages items).1).2 = [] := by
  induction items with
  | nil => rfl
  | cons item rest ih =>
    have hitem : (stripItem (fun _ => true) (stripItem (fun _ => true) item).1).2 = [] := by
      cases item with
      | user u => exact stripParts_stripParts u.content
      | toolResult t => exact stripResultImages_stripResultImages t.images
      | system | assistant | backendToolCall | reasoning => rfl
    exact List.append_eq_nil_iff.mpr ⟨hitem, ih⟩

end Images

end Ezer.Sampling
