import Ezer.Lib.Split
import Ezer.Lib.Decimal

/-!
# Errors of sampling

What a request can fail with, how a failure is classified, and the part of it
that is sent to the consumers of the events.
-/

namespace Ezer.Sampling

open Ezer.Lib

/-- Whether a text occurs in another. -/
def hasText (needle text : String) : Bool := (splitOnce needle.toList text.toList).isSome

/-- What the headers of a response say about the model. -/
structure ResponseModelMetadata where
  contextWindow : Option ℕ
  maxCompletionTokens : Option ℕ
  modelsEtag : Option String
  deriving DecidableEq

/-- Whether a rejected request carried a credential. -/
inductive SentCredential where
  | sent
  | missing
  | unknown
  deriving DecidableEq

/-- Why a response counts as empty. -/
inductive EmptyReason where
  | reasoningOnly
  | noVisibleContent
  deriving DecidableEq

/-- The name of a reason. -/
def EmptyReason.asRef : EmptyReason → String
  | .reasoningOnly => "reasoning_only"
  | .noVisibleContent => "no_visible_content"

/-- What an empty response had. -/
structure EmptyResponseContext where
  reason : EmptyReason
  hadReasoning : Bool
  contentLen : ℕ
  toolCallCount : ℕ
  finishReason : Option String
  completionTokens : Option ℕ
  reasoningTokens : Option ℕ
  promptTokens : Option ℕ
  model : String
  firstChoiceSeen : Bool
  deriving DecidableEq

/-- The code of an error envelope. -/
inductive ApiErrorCode where
  | invalidImage
  | contextOverflow (code : String)
  | other (code : String)
  deriving DecidableEq

/-- A code of a size cap that removing images may remedy. -/
def isByteSizeOverflowErrorCode (code : String) : Bool :=
  parseUsize code.toList == some 413 || code.map Char.toLower == "payload_too_large" ||
    code.map Char.toLower == "request_too_large"

/-- A code of a size overflow. -/
def ApiErrorCode.isSizeOverflow : ApiErrorCode → Bool
  | .contextOverflow _ => true
  | _ => false

/-- A code of a size cap that removing images may remedy. -/
def ApiErrorCode.isByteSizeOverflow : ApiErrorCode → Bool
  | .contextOverflow code => isByteSizeOverflowErrorCode code
  | _ => false

/-- An error of the HTTP client. -/
structure HttpError where
  text : String
  causes : List String
  isTimeout : Bool
  isConnect : Bool
  isRequest : Bool
  isBody : Bool
  status : Option ℕ

/-- Why a request failed. -/
inductive SamplingError where
  | auth (message : String) (credential : SentCredential)
  | invalidConfiguration (message : String)
  | mtlsConfiguration (message : String)
  | http (error : HttpError)
  | serialization (error : String)
  | api (status : ℕ) (message : String) (modelMetadata : Option ResponseModelMetadata)
      (retryAfterSecs : Option ℕ) (shouldRetry : Option Bool) (errorCode : Option ApiErrorCode)
  | eventStreamError (message : String)
  | streamError (errorType message : String) (code : Option ApiErrorCode)
  | idleTimeout (elapsedSecs : ℕ)
  | emptyResponse (context : EmptyResponseContext)
  | maxTokensTruncation
  | doomLoopDetected (triggers : List String) (abortedAtChunk : Option ℕ)

/-- A number as a text. -/
def numberText (n : ℕ) : String := String.ofList (digits n)

/-- The reason phrases of the statuses of redirections and errors. -/
def reasonPhrases : List (ℕ × String) :=
  [ (300, "Multiple Choices"), (301, "Moved Permanently"), (302, "Found"), (303, "See Other"),
    (304, "Not Modified"), (305, "Use Proxy"), (307, "Temporary Redirect"),
    (308, "Permanent Redirect"), (400, "Bad Request"), (401, "Unauthorized"),
    (402, "Payment Required"), (403, "Forbidden"), (404, "Not Found"),
    (405, "Method Not Allowed"), (406, "Not Acceptable"),
    (407, "Proxy Authentication Required"), (408, "Request Timeout"), (409, "Conflict"),
    (410, "Gone"), (411, "Length Required"), (412, "Precondition Failed"),
    (413, "Payload Too Large"), (414, "URI Too Long"), (415, "Unsupported Media Type"),
    (416, "Range Not Satisfiable"), (417, "Expectation Failed"), (418, "I'm a teapot"),
    (421, "Misdirected Request"), (422, "Unprocessable Entity"), (423, "Locked"),
    (424, "Failed Dependency"), (426, "Upgrade Required"), (428, "Precondition Required"),
    (429, "Too Many Requests"), (431, "Request Header Fields Too Large"),
    (451, "Unavailable For Legal Reasons"), (500, "Internal Server Error"),
    (501, "Not Implemented"), (502, "Bad Gateway"), (503, "Service Unavailable"),
    (504, "Gateway Timeout"), (505, "HTTP Version Not Supported"),
    (506, "Variant Also Negotiates"), (507, "Insufficient Storage"), (508, "Loop Detected"),
    (510, "Not Extended"), (511, "Network Authentication Required") ]

/-- A status in a rendered error. -/
def statusText (status : ℕ) : String :=
  numberText status ++ " " ++
    ((reasonPhrases.find? fun entry => entry.1 == status).map Prod.snd).getD
      "<unknown status code>"

namespace SamplingError

/-- An error of authentication that no request was sent for. -/
def authUnknown (message : String) : SamplingError := .auth message .unknown

/-- An error as a text. -/
def display : SamplingError → String
  | .auth message _ => message
  | .invalidConfiguration message => "invalid client configuration: " ++ message
  | .mtlsConfiguration message => "invalid mTLS client configuration: " ++ message
  | .http error => "request error: " ++ error.text
  | .serialization error => "serialization error: " ++ error
  | .api status message _ _ _ _ => "API error (status " ++ statusText status ++ "): " ++ message
  | .eventStreamError message => "reqwest error stream: " ++ message
  | .streamError errorType message _ => "stream error (" ++ errorType ++ "): " ++ message
  | .idleTimeout elapsedSecs =>
    "inference idle timeout after " ++ numberText elapsedSecs ++ "s with no chunks"
  | .emptyResponse context => "empty response from model (" ++ context.reason.asRef ++ ")"
  | .maxTokensTruncation => "response truncated by max_tokens"
  | .doomLoopDetected triggers _ => "doom loop detected: " ++ ", ".intercalate triggers

/-- An error as a text with what caused it. -/
def detailWithCauses : SamplingError → String
  | .http error => error.causes.foldl (fun msg cause => msg ++ ": " ++ cause)
      (display (.http error))
  | err => err.display

/-- The credentials were rejected. -/
def isAuthError : SamplingError → Bool
  | .auth _ _ => true
  | .api status _ _ _ _ _ => status == 401
  | _ => false

/-- There were too many requests. -/
def isRateLimited : SamplingError → Bool
  | .api status _ _ _ _ _ => status == 429
  | _ => false

/-- The request was too large for the server. -/
def isPayloadTooLarge : SamplingError → Bool
  | .api status _ _ _ _ _ => status == 413
  | _ => false

/-- The connection broke while the request was sent. -/
def isLikelyBodyRejected : SamplingError → Bool
  | .http e => (e.isRequest || e.isBody) && !e.isTimeout && !e.isConnect
  | _ => false

/-- The history has reasoning that the model cannot decrypt. -/
def isEncryptedContentError : SamplingError → Bool
  | .api status message _ _ _ _ => status == 400 && hasText "encrypted_content" message
  | _ => false

/-- The server could not process an image. -/
def isImageProcessingError : SamplingError → Bool
  | .api status message _ _ _ errorCode =>
    (status == 400 || status == 500) &&
      (errorCode == some .invalidImage || hasText "Could not process image" message ||
        hasText ".image.source." message)
  | .streamError _ _ code => code == some .invalidImage
  | _ => false

/-- The error has the code of a size cap that removing images may remedy. -/
def isByteSizeOverflowCoded : SamplingError → Bool
  | .api _ _ _ _ _ errorCode => errorCode.any ApiErrorCode.isByteSizeOverflow
  | .streamError _ _ code => code.any ApiErrorCode.isByteSizeOverflow
  | _ => false

end SamplingError

/-- Whether a request with this status is worth another try. -/
def isRetryableApiStatus (status : ℕ) : Bool :=
  !(200 ≤ status && status < 300) && status != 525 && status != 526 &&
    (status == 429 || (500 ≤ status && status < 600))

/-- Whether an error of the HTTP client is worth another try. -/
def isRetryableReqwest (e : HttpError) : Bool :=
  if e.isTimeout || e.isConnect then true
  else
    match e.status with
    | some status => isRetryableApiStatus status
    | none => e.isRequest || e.isBody

/-- A text at the start of a message or behind a separator. -/
def isAnchored (m needle : String) : Bool :=
  needle.toList.isPrefixOf m.toList || hasText (": " ++ needle) m

/-- Whether a message says that the context is too long. -/
def isContextLengthMessage (message : String) : Bool :=
  let m := message.map Char.toLower
  hasText "too long for this model" m || hasText "prompt is too long" m ||
    hasText "maximum prompt length" m || hasText "maximum context length" m ||
    hasText "maximum allowed number of bytes" m ||
    (hasText "current message" m && hasText "exceeds budget" m) ||
    isAnchored m "request too large" ||
    ["context_length_exceeded", "exceed_context_size_error", "payload_too_large",
      "request_too_large"].any (isAnchored m) ||
    hasText "413 payload too large" m || hasText "413 content too large" m ||
    hasText "413 request entity too large" m ||
    (hasText "input length" m && hasText "exceeds the maximum allowed length" m)

namespace SamplingError

/-- Another try may succeed. -/
def isRetryable : SamplingError → Bool
  | .http e => isRetryableReqwest e
  | .api status _ _ _ _ _ => isRetryableApiStatus status
  | .eventStreamError _ | .streamError _ _ _ | .emptyResponse _ | .doomLoopDetected _ _ => true
  | .auth _ _ | .invalidConfiguration _ | .mtlsConfiguration _ | .serialization _
  | .idleTimeout _ | .maxTokensTruncation => false

/-- The seconds after which the server wants another try. -/
def retryAfter : SamplingError → Option ℕ
  | .api _ _ _ retryAfterSecs _ _ => retryAfterSecs
  | _ => none

/-- Whether the server wants another try. -/
def shouldRetryHeader : SamplingError → Option Bool
  | .api _ _ _ _ shouldRetry _ => shouldRetry
  | _ => none

/-- The same request would not fit again. -/
def isContextLengthError : SamplingError → Bool
  | .api status message _ retryAfterSecs _ errorCode =>
    let sizeCoded := errorCode.any ApiErrorCode.isSizeOverflow
    if status == 429 && retryAfterSecs.isSome && !sizeCoded then false
    else sizeCoded || isContextLengthMessage message
  | .streamError _ message code =>
    code.any ApiErrorCode.isSizeOverflow || isContextLengthMessage message
  | _ => false

/-- Another try is ruled out. -/
def isRetryVetoed (err : SamplingError) : Bool :=
  err.shouldRetryHeader == some false || err.isContextLengthError

/-- A copy of an error; an error of the HTTP client cannot be copied and becomes its text. -/
def cloneError : SamplingError → SamplingError
  | .http e => .eventStreamError e.text
  | err => err

end SamplingError

/-- The class of a failure. -/
inductive SamplingErrorKind where
  | auth
  | http
  | api
  | serialization
  | idleTimeout
  | rateLimited
  | emptyResponse
  | maxTokensTruncation
  | doomLoopDetected
  deriving DecidableEq

/-- What consumers get to know of a failure. -/
structure SamplingErrorInfo where
  kind : SamplingErrorKind
  statusCode : Option ℕ
  message : String
  isRetryable : Bool
  retryAfterSecs : Option ℕ
  shouldRetry : Option Bool
  errorCode : Option ApiErrorCode
  modelMetadata : Option ResponseModelMetadata
  emptyResponseContext : Option EmptyResponseContext
  doomLoopTriggers : Option (List String)
  doomLoopAbortedAtChunk : Option ℕ
  credential : SentCredential
  deriving DecidableEq

/-- What consumers get to know of an error. -/
def SamplingErrorInfo.of (err : SamplingError) : SamplingErrorInfo where
  kind :=
    match err with
    | .auth _ _ => .auth
    | .invalidConfiguration _ | .mtlsConfiguration _ | .streamError _ _ _ => .api
    | .http _ | .eventStreamError _ => .http
    | .serialization _ => .serialization
    | .api _ _ _ _ _ _ => if err.isRateLimited then .rateLimited else .api
    | .idleTimeout _ => .idleTimeout
    | .emptyResponse _ => .emptyResponse
    | .maxTokensTruncation => .maxTokensTruncation
    | .doomLoopDetected _ _ => .doomLoopDetected
  statusCode := match err with | .api status _ _ _ _ _ => some status | _ => none
  message := err.display
  isRetryable := err.isRetryable
  retryAfterSecs := err.retryAfter
  shouldRetry := err.shouldRetryHeader
  errorCode :=
    match err with
    | .api _ _ _ _ _ errorCode => errorCode
    | .streamError _ _ code => code
    | _ => none
  modelMetadata := match err with | .api _ _ modelMetadata _ _ _ => modelMetadata | _ => none
  emptyResponseContext := match err with | .emptyResponse context => some context | _ => none
  doomLoopTriggers := match err with | .doomLoopDetected triggers _ => some triggers | _ => none
  doomLoopAbortedAtChunk :=
    match err with | .doomLoopDetected _ abortedAtChunk => abortedAtChunk | _ => none
  credential := match err with | .auth _ credential => credential | _ => .unknown

end Ezer.Sampling
