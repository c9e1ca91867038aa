import Ezer.Lib.Json
import Ezer.Lib.Split
import Ezer.Lib.Trim
import Ezer.Transcript.Rewind

/-!
# Session updates

The typed updates of a transcript: the updates of the protocol, as far as a
replay or a rebuild reads them, and those of the extension. Both are classified
for the rewind timeline as their lines are.
-/

namespace Ezer.Transcript

open Ezer.Lib

/-- A block of a message. -/
inductive ContentBlock where
  | text (text : String)
  | image (uri : Option String)
  | other

/-- A chunk of a message with its metadata. -/
structure ContentChunk where
  content : ContentBlock
  metadata : Option Json

/-- How far a tool call is. -/
inductive ToolCallStatus where
  | pending
  | inProgress
  | completed
  | failed

/-- A tool call that is announced. -/
structure ToolCall where
  toolCallId : String
  title : String
  status : ToolCallStatus
  rawInput : Option Json

/-- What a tool call yields. -/
inductive ToolCallContent where
  | content (block : ContentBlock)
  | other

/-- The fields of a tool call that change. -/
structure ToolCallUpdateFields where
  status : Option ToolCallStatus
  content : Option (List ToolCallContent)
  rawInput : Option Json
  rawOutput : Option Json

/-- An update of a tool call. -/
structure ToolCallUpdate where
  toolCallId : String
  fields : ToolCallUpdateFields

/-- An update of the protocol. -/
inductive AcpUpdate where
  | userMessageChunk (chunk : ContentChunk)
  | agentMessageChunk (chunk : ContentChunk)
  | toolCall (call : ToolCall)
  | toolCallUpdate (update : ToolCallUpdate)
  | availableCommandsUpdate
  | other

/-- An update of the extension. -/
inductive ExtensionUpdate where
  | rewindMarker (targetPromptIndex : ℕ)
  | compactionCheckpoint
  | other

/-- An update of a session, that of the protocol with the metadata of its notification. -/
inductive SessionUpdate where
  | acp (update : AcpUpdate) (metadata : Option Json)
  | xai (update : ExtensionUpdate)

/-- A call has ended. -/
def ToolCallStatus.isDone : ToolCallStatus → Bool
  | .completed | .failed => true
  | .pending | .inProgress => false

namespace ContentChunk

/-- The metadata key of the chunks of a turn of the host. -/
def hostTurnMetaKey : String := "hostTurn"

/-- The metadata key of the chunks of an interjection. -/
def interjectionMetaKey : String := "interjection"

/-- A flag in the metadata; anything but a literal `true` reads as `false`. -/
def chunkMetaFlag (chunk : ContentChunk) (key : String) : Bool :=
  ((chunk.metadata.bind (Json.get? key)).bind Json.asBool) == some true

/-- Whether a chunk belongs to a turn of the host. -/
def isHostTurnChunk (chunk : ContentChunk) : Bool := chunk.chunkMetaFlag hostTurnMetaKey

/-- Whether a chunk belongs to an interjection. -/
def isInterjectionChunk (chunk : ContentChunk) : Bool := chunk.chunkMetaFlag interjectionMetaKey

/-- The prompt index of a chunk. -/
def promptIndex (chunk : ContentChunk) : Option ℕ :=
  ((chunk.metadata.bind (Json.get? "promptIndex")).bind Json.asU64).map UInt64.toNat

end ContentChunk

namespace SessionUpdate

/-- Classify an update for the rewind timeline. -/
def rewindStepForUpdate : SessionUpdate → RewindStep
  | .xai (.rewindMarker targetPromptIndex) => .rewind targetPromptIndex
  | .acp (.userMessageChunk chunk) _ =>
    if chunk.isHostTurnChunk then .other else .userChunk chunk.promptIndex
  | _ => .other

/-- Whether an update is a rewind marker. -/
def isRewindMarker : SessionUpdate → Bool
  | .xai (.rewindMarker _) => true
  | _ => false

end SessionUpdate

/-- The updates that survive the rewinds; without markers all of them do. -/
def filterRewindUpdates (updates : List SessionUpdate) : List SessionUpdate :=
  if !updates.any SessionUpdate.isRewindMarker then updates
  else filterRewindBy SessionUpdate.rewindStepForUpdate updates

/-- A text without the first passage that a tag wraps, and the blanks behind it. -/
def stripWrapper (t : Text) (tag : String) : Text :=
  let openTag := ['<'] ++ tag.toList ++ ['>']
  let closeTag := "</".toList ++ tag.toList ++ ['>']
  match splitOnce openTag t with
  | none => t
  | some (before, rest) =>
    match splitOnce closeTag rest with
    | none => t
    | some (_, after) => before ++ trimStart after

/-- A prompt without the contexts that a fork or a resume wraps around it. -/
def stripContextWrappers : AcpUpdate → AcpUpdate
  | .userMessageChunk ⟨.text text, metadata⟩ =>
    let stripped := ["fork-context", "resume-context"].foldl stripWrapper text.toList
    .userMessageChunk ⟨.text (String.ofList stripped), metadata⟩
  | update => update

end Ezer.Transcript
