import Ezer.ChatState.Items
import Ezer.Lib.JsonText
import Ezer.Transcript.Updates
import Mathlib.Data.List.AList

/-!
# Rebuilding the chat history

The chat history is a cache of the updates of a session. A reducer reads the
updates one by one, keeps what the user says and what the agent says in a buffer
each, and gives the items out when a buffer ends. A compaction checkpoint starts
the history over.
-/

namespace Ezer.ChatRebuild

open Ezer.ChatState Ezer.Lib Ezer.Transcript

/-- The state of the reducer. -/
structure ChatReducer where
  userParts : List ContentPart
  userIsInterjection : Bool
  agentText : String
  agentToolCalls : List ChatState.ToolCall
  inUserTurn : Bool
  hasAgentContent : Bool
  needsTruncate : Bool
  toolArgs : AList fun _ : String => String
  emittedToolResults : List String
  itemCount : ℕ

/-- The text or image that a block adds to a user item. -/
def userPart : ContentBlock → Option ContentPart
  | .text text => some (.text text)
  | .image (some uri) => some (.image uri)
  | .image none | .other => none

/-- Whether a block is a text. -/
def isTextBlock : ContentBlock → Bool
  | .text _ => true
  | .image _ | .other => false

/-- The text of a tool result. -/
def contentText : ToolCallContent → Option String
  | .content (.text text) => some text
  | _ => none

/-- The text of a completed update. -/
def extractToolResultText (fields : ToolCallUpdateFields) : String :=
  let text := ((fields.content.getD []).filterMap contentText).foldl (· ++ ·) ""
  if text ≠ "" then text
  else (fields.rawOutput.map fun raw => String.ofList (writeJson raw)).getD ""

/-- Whether an update ends its tool call. -/
def isCompleted (fields : ToolCallUpdateFields) : Bool := fields.status.any ToolCallStatus.isDone

namespace ChatReducer

/-- Before the first update. -/
def new : ChatReducer where
  userParts := []
  userIsInterjection := false
  agentText := ""
  agentToolCalls := []
  inUserTurn := false
  hasAgentContent := false
  needsTruncate := false
  toolArgs := ∅
  emittedToolResults := []
  itemCount := 0

/-- End the user item. -/
def flushUser (r : ChatReducer) : Option ConversationItem × ChatReducer :=
  let interjection := r.userIsInterjection
  let r := { r with userIsInterjection := false }
  if r.userParts = [] then (none, r)
  else
    let syntheticReason := if interjection then SyntheticReason.interjection else .human
    (some (.user ⟨r.userParts, syntheticReason, none, none, none⟩),
      { r with userParts := [], itemCount := r.itemCount + 1 })

/-- End the assistant item. -/
def flushAgent (r : ChatReducer) : Option ConversationItem × ChatReducer :=
  if !r.hasAgentContent && r.agentToolCalls.isEmpty then (none, r)
  else
    (some (.assistant ⟨r.agentText, r.agentToolCalls, none, none⟩),
      { r with
        agentText := "", agentToolCalls := [], hasAgentContent := false, itemCount := r.itemCount + 1 })

/-- End both items. -/
def flush (r : ChatReducer) : List ConversationItem × ChatReducer :=
  let (user, r) := r.flushUser
  let (agent, r) := r.flushAgent
  (user.toList ++ agent.toList, r)

/-- Start over. -/
def reset (r : ChatReducer) : ChatReducer := { new with needsTruncate := r.needsTruncate }

/-- End the user item of an open user turn. -/
def endUserTurn (r : ChatReducer) : List ConversationItem × ChatReducer :=
  if r.inUserTurn then
    let (user, r) := r.flushUser
    (user.toList, { r with inUserTurn := false })
  else ([], r)

/-- A turn of the host ends the items before it. -/
def flushHostTurnBoundary (r : ChatReducer) : List ConversationItem × ChatReducer :=
  let (user, r) := r.endUserTurn
  let (agent, r) := r.flushAgent
  (user ++ agent.toList, r)

/-- A user turn begins and ends the assistant item. -/
def beginUserTurn (r : ChatReducer) : List ConversationItem × ChatReducer :=
  if !r.inUserTurn then
    let (agent, r) := r.flushAgent
    (agent.toList, { r with inUserTurn := true })
  else ([], r)

/-- An interjection is an item of its own, and so is each text of one. -/
def splitInterjection (r : ChatReducer) (chunk : ContentChunk) :
    List ConversationItem × ChatReducer :=
  let interjection := chunk.isInterjectionChunk
  let opensInterjection := interjection && isTextBlock chunk.content
  if interjection != r.userIsInterjection || opensInterjection then
    let (user, r) := r.flushUser
    (user.toList, r)
  else ([], r)

/-- Read a chunk of the user. -/
def onUserChunk (r : ChatReducer) (chunk : ContentChunk) : List ConversationItem × ChatReducer :=
  if chunk.isHostTurnChunk then r.flushHostTurnBoundary
  else
    let (agent, r) := r.beginUserTurn
    let (user, r) := r.splitInterjection chunk
    (agent ++ user,
      { r with
        userIsInterjection := chunk.isInterjectionChunk
        userParts := r.userParts ++ (userPart chunk.content).toList })

/-- Read a chunk of the agent. -/
def onAgentChunk (r : ChatReducer) (chunk : ContentChunk) : List ConversationItem × ChatReducer :=
  if chunk.isHostTurnChunk then r.flushHostTurnBoundary
  else
    let (user, r) := r.endUserTurn
    match chunk.content with
    | .text text => (user, { r with agentText := r.agentText ++ text, hasAgentContent := true })
    | _ => (user, r)

/-- Read a tool call. -/
def onToolCall (r : ChatReducer) (tc : Transcript.ToolCall) : ChatReducer :=
  let args := (tc.rawInput.map fun v => String.ofList (writeJson v)).getD ""
  { r with
    toolArgs := r.toolArgs.insert tc.toolCallId args
    agentToolCalls := r.agentToolCalls ++ [⟨tc.toolCallId, tc.title, args⟩] }

/-- Change the arguments of the first call with an id. -/
def setArguments (id args : String) : List ChatState.ToolCall → List ChatState.ToolCall
  | [] => []
  | call :: calls =>
    if call.id = id then { call with arguments := args } :: calls
    else call :: setArguments id args calls

/-- Take arguments that come late. -/
def maybeBackfillArgs (r : ChatReducer) (id : String) (fields : ToolCallUpdateFields) : ChatReducer :=
  match fields.rawInput with
  | none => r
  | some raw =>
    if (r.toolArgs.lookup id).all (· = "") then
      let args := String.ofList (writeJson raw)
      { r with
        toolArgs := r.toolArgs.insert id args
        agentToolCalls := setArguments id args r.agentToolCalls }
    else r

/-- Give out a tool result behind the assistant item. -/
def emitToolResult (r : ChatReducer) (id : String) (fields : ToolCallUpdateFields) :
    List ConversationItem × ChatReducer :=
  let (agent, r) := r.flushAgent
  (agent.toList ++ [.toolResult (toolResultItem id (extractToolResultText fields))],
    { r with itemCount := r.itemCount + 1 })

/-- Read an update of a tool call. -/
def onToolCallUpdate (r : ChatReducer) (tc : ToolCallUpdate) : List ConversationItem × ChatReducer :=
  let r := r.maybeBackfillArgs tc.toolCallId tc.fields
  if isCompleted tc.fields && !r.emittedToolResults.contains tc.toolCallId then
    emitToolResult { r with emittedToolResults := tc.toolCallId :: r.emittedToolResults }
      tc.toolCallId tc.fields
  else ([], r)

/-- Read an update of the protocol. -/
def handleAcp (r : ChatReducer) : AcpUpdate → List ConversationItem × ChatReducer
  | .userMessageChunk chunk => r.onUserChunk chunk
  | .agentMessageChunk chunk => r.onAgentChunk chunk
  | .toolCall tc => ([], r.onToolCall tc)
  | .toolCallUpdate tc => r.onToolCallUpdate tc
  | .availableCommandsUpdate | .other => ([], r)

/-- Read an update of the extension. -/
def handleXai (r : ChatReducer) : ExtensionUpdate → List ConversationItem × ChatReducer
  | .compactionCheckpoint => ([], { r.reset with needsTruncate := true })
  | .rewindMarker _ | .other => ([], r)

/-- Read an update: the items it ends. -/
def process (r : ChatReducer) : SessionUpdate → List ConversationItem × ChatReducer
  | .acp update _ => r.handleAcp update
  | .xai update => r.handleXai update

end ChatReducer

/-- A rebuild under way: the reducer and the file written so far. -/
structure Rebuild where
  reducer : ChatReducer
  file : List ConversationItem

/-- Rebuild with one more update; a checkpoint empties the file. -/
def Rebuild.step (rebuild : Rebuild) (update : SessionUpdate) : Rebuild :=
  let (items, reducer) := rebuild.reducer.process update
  let file := rebuild.file ++ items
  if reducer.needsTruncate then ⟨{ reducer with needsTruncate := false }, []⟩ else ⟨reducer, file⟩

/-- Rebuild the chat history of a session: the file and the number of its items. -/
def rebuildChatHistory (updates : List SessionUpdate) : List ConversationItem × ℕ :=
  let rebuild := updates.foldl Rebuild.step ⟨.new, []⟩
  let (items, reducer) := rebuild.reducer.flush
  (rebuild.file ++ items, reducer.itemCount)

/-- Whether an update is a compaction checkpoint. -/
def isCheckpoint : SessionUpdate → Bool
  | .xai .compactionCheckpoint => true
  | _ => false

/-- The updates behind the last checkpoint. -/
def behindCheckpoint (updates : List SessionUpdate) : List SessionUpdate :=
  (updates.reverse.takeWhile fun update => !isCheckpoint update).reverse

end Ezer.ChatRebuild
