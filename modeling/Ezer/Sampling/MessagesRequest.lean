import Ezer.ChatState.Items
import Ezer.Lib.Split
import Ezer.Lib.Trim

/-!
# Requests of the messages API

A conversation becomes a list of messages: what the assistant said is gathered
in one message until something else comes, results of tool calls in one user
message behind it, and breakpoints of the prompt cache are put on the last
blocks.
-/

namespace Ezer.Sampling

open Ezer.Lib Ezer.ChatState

/-- A breakpoint of the prompt cache. -/
structure CacheControl where
  type : String

/-- The breakpoint in use. -/
def CacheControl.ephemeral : CacheControl := ⟨"ephemeral"⟩

/-- A block of the system prompt. -/
structure TextBlock where
  text : String
  cacheControl : Option CacheControl

/-- Where an image comes from. -/
inductive ImageSource where
  | base64 (mediaType data : String)
  | url (url : String)

/-- A text or an image inside a tool result. -/
inductive ResultBlock where
  | text (text : String) (cacheControl : Option CacheControl)
  | image (source : ImageSource) (cacheControl : Option CacheControl)

/-- What a tool result says. -/
inductive ToolResultContent where
  | text (text : String)
  | blocks (blocks : List ResultBlock)

/-- A block of a message, with inputs of tool calls as values of a type. -/
inductive ContentBlock (J : Type*) where
  | text (text : String) (cacheControl : Option CacheControl)
  | image (source : ImageSource) (cacheControl : Option CacheControl)
  | toolUse (id name : String) (input : J) (cacheControl : Option CacheControl)
  | toolResult (toolUseId : String) (content : ToolResultContent)
      (cacheControl : Option CacheControl)
  | thinking (thinking signature : String)
  | redactedThinking (data : String)

/-- Who a message is from. -/
inductive MessageRole where
  | user
  | assistant
  deriving DecidableEq

/-- What a message says. -/
inductive MessageContent (J : Type*) where
  | text (text : String)
  | blocks (blocks : List (ContentBlock J))

/-- A message. -/
structure Message (J : Type*) where
  role : MessageRole
  content : MessageContent J

/-- The system prompt of a request. -/
inductive SystemParam where
  | text (text : String)
  | blocks (blocks : List TextBlock)

/-- The conversation in a request. -/
structure MessagesRequest (J : Type*) where
  messages : List (Message J)
  system : Option SystemParam

/-- What the request is built with: the letters and digits beyond the ASCII ones, and the values
of JSON texts. -/
structure Codec (J : Type*) where
  nonAsciiAlphanumeric : Char → Bool
  fromStr : String → Option J
  emptyObject : J

section Blocks

variable {J : Type*} (codec : Codec J)

/-- Whether a character is a letter or a digit. -/
def Codec.isAlphanumeric (c : Char) : Bool :=
  if c.toNat < 128 then c.isAlphanum else codec.nonAsciiAlphanumeric c

/-- The id of a tool call with every other character replaced. -/
def sanitizeToolCallId (id : String) : String :=
  id.map fun c => if codec.isAlphanumeric c || c = '_' || c = '-' then c else '_'

/-- What stands before the given end of a text. -/
def stripEnd (stop t : Text) : Option Text := (stripStart stop.reverse t.reverse).map List.reverse

/-- An image of a user message, or a text in place of one that cannot be sent. -/
def imageBlock (url : String) : ContentBlock J :=
  if "data:".toList.isPrefixOf url.toList then
    match splitOnce [','] url.toList with
    | some (header, data) =>
      let mediaType := (((stripStart "data:".toList header).bind
        (stripEnd ";base64".toList)).map String.ofList).getD "image/png"
      .image (.base64 mediaType (String.ofList data)) none
    | none => .text ("[invalid image: " ++ url ++ "]") none
  else if "http://".toList.isPrefixOf url.toList || "https://".toList.isPrefixOf url.toList then
    .image (.url url) none
  else .text ("[image: " ++ url ++ "]") none

/-- The blocks of a user message. -/
def contentPartsToAnthropicBlocks (parts : List ContentPart) : List (ContentBlock J) :=
  parts.map fun
    | .text text => .text text none
    | .image url => imageBlock url

/-- The block of a tool call. -/
def toolUseBlock (call : ToolCall) : ContentBlock J :=
  .toolUse (sanitizeToolCallId codec call.id) call.name
    ((codec.fromStr call.arguments).getD codec.emptyObject) none

/-- The source of an image in a tool result. -/
def resultImageSource (url : String) : ImageSource :=
  match (stripStart "data:".toList url.toList).bind (splitOnce ";base64,".toList) with
  | some (mediaType, data) => .base64 (String.ofList mediaType) (String.ofList data)
  | none => .url url

/-- What a tool result says, with its images. -/
def toolResultContent (t : ToolResultItem) : ToolResultContent :=
  if t.images.isEmpty then .text t.content
  else
    .blocks (.text t.content none :: t.images.filterMap fun
      | .image url => some (.image (resultImageSource url) none)
      | .text _ => none)

/-- The block of a tool result. -/
def toolResultBlock (t : ToolResultItem) : ContentBlock J :=
  .toolResult (sanitizeToolCallId codec t.toolCallId) (toolResultContent t) none

/-- The longest start of a text of so many bytes. -/
def truncateBytes (s : String) (maxBytes : ℕ) : String :=
  let rec go : Text → ℕ → Text
    | [], _ => []
    | c :: cs, n => if c.utf8Size ≤ n then c :: go cs (n - c.utf8Size) else []
  String.ofList (go s.toList maxBytes)

/-- What a call executed by the backend did. -/
def textSummary : BackendToolKind → String
  | .webSearch _ action =>
    let actionDesc := match action with
      | .search query => "search: " ++ query
      | .openPage url => "open: " ++ url.getD "?"
      | .find pattern url => "find \"" ++ pattern ++ "\" in " ++ url
      | .findInPage pattern url => "find \"" ++ pattern ++ "\" in " ++ url
    "[backend web_search] " ++ actionDesc
  | .xSearch _ name input => "[backend x_search] " ++ name ++ "(" ++ input ++ ")"
  | .codeInterpreter _ code =>
    let codePreview := match code with
      | some c => if 100 < c.utf8ByteSize then truncateBytes c 100 ++ "..." else c
      | none => ""
    "[backend code_interpreter] " ++ codePreview

/-- The text of a reasoning item. -/
def reasoningItemText (r : ReasoningItem) : String :=
  "\n".intercalate (r.summary ++ r.content.getD [])

/-- What an item adds to the message of the assistant. -/
def assistantBlocks : ConversationItem → List (ContentBlock J)
  | .assistant a =>
    (if a.content.isEmpty then [] else [.text a.content none]) ++
      a.toolCalls.map (toolUseBlock codec)
  | .backendToolCall kind => [.text (textSummary kind) none]
  | .reasoning r =>
    let thinking := reasoningItemText r
    let signature := r.encryptedContent.getD ""
    if ¬ thinking.isEmpty ∨ ¬ signature.isEmpty then [.thinking thinking signature] else []
  | _ => []

/-- The request while it is built. -/
structure Building (J : Type*) where
  systemBlocks : List TextBlock
  messages : List (Message J)
  pendingAssistant : List (ContentBlock J)
  pendingToolResults : List (ContentBlock J)

/-- Send what the assistant said so far. -/
def Building.flushAssistant (b : Building J) : Building J :=
  if b.pendingAssistant.isEmpty then b
  else
    { b with
      messages := b.messages ++ [⟨.assistant, .blocks b.pendingAssistant⟩]
      pendingAssistant := [] }

/-- Send the tool results so far. -/
def Building.flushToolResults (b : Building J) : Building J :=
  if b.pendingToolResults.isEmpty then b
  else
    { b with
      messages := b.messages ++ [⟨.user, .blocks b.pendingToolResults⟩]
      pendingToolResults := [] }

/-- Read one more item of the conversation. -/
def Building.push (b : Building J) : ConversationItem → Building J
  | .system s =>
    let b := b.flushAssistant.flushToolResults
    { b with systemBlocks := b.systemBlocks ++ [⟨s.content, none⟩] }
  | .user u =>
    let b := b.flushAssistant.flushToolResults
    { b with
      messages := b.messages ++ [⟨.user, .blocks (contentPartsToAnthropicBlocks u.content)⟩] }
  | .toolResult t =>
    let b := b.flushAssistant
    { b with pendingToolResults := b.pendingToolResults ++ [toolResultBlock codec t] }
  | item =>
    let b := b.flushToolResults
    { b with pendingAssistant := b.pendingAssistant ++ assistantBlocks codec item }

/-- Mark a block, unless it is one that carries no breakpoint. -/
def ContentBlock.mark : ContentBlock J → Option (ContentBlock J)
  | .text content _ => some (.text content (some .ephemeral))
  | .toolResult id content _ => some (.toolResult id content (some .ephemeral))
  | .image source _ => some (.image source (some .ephemeral))
  | .toolUse id name input _ => some (.toolUse id name input (some .ephemeral))
  | .thinking _ _ => none
  | .redactedThinking _ => none

/-- Change the last entry that can be changed, with its position. -/
def markLast {α : Type*} (mark : α → Option α) : List α → Option (ℕ × List α)
  | [] => none
  | a :: rest =>
    match markLast mark rest with
    | some (i, rest) => some (i + 1, a :: rest)
    | none => (mark a).map fun a => (0, a :: rest)

/-- Mark the last block of a message that can carry a breakpoint. -/
def markMessageCacheBreakpoint (msg : Message J) : Option (Message J) :=
  match msg.content with
  | .blocks blocks => (markLast ContentBlock.mark blocks).map fun (_, blocks) =>
      { msg with content := .blocks blocks }
  | .text text => some { msg with content := .blocks [.text text (some .ephemeral)] }

/-- The last position of an entry with a property. -/
def rposition {α : Type*} (p : α → Bool) : List α → Option ℕ
  | [] => none
  | a :: rest =>
    match rposition p rest with
    | some i => some (i + 1)
    | none => if p a then some 0 else none

/-- The last system block with a breakpoint. -/
def markSystemBlocks : List TextBlock → List TextBlock
  | [] => []
  | [block] => [{ block with cacheControl := some .ephemeral }]
  | block :: rest => block :: markSystemBlocks rest

/-- The end of the previous request: the last user message before the last assistant message
before the tip. -/
def previousTip (messages : List (Message J)) (tip : ℕ) : Option ℕ :=
  let beforeTip := messages.take tip
  (rposition (fun m => m.role = .assistant) beforeTip).bind fun assistant =>
    rposition (fun m => m.role = .user) (beforeTip.take assistant)

/-- The messages with breakpoints on the tip and on the end of the previous request. -/
def applyCacheBreakpoints (messages : List (Message J)) : List (Message J) :=
  match markLast markMessageCacheBreakpoint messages with
  | none => messages
  | some (tip, messages) =>
    match previousTip messages tip with
    | none => messages
    | some prev => messages.modify prev fun msg => (markMessageCacheBreakpoint msg).getD msg

/-- The system prompt of some blocks. -/
def systemParam : List TextBlock → Option SystemParam
  | [] => none
  | [block] => if block.cacheControl.isNone then some (.text block.text) else some (.blocks [block])
  | blocks => some (.blocks blocks)

/-- The request for a conversation. -/
def buildMessagesRequest (items : List ConversationItem) : MessagesRequest J :=
  let built := (items.foldl (Building.push codec) ⟨[], [], [], []⟩).flushAssistant.flushToolResults
  { messages := applyCacheBreakpoints built.messages
    system := systemParam (markSystemBlocks built.systemBlocks) }

end Blocks

end Ezer.Sampling
