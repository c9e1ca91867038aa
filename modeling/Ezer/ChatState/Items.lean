import Ezer.Lib.Runs

/-!
# Conversation items

The unified history of a chat: system, user and assistant messages, results of
tool calls, calls executed by the backend and reasoning. A tool result belongs
to the run of results behind the item that stands before it.
-/

namespace Ezer.ChatState

open Ezer.Lib

/-- Where a user or system item comes from. -/
inductive SyntheticReason where
  | human
  | primary
  | compactionMeta
  | systemReminder
  | lengthContinue
  | projectInstructions
  | autoContinue
  | autoRecovery
  | interjection
  | agentMessage
  | taskCompleted
  | subagentCompleted
  | notificationDrain
  | goalSummary
  | goalClassifierNudge
  | schedulerFired
  | stopHookFeedback
  | workingDirectorySwitch
  | parentHumanMessage
  | sessionPrefix
  | directBash
  | goalSetup
  | unknown
  deriving DecidableEq

/-- Whether an item with this reason starts a prompt turn. -/
def SyntheticReason.startsPromptTurn : SyntheticReason → Bool
  | .human | .agentMessage | .parentHumanMessage | .directBash | .goalSetup | .unknown
  | .taskCompleted | .subagentCompleted | .notificationDrain | .goalClassifierNudge
  | .schedulerFired => true
  | .primary | .sessionPrefix | .compactionMeta | .systemReminder | .lengthContinue
  | .projectInstructions | .autoContinue | .autoRecovery | .interjection | .goalSummary
  | .stopHookFeedback | .workingDirectorySwitch => false

/-- How the user interrupted the turn before a message. -/
inductive PriorTurnInterrupt where
  | midTurnAbort
  | permissionRejected
  | permissionCancelled
  | unknown
  deriving DecidableEq

/-- A piece of a message. -/
inductive ContentPart where
  | text (text : String)
  | image (url : String)
  deriving DecidableEq

/-- A system message. -/
structure SystemItem where
  content : String
  syntheticReason : SyntheticReason
  deriving DecidableEq

/-- A user message, with the prompt turn it opened if it was pushed for one. -/
structure UserItem where
  content : List ContentPart
  syntheticReason : SyntheticReason
  cwdGeneration : Option Nat
  priorTurnInterrupt : Option PriorTurnInterrupt
  promptIndex : Option Nat
  deriving DecidableEq

/-- A tool call of the model. -/
structure ToolCall where
  id : String
  name : String
  arguments : String
  deriving DecidableEq

/-- A response of the model. -/
structure AssistantItem where
  content : String
  toolCalls : List ToolCall
  modelId : Option String
  modelFingerprint : Option String
  deriving DecidableEq

/-- The result of a tool call. -/
structure ToolResultItem where
  toolCallId : String
  content : String
  images : List ContentPart
  deriving DecidableEq

/-- What a web search of the backend did. -/
inductive WebSearchAction where
  | search (query : String)
  | openPage (url : Option String)
  | find (pattern url : String)
  | findInPage (pattern url : String)
  deriving DecidableEq

/-- A tool call executed by the backend. -/
inductive BackendToolKind where
  | webSearch (id : String) (action : WebSearchAction)
  | xSearch (id name input : String)
  | codeInterpreter (id : String) (code : Option String)
  deriving DecidableEq

/-- A reasoning item: summary parts, content blocks and the encrypted blob. -/
structure ReasoningItem where
  id : String
  summary : List String
  content : Option (List String)
  encryptedContent : Option String
  deriving DecidableEq

/-- An item of a conversation. -/
inductive ConversationItem where
  | system (item : SystemItem)
  | user (item : UserItem)
  | assistant (item : AssistantItem)
  | toolResult (item : ToolResultItem)
  | backendToolCall (kind : BackendToolKind)
  | reasoning (item : ReasoningItem)
  deriving DecidableEq

/-- The system prompt that opens a conversation. -/
def systemItem (content : String) : ConversationItem := .system ⟨content, .primary⟩

/-- A tool result without images. -/
def toolResultItem (toolCallId content : String) : ToolResultItem := ⟨toolCallId, content, []⟩

/-- A working-directory switch reminder with its generation. -/
def workingDirectorySwitch (content : String) (cwdGeneration : Nat) : ConversationItem :=
  .user ⟨[.text content], .workingDirectorySwitch, some cwdGeneration, none, none⟩

/-- The generation a switch reminder carries. -/
def ConversationItem.workingDirectorySwitchGeneration : ConversationItem → Option Nat
  | .user u =>
    if u.syntheticReason = .workingDirectorySwitch then u.cwdGeneration else none
  | _ => none

/-- Whether an item is a user item. -/
def ConversationItem.isUser : ConversationItem → Bool
  | .user _ => true
  | _ => false

/-- Whether an item is a tool result. -/
def ConversationItem.isToolResult : ConversationItem → Bool
  | .toolResult _ => true
  | _ => false

/-- The tool calls an item declares. -/
def ConversationItem.toolCalls : ConversationItem → List ToolCall
  | .assistant a => a.toolCalls
  | _ => []

/-- Tool results follow the item before them. -/
def results : Follower ConversationItem ToolResultItem where
  embed := .toolResult
  read
    | .toolResult t => some t
    | _ => none
  read_embed _ := rfl
  embed_of_read {a b} h := by
    cases a with
    | toolResult t =>
      cases h
      rfl
    | _ => cases h

@[simp] theorem results_embed (t : ToolResultItem) : results.embed t = .toolResult t := rfl

@[simp] theorem results_read_assistant (a : AssistantItem) :
    results.read (.assistant a) = none := rfl

theorem results_read_isNone (item : ConversationItem) :
    (results.read item).isNone = !item.isToolResult := by
  cases item <;> rfl

@[simp] theorem cut_toolResult (t : ToolResultItem) (rest : List ConversationItem) :
    cut results (.toolResult t :: rest) =
      ⟨t :: (cut results rest).lead, (cut results rest).runs⟩ :=
  cut_embed t rest

end Ezer.ChatState
