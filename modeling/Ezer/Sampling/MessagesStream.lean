import Ezer.Sampling.Streams
import Ezer.Sampling.MessagesRequest

/-!
# The stream of the messages API

A response comes as blocks with an index, each opened, continued and closed by
events of its own. The pieces of the blocks are sent on as they come, and the
blocks are gathered in a response as they are closed.
-/

namespace Ezer.Sampling

open Ezer.Lib Ezer.ChatState

/-- Why the model stopped, as the API says it. -/
inductive WireStopReason where
  | endTurn
  | maxTokens
  | toolUse
  | stopSequence
  | refusal
  | pauseTurn
  | modelContextWindowExceeded
  | unknown (wire : String)

/-- A reason as the API says it. -/
def WireStopReason.wireStr : WireStopReason → String
  | .endTurn => "end_turn"
  | .maxTokens => "max_tokens"
  | .toolUse => "tool_use"
  | .stopSequence => "stop_sequence"
  | .refusal => "refusal"
  | .pauseTurn => "pause_turn"
  | .modelContextWindowExceeded => "model_context_window_exceeded"
  | .unknown wire => wire

/-- A reason of the API as a reason of a response. -/
def WireStopReason.toStopReason : WireStopReason → StopReason
  | .endTurn | .stopSequence | .pauseTurn | .unknown _ => .stop
  | .maxTokens | .modelContextWindowExceeded => .length
  | .toolUse => .toolCalls
  | .refusal => .contentFilter

/-- The tokens at the start of a message. -/
structure MessagesUsage where
  inputTokens : ℕ
  cacheReadInputTokens : ℕ
  cacheCreationInputTokens : ℕ

/-- The tokens at the end of a message. -/
structure MessageDeltaUsage where
  outputTokens : ℕ
  inputTokens : Option ℕ
  cacheReadInputTokens : Option ℕ
  cacheCreationInputTokens : Option ℕ

/-- What the end of a message says: the reason, the stop sequence, and the details with an
explanation. -/
structure MessageDeltaBody where
  stopReason : Option WireStopReason
  stopSequence : Option String
  stopDetails : Option (Option String)

/-- A piece of a block. -/
inductive StreamDelta where
  | textDelta (text : String)
  | inputJsonDelta (partialJson : String)
  | thinkingDelta (thinking : String)
  | signatureDelta (signature : String)

/-- An event of the raw stream. -/
inductive MessageStreamEvent (J : Type*) where
  | messageStart (id model : String) (usage : MessagesUsage)
  | messageDelta (delta : MessageDeltaBody) (usage : MessageDeltaUsage)
  | messageStop
  | contentBlockStart (index : ℕ) (contentBlock : ContentBlock J)
  | contentBlockDelta (index : ℕ) (delta : StreamDelta)
  | contentBlockStop (index : ℕ)
  | ping
  | error (type message : String)

/-- Whether an event says more than that the stream is alive. -/
def messagesEventHasMeaningfulContent {J : Type*} : MessageStreamEvent J → Bool
  | .ping => false
  | _ => true

/-- What a block is. -/
inductive BlockType where
  | text
  | toolUse
  | thinking
  deriving DecidableEq

/-- An open block. -/
structure BlockState where
  blockType : BlockType
  textAcc : String := ""
  toolName : String := ""
  toolId : String := ""
  argsAcc : String := ""
  thinkingAcc : String := ""
  signature : String := ""

/-- The tool call of a block. -/
def BlockState.toolCall (state : BlockState) : ToolCall :=
  ⟨state.toolId, state.toolName, state.argsAcc⟩

/-- What is gathered from the events. -/
structure MessagesAcc where
  blocks : ℕ → Option BlockState
  finalModel : Option String
  finalInputTokens : ℕ
  finalCacheReadInputTokens : ℕ
  finalCacheCreationInputTokens : ℕ
  finalOutputTokens : ℕ
  finalStopReason : Option StopReason
  finalStopMessage : Option String
  finalMessageId : Option String
  finalRawStopReason : Option String
  finalStopSequence : Option String
  assistantText : String
  assistantToolCalls : List ToolCall
  assistantReasoning : Option ReasoningItem
  chunkIndex : ℕ
  messageChunkCount : ℕ
  firstTokenEmitted : Bool
  nextToolIndex : ℕ
  blockToToolIndex : ℕ → Option ℕ

namespace MessagesAcc

/-- Nothing gathered. -/
def start : MessagesAcc where
  blocks _ := none
  finalModel := none
  finalInputTokens := 0
  finalCacheReadInputTokens := 0
  finalCacheCreationInputTokens := 0
  finalOutputTokens := 0
  finalStopReason := none
  finalStopMessage := none
  finalMessageId := none
  finalRawStopReason := none
  finalStopSequence := none
  assistantText := ""
  assistantToolCalls := []
  assistantReasoning := none
  chunkIndex := 0
  messageChunkCount := 0
  firstTokenEmitted := false
  nextToolIndex := 0
  blockToToolIndex _ := none

/-- Open or replace a block. -/
def openBlock (index : ℕ) (state : BlockState) (s : MessagesAcc) : MessagesAcc :=
  { s with blocks := Function.update s.blocks index (some state) }

/-- Announce the first token. -/
def announceFirst : Transform MessagesAcc := fun s =>
  if s.firstTokenEmitted then (s, []) else ({ s with firstTokenEmitted := true }, [.firstToken])

/-- Send a token. -/
def sendToken (channel : SamplingChannel) (text : String) : Transform MessagesAcc :=
  announceFirst.andThen fun s =>
    ( { s with
        chunkIndex := s.chunkIndex + 1
        messageChunkCount :=
          match channel with
          | .text => s.messageChunkCount + 1
          | .reasoning => s.messageChunkCount },
      [.channelToken channel text (s.chunkIndex + 1)] )

/-- A block is opened. -/
def startBlock {J : Type*} (index : ℕ) : ContentBlock J → Transform MessagesAcc
  | .thinking thinking signature =>
    (Transform.update (openBlock index
      { blockType := .thinking, thinkingAcc := thinking, signature := signature })).andThen
      announceFirst
  | .text text _ =>
    (Transform.update (openBlock index { blockType := .text, textAcc := text })).andThen
      announceFirst
  | .toolUse id name _ _ => fun s =>
    ( { openBlock index { blockType := .toolUse, toolName := name, toolId := id } s with
        nextToolIndex := s.nextToolIndex + 1
        blockToToolIndex := Function.update s.blockToToolIndex index (some s.nextToolIndex) },
      [.toolCallDelta s.nextToolIndex (some id) (some name) none] )
  | .redactedThinking _ | .image _ _ | .toolResult _ _ _ => .skip

/-- A block is continued. -/
def continueBlock (index : ℕ) (state : BlockState) : StreamDelta → Transform MessagesAcc
  | .thinkingDelta thinking =>
    if thinking = "" then .skip
    else
      (Transform.update (openBlock index
        { state with thinkingAcc := state.thinkingAcc ++ thinking })).andThen
        (sendToken .reasoning thinking)
  | .signatureDelta signature =>
    Transform.update (openBlock index { state with signature := signature })
  | .textDelta text =>
    if text = "" then .skip
    else
      (Transform.update (openBlock index { state with textAcc := state.textAcc ++ text })).andThen
        (sendToken .text text)
  | .inputJsonDelta partialJson => fun s =>
    ( openBlock index { state with argsAcc := state.argsAcc ++ partialJson } s,
      match s.blockToToolIndex index with
      | some toolIndex => [.toolCallDelta toolIndex none none (some partialJson)]
      | none => [] )

/-- The reasoning of a closed block, if it has any. -/
def reasoningOf (state : BlockState) : Option ReasoningItem :=
  if state.thinkingAcc = "" ∧ state.signature = "" then none
  else
    some
      { id := ""
        summary := if state.thinkingAcc = "" then [] else [state.thinkingAcc]
        content := none
        encryptedContent := if state.signature = "" then none else some state.signature }

/-- A block is closed. -/
def closeBlock (state : BlockState) : Transform MessagesAcc := fun s =>
  match state.blockType with
  | .text =>
    ( if state.textAcc = "" then s
      else
        { s with
          assistantText :=
            (if s.assistantText = "" then "" else s.assistantText ++ "\n") ++ state.textAcc },
      [] )
  | .thinking =>
    ( { s with assistantReasoning := (reasoningOf state).or s.assistantReasoning },
      if state.signature = "" then [] else [.reasoningCompleted state.signature] )
  | .toolUse => ({ s with assistantToolCalls := s.assistantToolCalls ++ [state.toolCall] }, [])

/-- The end of the message is near. -/
def readDelta (delta : MessageDeltaBody) (usage : MessageDeltaUsage) (s : MessagesAcc) :
    MessagesAcc :=
  { s with
    finalStopMessage := delta.stopDetails.getD s.finalStopMessage
    finalRawStopReason := delta.stopReason.map WireStopReason.wireStr
    finalStopSequence := delta.stopSequence.or s.finalStopSequence
    finalStopReason := delta.stopReason.map WireStopReason.toStopReason
    finalOutputTokens := usage.outputTokens
    finalInputTokens := usage.inputTokens.getD s.finalInputTokens
    finalCacheReadInputTokens := usage.cacheReadInputTokens.getD s.finalCacheReadInputTokens
    finalCacheCreationInputTokens :=
      usage.cacheCreationInputTokens.getD s.finalCacheCreationInputTokens }

/-- The message starts. -/
def readStart (id model : String) (usage : MessagesUsage) (s : MessagesAcc) : MessagesAcc :=
  { s with
    finalMessageId := some id
    finalModel := some model
    finalInputTokens := usage.inputTokens
    finalCacheReadInputTokens := usage.cacheReadInputTokens
    finalCacheCreationInputTokens := usage.cacheCreationInputTokens }

/-- An event that is no error. -/
def readEvent {J : Type*} : MessageStreamEvent J → Transform MessagesAcc
  | .messageStart id model usage =>
    (Transform.update (readStart id model usage)).andThen (Transform.send fun _ =>
      .responseStarted id model usage.inputTokens usage.cacheReadInputTokens
        usage.cacheCreationInputTokens)
  | .contentBlockStart index contentBlock => startBlock index contentBlock
  | .contentBlockDelta index delta => fun s =>
    match s.blocks index with
    | some state => continueBlock index state delta s
    | none => (s, [])
  | .contentBlockStop index => fun s =>
    match s.blocks index with
    | some state => closeBlock state { s with blocks := Function.update s.blocks index none }
    | none => (s, [])
  | .messageDelta delta usage => Transform.update (readDelta delta usage)
  | .messageStop | .ping | .error _ _ => .skip

/-- An event. -/
def handle {J : Type*} (s : MessagesAcc) (event : MessageStreamEvent J) :
    Except SamplingError (MessagesAcc × List SamplingEvent) :=
  match event with
  | .error type message => .error (.api 500 (type ++ ": " ++ message) none none none none)
  | event => .ok (readEvent event s)

/-- The sum of two numbers of tokens. -/
def saturatingAdd (a b : ℕ) : ℕ := min (a + b) (2 ^ 32 - 1)

/-- The tokens of the message, if any were counted. -/
def usage (s : MessagesAcc) : Option TokenUsage :=
  let totalPromptTokens := saturatingAdd
    (saturatingAdd s.finalInputTokens s.finalCacheReadInputTokens) s.finalCacheCreationInputTokens
  if totalPromptTokens > 0 ∨ s.finalOutputTokens > 0 then
    some
      { promptTokens := totalPromptTokens
        completionTokens := s.finalOutputTokens
        totalTokens := saturatingAdd totalPromptTokens s.finalOutputTokens
        reasoningTokens := 0
        cachedPromptTokens := s.finalCacheReadInputTokens
        cacheCreationPromptTokens := s.finalCacheCreationInputTokens }
  else none

/-- The response that was gathered. -/
def finish (s : MessagesAcc) : ConversationResponse where
  items :=
    (s.assistantReasoning.map .reasoning).toList ++
      [.assistant
        { content := s.assistantText
          toolCalls := s.assistantToolCalls
          modelId := some (s.finalModel.getD "")
          modelFingerprint := none }]
  stopReason :=
    if s.finalStopReason = some .length then s.finalStopReason
    else if s.assistantToolCalls.isEmpty then s.finalStopReason
    else some .toolCalls
  usage := s.usage
  costUsdTicks := none
  messageChunksEmitted := s.messageChunkCount
  doomLoopSignals := []
  stopMessage := s.finalStopMessage
  messageId := s.finalMessageId
  rawStopReason := s.finalRawStopReason
  stopSequence := s.finalStopSequence

end MessagesAcc

/-- The events of a stream of the messages API. -/
def streamMessages {J : Type*} (idleSecs : ℕ) (metadata : Option ResponseModelMetadata)
    (items : List (RawItem (MessageStreamEvent J))) : List SamplingEvent :=
  openingEvents metadata ++
    runStream idleSecs MessagesAcc.handle messagesEventHasMeaningfulContent MessagesAcc.finish
      MessagesAcc.start items

/-- Texts that are not empty are joined one behind the other, with a line break in between. -/
theorem intercalate_concat_of_ne_empty {texts : List String} (htexts : ∀ t ∈ texts, t ≠ "")
    (last : String) :
    "\n".intercalate (texts ++ [last]) =
      (if "\n".intercalate texts = "" then "" else "\n".intercalate texts ++ "\n") ++ last := by
  cases texts with
  | nil => rfl
  | cons t ts =>
    have ht := htexts t List.mem_cons_self
    have hjoined : "\n".intercalate (t :: ts) ≠ "" := by
      intro hempty
      cases ts with
      | nil =>
        rw [String.intercalate_singleton] at hempty
        exact ht hempty
      | cons t' ts =>
        rw [String.intercalate_cons_cons, String.append_assoc] at hempty
        exact ht (String.append_eq_empty_iff.mp hempty).1
    rw [if_neg hjoined, String.intercalate_append_of_ne_nil (List.cons_ne_nil _ _)
      (List.cons_ne_nil _ _), String.intercalate_singleton]

namespace MessagesAcc

/-- A watcher of the events knows the counters. -/
def Watched (s : MessagesAcc) (trace : List SamplingEvent) : Prop :=
  Watch.start.run trace = some ⟨s.firstTokenEmitted, s.chunkIndex, s.messageChunkCount⟩

section Watched

theorem Watched.next {s s' : MessagesAcc} {trace : List SamplingEvent} (h : s.Watched trace)
    {e : SamplingEvent}
    (hnext : Watch.next ⟨s.firstTokenEmitted, s.chunkIndex, s.messageChunkCount⟩ e =
      some ⟨s'.firstTokenEmitted, s'.chunkIndex, s'.messageChunkCount⟩) :
    s'.Watched (trace ++ [e]) := by
  rw [Watched, Watch.run_append, h, Option.bind_some, Watch.run_cons, hnext]
  rfl

theorem keeps_update {f : MessagesAcc → MessagesAcc}
    (hf : ∀ s, (f s).firstTokenEmitted = s.firstTokenEmitted ∧
      (f s).chunkIndex = s.chunkIndex ∧ (f s).messageChunkCount = s.messageChunkCount) :
    Transform.Keeps Watched (Transform.update f) := by
  apply Transform.Keeps.update
  intro s trace h
  obtain ⟨hfirst, hchunk, hcount⟩ := hf s
  rw [Watched, hfirst, hchunk, hcount]
  exact h

theorem keeps_openBlock (index : ℕ) (state : BlockState) :
    Transform.Keeps Watched (Transform.update (openBlock index state)) := by
  apply keeps_update
  intro s
  exact ⟨rfl, rfl, rfl⟩

theorem watched_announceFirst : Transform.Keeps Watched announceFirst := by
  intro s trace h
  rw [announceFirst]
  split
  · rw [List.append_nil]
    exact h
  · rename_i hfirst
    refine h.next ?_
    rw [Watch.next, if_neg hfirst]

theorem announceFirst_emitted (s : MessagesAcc) :
    (announceFirst s).1.firstTokenEmitted = true := by
  rw [announceFirst]
  split
  · assumption
  · rfl

theorem watched_sendToken (channel : SamplingChannel) (text : String) :
    Transform.Keeps Watched (sendToken channel text) := by
  intro s₀ trace₀ h₀
  have h := watched_announceFirst s₀ trace₀ h₀
  have hsaw := announceFirst_emitted s₀
  rw [sendToken, Transform.andThen]
  dsimp only
  rw [← List.append_assoc]
  refine h.next ?_
  rw [Watch.next, if_pos ⟨hsaw, rfl⟩]
  cases channel <;> rfl

theorem watched_startBlock {J : Type*} (index : ℕ) (contentBlock : ContentBlock J) :
    Transform.Keeps Watched (startBlock index contentBlock) := by
  cases contentBlock with
  | thinking | text =>
    exact (keeps_openBlock _ _).andThen watched_announceFirst
  | toolUse =>
    intro s trace h
    exact h.next rfl
  | redactedThinking | image | toolResult => exact .skip

theorem watched_continueBlock (index : ℕ) (state : BlockState) (delta : StreamDelta) :
    Transform.Keeps Watched (continueBlock index state delta) := by
  cases delta with
  | thinkingDelta | textDelta =>
    rw [continueBlock]
    split
    · exact .skip
    · exact (keeps_openBlock _ _).andThen (watched_sendToken _ _)
  | signatureDelta => exact keeps_openBlock _ _
  | inputJsonDelta partialJson =>
    intro s trace h
    rw [continueBlock]
    dsimp only
    split
    · exact h.next rfl
    · rw [List.append_nil]
      exact h

theorem watched_closeBlock (state : BlockState) : Transform.Keeps Watched (closeBlock state) := by
  intro s trace h
  rw [closeBlock]
  split
  · dsimp only
    rw [List.append_nil]
    split <;> exact h
  · dsimp only
    split
    · rw [List.append_nil]
      exact h
    · exact h.next rfl
  · rw [List.append_nil]
    exact h

theorem watched_readEvent {J : Type*} (e : MessageStreamEvent J) :
    Transform.Keeps Watched (readEvent e) := by
  cases e with
  | messageStart id model usage =>
    apply Transform.Keeps.andThen
    · apply keeps_update
      intro s
      exact ⟨rfl, rfl, rfl⟩
    · intro s trace h
      exact h.next rfl
  | contentBlockStart index contentBlock => exact watched_startBlock index contentBlock
  | contentBlockDelta index delta =>
    intro s trace h
    rw [readEvent]
    dsimp only
    split
    · exact watched_continueBlock _ _ _ s trace h
    · rw [List.append_nil]
      exact h
  | contentBlockStop index =>
    intro s trace h
    rw [readEvent]
    dsimp only
    split
    · exact watched_closeBlock _ _ trace h
    · rw [List.append_nil]
      exact h
  | messageDelta delta usage =>
    apply keeps_update
    intro s
    exact ⟨rfl, rfl, rfl⟩
  | messageStop | ping | error => exact .skip

end Watched

end MessagesAcc

end Ezer.Sampling
