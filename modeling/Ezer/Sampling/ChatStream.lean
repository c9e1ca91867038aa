import Ezer.Sampling.Streams
import Ezer.Lib.SortedMap

/-!
# The stream of the chat completions API

Chunks with pieces of text, reasoning and tool calls become events, and the
same pieces are gathered in a response. What is gathered and what was sent are
the same.
-/

namespace Ezer.Sampling

open Ezer.Lib Ezer.ChatState

/-- Why the model stopped, as the API says it. -/
inductive FinishReason where
  | stop
  | length
  | toolCalls
  | contentFilter
  | functionCall

/-- A reason of the API as a reason of a response. -/
def FinishReason.toStopReason : FinishReason → StopReason
  | .stop => .stop
  | .length => .length
  | .toolCalls | .functionCall => .toolCalls
  | .contentFilter => .contentFilter

/-- What is gathered from the chunks. -/
structure ChatAcc where
  firstChunkSeen : Bool
  firstChoiceSeen : Bool
  firstTokenEmitted : Bool
  model : String
  modelFingerprint : Option String
  usage : Option TokenUsage
  costUsdTicks : Option Int
  finishReason : Option StopReason
  contentAcc : String
  reasoningAcc : String
  toolCallAcc : SortedMap ToolCall
  chunkIndex : ℕ
  messageChunkCount : ℕ

namespace ChatAcc

/-- Nothing gathered. -/
def start : ChatAcc :=
  ⟨false, false, false, "", none, none, none, none, "", "", .empty, 0, 0⟩

/-- Announce the first token. -/
def announceFirst : Transform ChatAcc := fun s =>
  if s.firstTokenEmitted then (s, []) else ({ s with firstTokenEmitted := true }, [.firstToken])

/-- Gather a piece of text or of reasoning that is not empty, and send it. -/
def sendToken (channel : SamplingChannel) (text : String) : Transform ChatAcc :=
  announceFirst.andThen fun s =>
    ( match channel with
      | .text =>
        { s with
          chunkIndex := s.chunkIndex + 1
          messageChunkCount := s.messageChunkCount + 1
          contentAcc := s.contentAcc ++ text }
      | .reasoning =>
        { s with chunkIndex := s.chunkIndex + 1, reasoningAcc := s.reasoningAcc ++ text },
      [.channelToken channel text (s.chunkIndex + 1)] )

end ChatAcc

/-- A reasoning item with a text. -/
def synthesizedReasoningItem (text : String) : ReasoningItem := ⟨"", [text], none, none⟩

/-- The response that was gathered. -/
def ChatAcc.finish (s : ChatAcc) : ConversationResponse :=
  let toolCalls := s.toolCallAcc.values
  { items :=
      if s.firstChoiceSeen then
        (if s.reasoningAcc = "" then []
          else [.reasoning (synthesizedReasoningItem s.reasoningAcc)]) ++
        [.assistant
          { content := s.contentAcc
            toolCalls := toolCalls
            modelId := some s.model
            modelFingerprint := s.modelFingerprint }]
      else [.assistant ⟨"", [], none, none⟩]
    stopReason := if toolCalls.isEmpty then s.finishReason else some .toolCalls
    usage := s.usage
    costUsdTicks := s.costUsdTicks
    messageChunksEmitted := s.messageChunkCount
    doomLoopSignals := []
    stopMessage := none
    messageId := none
    rawStopReason := none
    stopSequence := none }

/-- What is gathered is what was sent. -/
structure ChatAcc.Gathers (s : ChatAcc) (trace : List SamplingEvent) : Prop where
  watched : Watch.start.run trace = some ⟨s.firstTokenEmitted, s.chunkIndex, s.messageChunkCount⟩
  content : s.contentAcc = String.join (textTokens trace)
  toolCalls : ∀ i, s.toolCallAcc.get? i =
    if toolDeltas trace i = [] then none else some (clientCall trace i)
  unchosen : s.firstChoiceSeen = false → s.contentAcc = "" ∧ s.toolCallAcc.entries = []

namespace ChatAcc

theorem announceFirst_emitted (s : ChatAcc) : (announceFirst s).1.firstTokenEmitted = true := by
  rw [announceFirst]
  split
  · assumption
  · rfl

/-- The response says what was sent. -/
theorem Gathers.finish {s : ChatAcc} {trace : List SamplingEvent} (h : s.Gathers trace) :
    s.finish.content = String.join (textTokens trace) ∧
      SameToolCalls trace s.finish.toolCalls := by
  have hcalls : s.toolCallAcc.values = s.toolCallAcc.keys.map (clientCall trace) := by
    have hsome : (s.toolCallAcc.keys.map (clientCall trace)).map some =
        s.toolCallAcc.values.map some := by
      rw [← SortedMap.map_get?_keys, List.map_map]
      apply List.map_congr_left
      intro i hi
      have hne := (SortedMap.mem_keys_iff _ _).mp hi
      rw [h.toolCalls] at hne ⊢
      split
      · rename_i hnil
        rw [if_pos hnil] at hne
        exact (hne rfl).elim
      · rfl
    exact (List.map_inj_right (fun _ _ h => Option.some.inj h)).mp hsome.symm
  have hkeys (i : ℕ) : i ∈ s.toolCallAcc.keys ↔ toolDeltas trace i ≠ [] := by
    rw [SortedMap.mem_keys_iff, h.toolCalls]
    split
    · rename_i hnil
      simp [hnil]
    · rename_i hne
      simp [hne]
  have hassistant : s.finish.content = s.contentAcc ∧
      s.finish.toolCalls = s.toolCallAcc.values := by
    cases hchoice : s.firstChoiceSeen with
    | true =>
      rw [ConversationResponse.content, ConversationResponse.toolCalls,
        ConversationResponse.assistant, ChatAcc.finish]
      simp [hchoice]
    | false =>
      obtain ⟨hcontent, hentries⟩ := h.unchosen hchoice
      rw [ConversationResponse.content, ConversationResponse.toolCalls,
        ConversationResponse.assistant, ChatAcc.finish]
      simp [hchoice, hcontent, SortedMap.values, hentries]
  refine ⟨hassistant.1.trans h.content, s.toolCallAcc.keys, s.toolCallAcc.sorted, hkeys, ?_⟩
  rw [hassistant.2]
  exact hcalls

end ChatAcc

end Ezer.Sampling
