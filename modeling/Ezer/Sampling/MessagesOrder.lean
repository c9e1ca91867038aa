import Ezer.Sampling.Breakpoints

/-!
# The order of a request

What the items of a conversation say comes in the same order in the messages.
Messages of the assistant stand next to each other exactly where a system item
interrupts it.
-/

namespace Ezer.Sampling

open Ezer.ChatState

/-- What a block or an item says: a text, thinking, a tool call or a tool result. -/
inductive Said (J : Type*) where
  | text (text : String)
  | thinking (thinking signature : String)
  | call (id name : String) (input : J)
  | result (id : String) (content : ToolResultContent)

section

variable {J : Type*} (codec : Codec J)

/-- What a block says. -/
def ContentBlock.said : ContentBlock J → Option (Said J)
  | .text content _ => some (.text content)
  | .image _ _ => none
  | .toolUse id name input _ => some (.call id name input)
  | .toolResult id content _ => some (.result id content)
  | .thinking content signature => some (.thinking content signature)
  | .redactedThinking _ => none

/-- The text sent in place of an image that cannot be sent. -/
def imageNote (url : String) : Option String :=
  match (imageBlock url : ContentBlock Unit) with
  | .text note _ => some note
  | _ => none

/-- What an item says in the messages. -/
def itemSaid : ConversationItem → List (Said J)
  | .system _ => []
  | .user u => u.content.filterMap fun
    | .text content => some (.text content)
    | .image url => (imageNote url).map Said.text
  | .assistant a =>
    (if a.content.isEmpty then [] else [.text a.content]) ++
      a.toolCalls.map fun call =>
        .call (sanitizeToolCallId codec call.id) call.name
          ((codec.fromStr call.arguments).getD codec.emptyObject)
  | .toolResult t => [.result (sanitizeToolCallId codec t.toolCallId) (toolResultContent t)]
  | .backendToolCall kind => [.text (textSummary kind)]
  | .reasoning r =>
    if (reasoningItemText r).isEmpty ∧ (r.encryptedContent.getD "").isEmpty then []
    else [.thinking (reasoningItemText r) (r.encryptedContent.getD "")]

/-- The text of a system item. -/
def systemText : ConversationItem → Option String
  | .system s => some s.content
  | _ => none

/-- What some messages say. -/
def messagesSaid (messages : List (Message J)) : List (Said J) :=
  messages.flatMap fun m => m.blocks.filterMap ContentBlock.said

theorem said_bare (b : ContentBlock J) : b.bare.said = b.said := by
  cases b <;> rfl

theorem messagesSaid_append (ms ms' : List (Message J)) :
    messagesSaid (ms ++ ms') = messagesSaid ms ++ messagesSaid ms' := List.flatMap_append

theorem messagesSaid_singleton (role : MessageRole) (blocks : List (ContentBlock J)) :
    messagesSaid [⟨role, .blocks blocks⟩] = blocks.filterMap ContentBlock.said := by
  simp [messagesSaid, Message.blocks]

/-- What messages say does not depend on breakpoints. -/
theorem messagesSaid_eq_of_bare {ms ms' : List (Message J)}
    (h : ms.map Message.bare = ms'.map Message.bare) : messagesSaid ms = messagesSaid ms' := by
  have hbare : ∀ ms : List (Message J),
      messagesSaid ms = (ms.map Message.bare).flatMap fun m => m.2.filterMap ContentBlock.said := by
    intro ms
    rw [List.flatMap_map]
    unfold messagesSaid Message.bare
    simp only [List.filterMap_map, Function.comp_def, said_bare]
  rw [hbare, hbare, h]

theorem filterMap_said_userBlocks (parts : List ContentPart) :
    (contentPartsToAnthropicBlocks parts : List (ContentBlock J)).filterMap ContentBlock.said =
      parts.filterMap fun
        | .text content => some (.text content)
        | .image url => (imageNote url).map Said.text := by
  unfold contentPartsToAnthropicBlocks
  rw [List.filterMap_map]
  congr 1
  funext part
  cases part with
  | text content => rfl
  | image url =>
    simp only [Function.comp_apply, imageNote, imageBlock]
    split
    · split <;> rfl
    · split <;> rfl

/-- Whether an item belongs to a message of the assistant. -/
def ofAssistant : ConversationItem → Bool
  | .system _ => false
  | .user _ => false
  | .toolResult _ => false
  | .assistant _ => true
  | .backendToolCall _ => true
  | .reasoning _ => true

theorem filterMap_said_assistantBlocks {item : ConversationItem} (h : ofAssistant item = true) :
    (assistantBlocks codec item).filterMap ContentBlock.said = itemSaid codec item := by
  cases item with
  | system | user | toolResult => cases h
  | assistant a =>
    unfold assistantBlocks itemSaid
    rw [List.filterMap_append, List.filterMap_map]
    congr 1
    · split <;> rfl
    · rw [← List.filterMap_eq_map]
      rfl
  | backendToolCall kind => rfl
  | reasoning r =>
    unfold assistantBlocks itemSaid
    dsimp only
    by_cases hempty : (reasoningItemText r).isEmpty ∧ (r.encryptedContent.getD "").isEmpty
    · rw [if_pos hempty, if_neg (by simp [hempty.1, hempty.2])]
      rfl
    · rw [if_neg hempty, if_pos (by rwa [← not_and_or])]
      rfl

/-- Only one kind of pending blocks waits at a time. -/
def Building.OneSide (b : Building J) : Prop :=
  b.pendingAssistant = [] ∨ b.pendingToolResults = []

/-- What has been read so far says what is sent and what is pending. -/
def Building.said (b : Building J) : List (Said J) :=
  messagesSaid b.messages ++ (b.pendingAssistant ++ b.pendingToolResults).filterMap
    ContentBlock.said

theorem said_flushAssistant {b : Building J} (h : b.OneSide) : b.flushAssistant.said = b.said := by
  unfold Building.flushAssistant
  split
  · rfl
  · rename_i hne
    have hresults : b.pendingToolResults = [] := by
      refine h.resolve_left fun hnil => ?_
      simp [hnil] at hne
    simp [Building.said, messagesSaid_append, messagesSaid_singleton, hresults]

theorem said_flushToolResults {b : Building J} (h : b.OneSide) :
    b.flushToolResults.said = b.said := by
  unfold Building.flushToolResults
  split
  · rfl
  · rename_i hne
    have hassistant : b.pendingAssistant = [] := by
      refine h.resolve_right fun hnil => ?_
      simp [hnil] at hne
    simp [Building.said, messagesSaid_append, messagesSaid_singleton, hassistant]

@[simp] theorem pendingAssistant_flushAssistant (b : Building J) :
    b.flushAssistant.pendingAssistant = [] := by
  unfold Building.flushAssistant
  split
  · rename_i h
    exact List.isEmpty_iff.mp h
  · rfl

@[simp] theorem pendingToolResults_flushAssistant (b : Building J) :
    b.flushAssistant.pendingToolResults = b.pendingToolResults := by
  unfold Building.flushAssistant
  split <;> rfl

@[simp] theorem systemBlocks_flushAssistant (b : Building J) :
    b.flushAssistant.systemBlocks = b.systemBlocks := by
  unfold Building.flushAssistant
  split <;> rfl

@[simp] theorem pendingToolResults_flushToolResults (b : Building J) :
    b.flushToolResults.pendingToolResults = [] := by
  unfold Building.flushToolResults
  split
  · rename_i h
    exact List.isEmpty_iff.mp h
  · rfl

@[simp] theorem pendingAssistant_flushToolResults (b : Building J) :
    b.flushToolResults.pendingAssistant = b.pendingAssistant := by
  unfold Building.flushToolResults
  split <;> rfl

@[simp] theorem systemBlocks_flushToolResults (b : Building J) :
    b.flushToolResults.systemBlocks = b.systemBlocks := by
  unfold Building.flushToolResults
  split <;> rfl

theorem oneSide_flushAssistant (b : Building J) : b.flushAssistant.OneSide :=
  .inl (pendingAssistant_flushAssistant b)

/-- Everything read so far, sent. -/
def Building.flushed (b : Building J) : Building J := b.flushAssistant.flushToolResults

theorem said_flushed {b : Building J} (h : b.OneSide) : b.flushed.said = b.said :=
  (said_flushToolResults (oneSide_flushAssistant b)).trans (said_flushAssistant h)

/-- An item of the assistant is gathered behind the tool results sent. -/
theorem push_of_assistant {item : ConversationItem} (h : ofAssistant item = true)
    (b : Building J) :
    b.push codec item =
      { b.flushToolResults with
        pendingAssistant := b.flushToolResults.pendingAssistant ++ assistantBlocks codec item } := by
  cases item with
  | system | user | toolResult => cases h
  | _ => rfl

theorem said_push {b : Building J} (h : b.OneSide) (item : ConversationItem) :
    (b.push codec item).OneSide ∧ (b.push codec item).said = b.said ++ itemSaid codec item := by
  have hflushed := said_flushed h
  cases item with
  | system s =>
    refine ⟨.inr (pendingToolResults_flushToolResults _), ?_⟩
    rw [itemSaid, List.append_nil]
    exact hflushed
  | user u =>
    refine ⟨.inr (pendingToolResults_flushToolResults _), ?_⟩
    have hpending : b.flushed.pendingAssistant = [] ∧ b.flushed.pendingToolResults = [] := by
      simp [Building.flushed]
    have hsent : messagesSaid b.flushed.messages = b.said := by
      rw [← hflushed]
      simp [Building.said, hpending]
    rw [itemSaid, ← filterMap_said_userBlocks]
    simp only [Building.push, Building.said] at hsent ⊢
    rw [messagesSaid_append, messagesSaid_singleton, ← hsent]
    simp [Building.flushed]
  | toolResult t =>
    refine ⟨.inl (pendingAssistant_flushAssistant b), ?_⟩
    have hsent := said_flushAssistant h
    rw [← hsent, itemSaid]
    simp [Building.push, Building.said, toolResultBlock, ContentBlock.said]
  | _ =>
    rw [push_of_assistant codec rfl]
    refine ⟨.inr (pendingToolResults_flushToolResults b), ?_⟩
    have hsent := said_flushToolResults h
    rw [← hsent, ← filterMap_said_assistantBlocks codec rfl]
    simp [Building.said]

/-- What a conversation says comes in order in the messages. -/
theorem said_foldl {b : Building J} (h : b.OneSide) (items : List ConversationItem) :
    (items.foldl (Building.push codec) b).OneSide ∧
      (items.foldl (Building.push codec) b).said = b.said ++ items.flatMap (itemSaid codec) := by
  induction items generalizing b with
  | nil => exact ⟨h, by simp⟩
  | cons item items ih =>
    obtain ⟨hside, hsaid⟩ := said_push codec h item
    obtain ⟨hside', hsaid'⟩ := ih hside
    exact ⟨hside', by rw [List.foldl_cons, hsaid', hsaid, List.flatMap_cons, List.append_assoc]⟩

theorem systemTexts_push (b : Building J) (item : ConversationItem) :
    (b.push codec item).systemBlocks.map TextBlock.text =
      b.systemBlocks.map TextBlock.text ++ (systemText item).toList := by
  cases item <;> simp [Building.push, systemText]

/-- The system texts come in order in the system prompt. -/
theorem systemTexts_foldl (b : Building J) (items : List ConversationItem) :
    (items.foldl (Building.push codec) b).systemBlocks.map TextBlock.text =
      b.systemBlocks.map TextBlock.text ++ items.filterMap systemText := by
  induction items generalizing b with
  | nil => simp
  | cons item items ih =>
    rw [List.foldl_cons, ih, systemTexts_push, List.append_assoc]
    cases h : systemText item with
    | none => rw [List.filterMap_cons_none h]; rfl
    | some text => rw [List.filterMap_cons_some h]; rfl

end

end Ezer.Sampling
