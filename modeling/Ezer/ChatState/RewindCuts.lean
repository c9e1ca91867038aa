import Ezer.ChatState.Actor

/-!
# The two rewinds compared

The rewind of the chat state counts user items, the rewind of the session reads
their markers. Unmarked user items before the item that opens the target turn
are counted by the first alone, so the cuts differ exactly when there are any.
-/

namespace Ezer.ChatState

/-- Both rewinds keep what stands before the item that opens the target turn. -/
structure RewindsAgree (s : ChatStateActor) (target : Nat) : Prop where
  /-- The chat state keeps what stands before the opening item. -/
  opener : (s.truncateToPromptIndex target).conversation = beforeTurn target s.conversation
  /-- The session rewind keeps the same items. -/
  session : (s.truncateToPromptIndex target).conversation =
    s.conversation.take (conversationTruncateForPrompt s.conversation target)

/-- The rewinds agree exactly when every user item before the opening item is marked. -/
theorem truncateToPromptIndex_agree_iff (s : ChatStateActor) (target : Nat)
    (hmarkers : markers s.conversation = List.range s.promptIndex)
    (htarget : target < s.promptIndex) :
    RewindsAgree s target ↔
      ∀ item ∈ beforeTurn target s.conversation,
        item.isUser = true → item.promptIndex.isSome = true := by
  have hconversation : (s.truncateToPromptIndex target).conversation =
      s.conversation.take (userCut target 0 s.conversation) := by
    rw [ChatStateActor.truncateToPromptIndex, if_neg (by omega)]
    rfl
  have hmem : target ∈ markers s.conversation := by
    rw [hmarkers]
    exact List.mem_range.mpr htarget
  obtain ⟨u, after, hu, hitems⟩ := exists_opener hmem
  have hprefix : s.conversation.take (beforeTurn target s.conversation).length =
      beforeTurn target s.conversation := by
    have h := congrArg (List.take (beforeTurn target s.conversation).length) hitems
    rwa [List.take_left] at h
  have hsession : s.conversation.take (conversationTruncateForPrompt s.conversation target) =
      beforeTurn target s.conversation := by
    rw [conversationTruncateForPrompt_eq hmarkers htarget, hprefix]
  have hcut : s.conversation.take (userCut target 0 s.conversation) =
      beforeTurn target s.conversation ↔
        userCut target 0 s.conversation = (beforeTurn target s.conversation).length := by
    constructor
    · intro h
      have hlength := congrArg List.length h
      rwa [List.length_take, Nat.min_eq_left (userCut_le_length target 0 s.conversation)]
        at hlength
    · intro h
      rw [h, hprefix]
  have hcount := @userCut_eq_length_iff target 0 u (beforeTurn target s.conversation) after
    (Nat.zero_le target)
  rw [← hitems, Nat.zero_add] at hcount
  have hmarked := countP_isUser_eq_iff (beforeTurn target s.conversation)
  rw [length_markers_beforeTurn hmarkers htarget] at hmarked
  rw [← hmarked, ← hcount, ← hcut, ← hconversation]
  constructor
  · exact RewindsAgree.opener
  · intro h
    exact ⟨h, h.trans hsession.symm⟩

/-- A user item that opens a prompt turn. -/
def promptItem (text : String) (index : Nat) : ConversationItem :=
  .user ⟨[.text text], .human, none, none, some index⟩

/-- An unmarked item with project instructions. -/
def projectInstructions (text : String) : ConversationItem :=
  .user ⟨[.text text], .projectInstructions, none, none, none⟩

/-- An actor without history, as the runs below start. -/
def idleActor (conversation : List ConversationItem) (promptIndex : Nat) : ChatStateActor where
  conversation := conversation
  promptIndex := promptIndex
  promptTexts := []
  turnCapture := none
  pruningConfig := ⟨true, 10⟩
  persisted := conversation
  turnTails := []

/-- Two marked turns without anything in between are cut alike. -/
theorem marked_turns_agree : RewindsAgree (idleActor [promptItem "a" 0, promptItem "b" 1] 2) 1 :=
  (truncateToPromptIndex_agree_iff (idleActor [promptItem "a" 0, promptItem "b" 1] 2) 1 rfl
    (by decide)).mpr (by decide)

/-- Project instructions before the first prompt: the rewind to turn 1 drops turn 0 as well. -/
theorem project_instructions_disagree :
    ¬∀ (s : ChatStateActor) (target : Nat), markers s.conversation = List.range s.promptIndex →
      target < s.promptIndex → RewindsAgree s target := by
  intro h
  have hagree := h (idleActor [projectInstructions "p", promptItem "a" 0, promptItem "b" 1] 2) 1
    rfl (by decide)
  have hopener := hagree.opener
  revert hopener
  decide

end Ezer.ChatState
