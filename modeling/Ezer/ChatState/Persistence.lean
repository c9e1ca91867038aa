import Ezer.ChatState.Actor

/-!
# The stored history follows the conversation

Every command leaves the history that the persistence backend holds equal to the
conversation: a rewrite that counts no change has changed nothing, and every
other change is appended or overwrites the stored history.
-/

namespace Ezer.ChatState

open Ezer.Lib

/-! ## Rewrites that count no change -/

variable {items : List ConversationItem}

theorem repairIntegrity_eq_self {reason : DanglingToolCallReason}
    {answers : List (String × String)}
    (h : (ChatStateActor.repairIntegrity reason answers items).2 = 0) :
    (ChatStateActor.repairIntegrity reason answers items).1 = items := by
  rw [ChatStateActor.repairIntegrity] at h ⊢
  dsimp only at h ⊢
  have hdedup := dedup_eq_self (Nat.eq_zero_of_add_eq_zero_left h)
  have hrepair := repair_eq_self (Nat.eq_zero_of_add_eq_zero_right h)
  exact hrepair.trans hdedup

variable {shouldStrip : String → Bool}

theorem stripParts_eq_self {parts : List ContentPart}
    (h : (stripParts shouldStrip parts).2 = []) : (stripParts shouldStrip parts).1 = parts := by
  induction parts with
  | nil => rfl
  | cons part parts ih =>
    cases part with
    | text text =>
      rw [stripParts] at h ⊢
      exact congrArg (ContentPart.text text :: ·) (ih h)
    | image url =>
      rw [stripParts] at h ⊢
      split at h
      · cases h
      · rename_i hkeep
        rw [if_neg hkeep]
        exact congrArg (ContentPart.image url :: ·) (ih h)

theorem stripResultImages_eq_self {parts : List ContentPart}
    (h : (stripResultImages shouldStrip parts).2 = []) :
    (stripResultImages shouldStrip parts).1 = parts := by
  induction parts with
  | nil => rfl
  | cons part parts ih =>
    cases part with
    | text text =>
      rw [stripResultImages] at h ⊢
      exact congrArg (ContentPart.text text :: ·) (ih h)
    | image url =>
      rw [stripResultImages] at h ⊢
      split at h
      · cases h
      · rename_i hkeep
        rw [if_neg hkeep]
        exact congrArg (ContentPart.image url :: ·) (ih h)

theorem stripItem_eq_self {item : ConversationItem}
    (h : (stripItem shouldStrip item).2 = []) : (stripItem shouldStrip item).1 = item := by
  cases item with
  | user u =>
    have hparts := stripParts_eq_self h
    exact congrArg (fun parts => ConversationItem.user { u with content := parts }) hparts
  | toolResult t =>
    have hparts := stripResultImages_eq_self h
    exact congrArg (fun parts => ConversationItem.toolResult { t with images := parts }) hparts
  | _ => rfl

theorem stripImagesWhere_eq_self (h : (stripImagesWhere shouldStrip items).2 = []) :
    (stripImagesWhere shouldStrip items).1 = items := by
  induction items with
  | nil => rfl
  | cons item rest ih =>
    rw [stripImagesWhere] at h ⊢
    obtain ⟨hitem, hrest⟩ := List.append_eq_nil_iff.mp h
    dsimp only
    rw [stripItem_eq_self hitem, ih hrest]

theorem stripImagesByUrl_eq_self {urls : List String}
    (h : (stripImagesByUrl urls items).2 = 0) : (stripImagesByUrl urls items).1 = items :=
  stripImagesWhere_eq_self (List.eq_nil_of_length_eq_zero h)

theorem hardClearFrom_eq_self {threshold turnFromEnd : Nat} {seenFirstUser : Bool}
    (h : (hardClearFrom threshold turnFromEnd seenFirstUser items).2 = 0) :
    (hardClearFrom threshold turnFromEnd seenFirstUser items).1 = items := by
  induction items generalizing turnFromEnd seenFirstUser with
  | nil => rfl
  | cons item rest ih =>
    cases item with
    | toolResult t =>
      rw [hardClearFrom] at h ⊢
      split at h
      · rename_i hyoung
        rw [if_pos hyoung]
        exact congrArg (ConversationItem.toolResult t :: ·) (ih h)
      · rename_i hold
        rw [if_neg hold]
        split at h
        · cases h
        · rename_i hcleared
          rw [if_neg hcleared]
          exact congrArg (ConversationItem.toolResult t :: ·) (ih h)
    | user u => exact congrArg (ConversationItem.user u :: ·) (ih h)
    | system sys => exact congrArg (ConversationItem.system sys :: ·) (ih h)
    | assistant a => exact congrArg (ConversationItem.assistant a :: ·) (ih h)
    | backendToolCall kind => exact congrArg (ConversationItem.backendToolCall kind :: ·) (ih h)
    | reasoning r => exact congrArg (ConversationItem.reasoning r :: ·) (ih h)

theorem hardClear_eq_self {threshold : Nat}
    (h : (hardClear threshold items).2 = 0) : (hardClear threshold items).1 = items := by
  rw [hardClear] at h ⊢
  dsimp only at h ⊢
  rw [hardClearFrom_eq_self h, List.reverse_reverse]

theorem popLengthContinue_eq_self
    (h : (popLengthContinue items).2 = 0) : (popLengthContinue items).1 = items := by
  rw [popLengthContinue] at h ⊢
  dsimp only at h ⊢
  rw [List.length_reverse] at h
  have hkept : items.reverse.dropWhile ConversationItem.isLengthContinue = items.reverse := by
    apply (List.dropWhile_suffix _).eq_of_length_le
    rw [List.length_reverse]
    omega
  rw [hkept, List.reverse_reverse]

theorem injectMemoryReminder_eq_self {reminder : String}
    (h : (injectMemoryReminder items reminder).2 = false) :
    (injectMemoryReminder items reminder).1 = items := by
  unfold injectMemoryReminder at h ⊢
  dsimp only at h ⊢
  split at h
  · rename_i hempty
    rw [if_pos hempty]
  · rename_i hempty
    rw [if_neg hempty]
    split at h
    · split at h
      · rename_i hsame
        rw [if_pos hsame]
      · cases h
    · cases h

/-! ## The actor -/

namespace ChatStateActor

/-- The stored history is the conversation. -/
def Stored (s : ChatStateActor) : Prop := s.persisted = s.conversation

@[simp] theorem snapshotTurnSlice_conversation (s : ChatStateActor) :
    s.snapshotTurnSlice.conversation = s.conversation := by
  rw [snapshotTurnSlice]
  split <;> rfl

@[simp] theorem snapshotTurnSlice_persisted (s : ChatStateActor) :
    s.snapshotTurnSlice.persisted = s.persisted := by
  rw [snapshotTurnSlice]
  split <;> rfl

/-- What a rewrite leaves in the conversation and in the stored history. -/
theorem rewriteHistory_eq (kind : HistoryRewrite)
    (mutate : List ConversationItem → List ConversationItem × Nat) (s : ChatStateActor) :
    (s.rewriteHistory kind mutate).conversation = (mutate s.conversation).1 ∧
      (s.rewriteHistory kind mutate).persisted =
        if 0 < (mutate s.conversation).2 then (mutate s.conversation).1 else s.persisted := by
  rw [rewriteHistory]
  by_cases h : kind = .integrityRepair
  · simp only [h, if_true, snapshotTurnSlice_conversation, rebaseTurnCaptureOffset]
    split
    · exact ⟨rfl, rfl⟩
    · exact ⟨rfl, snapshotTurnSlice_persisted s⟩
  · simp only [h, if_false]
    split
    · exact ⟨rfl, rfl⟩
    · exact ⟨rfl, rfl⟩

variable {s : ChatStateActor}

/-- A rewrite keeps the stored history in step when counting no change means none. -/
theorem Stored.rewriteHistory (h : s.Stored) (kind : HistoryRewrite)
    {mutate : List ConversationItem → List ConversationItem × Nat}
    (hmutate : ∀ items, (mutate items).2 = 0 → (mutate items).1 = items) :
    (s.rewriteHistory kind mutate).Stored := by
  obtain ⟨hconversation, hpersisted⟩ := rewriteHistory_eq kind mutate s
  rw [Stored, hconversation, hpersisted]
  split
  · rfl
  · rename_i hzero
    rw [hmutate s.conversation (by omega)]
    exact h

theorem Stored.ensureConversationIntegrityAnswering (h : s.Stored)
    (reason : DanglingToolCallReason) (answers : List (String × String)) :
    (s.ensureConversationIntegrityAnswering reason answers).Stored :=
  h.rewriteHistory .integrityRepair fun _ => repairIntegrity_eq_self

theorem Stored.popStrandedContinueReminder (h : s.Stored) :
    s.popStrandedContinueReminder.Stored := by
  rw [ChatStateActor.popStrandedContinueReminder]
  split
  · exact h.rewriteHistory .integrityRepair fun _ => popLengthContinue_eq_self
  · exact h

theorem Stored.persistAndPushMessage (h : s.Stored)
    (item : ConversationItem) : (s.persistAndPushMessage item).Stored :=
  congrArg (· ++ [item]) h

theorem Stored.pruneRetainedConversation (h : s.Stored) :
    s.pruneRetainedConversation.Stored := by
  rw [ChatStateActor.pruneRetainedConversation]
  split
  · exact h
  · split
    · exact h
    · exact h.rewriteHistory .retainedPrune fun _ => hardClear_eq_self

theorem Stored.pushUserMessageWithRepairReason (h : s.Stored)
    (item : ConversationItem) (reason : DanglingToolCallReason) :
    (s.pushUserMessageWithRepairReason item reason).Stored := by
  rw [ChatStateActor.pushUserMessageWithRepairReason]
  apply Stored.pruneRetainedConversation
  apply Stored.persistAndPushMessage
  apply Stored.ensureConversationIntegrityAnswering
  split
  · exact h.popStrandedContinueReminder
  · exact h

@[simp] theorem rebaseTurnCaptureOffset_conversation (s : ChatStateActor) :
    s.rebaseTurnCaptureOffset.conversation = s.conversation := rfl

@[simp] theorem rebaseTurnCaptureOffset_persisted (s : ChatStateActor) :
    s.rebaseTurnCaptureOffset.persisted = s.persisted := rfl

theorem stored_replaceConversation (items : List ConversationItem) (isCompaction : Bool)
    (s : ChatStateActor) : (s.replaceConversation items isCompaction).Stored := rfl

theorem Stored.repairHistory (h : s.Stored) (dryRun : Bool) :
    (s.repairHistory dryRun).1.Stored := by
  rw [ChatStateActor.repairHistory]
  split
  · exact h
  · dsimp only
    split
    · exact stored_replaceConversation _ false _
    · rename_i hchanged
      rw [Stored, repairHistory_eq_self (eq_false_of_ne_true hchanged)]
      exact h

theorem replaceFirst_find {p : ConversationItem → Bool} {items : List ConversationItem}
    {item : ConversationItem} (h : items.find? p = some item) :
    replaceFirst p item items = some items := by
  induction items with
  | nil => cases h
  | cons first rest ih =>
    rw [replaceFirst]
    cases hp : p first with
    | true =>
      rw [List.find?_cons_of_pos hp] at h
      rw [if_pos rfl, Option.some.inj h]
    | false =>
      rw [List.find?_cons_of_neg (by rw [hp]; exact Bool.false_ne_true)] at h
      rw [if_neg Bool.false_ne_true, ih h]
      rfl

theorem replaceFirst_none {p : ConversationItem → Bool} {items : List ConversationItem}
    (h : items.find? p = none) (item : ConversationItem) : replaceFirst p item items = none := by
  induction items with
  | nil => rfl
  | cons first rest ih =>
    rw [List.find?_eq_none] at h
    rw [replaceFirst, if_neg (h first List.mem_cons_self),
      ih (List.find?_eq_none.mpr fun item hitem => h item (List.mem_cons_of_mem _ hitem))]
    rfl

/-- A committed switch append ends with the same switch in memory and in the store. -/
theorem Stored.appendWorkingDirectorySwitch (h : s.Stored) (content : String) (generation : Nat) :
    (s.appendWorkingDirectorySwitch content generation true).Stored := by
  rw [ChatStateActor.appendWorkingDirectorySwitch]
  have hpop := h.popStrandedContinueReminder
  generalize s.popStrandedContinueReminder = popped at hpop
  have hcandidate : (workingDirectorySwitch content generation).workingDirectorySwitchGeneration =
      some generation := rfl
  rw [persistWorkingDirectorySwitch, if_neg (by decide), hcandidate]
  rw [Stored] at hpop
  cases hfind : popped.persisted.find? fun stored =>
      decide (stored.workingDirectorySwitchGeneration = some generation) with
  | some authoritative =>
    dsimp only
    rw [convergeWorkingDirectorySwitch]
    rw [hpop] at hfind
    rw [replaceFirst_find hfind]
    exact hpop
  | none =>
    dsimp only
    rw [convergeWorkingDirectorySwitch]
    rw [hpop] at hfind
    have hnone := replaceFirst_none hfind (workingDirectorySwitch content generation)
    rw [show replaceFirst _ _ (popped.persistMessage _).conversation = none from hnone]
    exact congrArg (· ++ [workingDirectorySwitch content generation]) hpop

theorem Stored.replaceSystemHead (h : s.Stored) (prompt : String) :
    (s.replaceSystemHead prompt).Stored := by
  rw [ChatStateActor.replaceSystemHead]
  split
  · exact stored_replaceConversation _ false s
  · exact h

theorem Stored.truncateToPromptIndex (h : s.Stored) (target : Nat) :
    (s.truncateToPromptIndex target).Stored := by
  rw [ChatStateActor.truncateToPromptIndex]
  split
  · exact h
  · rfl

theorem Stored.buildConversationRequest (h : s.Stored)
    (memoryReminder : Option String) (persistMemoryReminder : Bool) :
    (s.buildConversationRequest memoryReminder persistMemoryReminder).Stored := by
  cases memoryReminder with
  | none => exact h
  | some reminder =>
    cases persistMemoryReminder with
    | false => exact h
    | true =>
      rw [ChatStateActor.buildConversationRequest, if_pos rfl]
      dsimp only
      split
      · rfl
      · rename_i hinjected
        rw [snapshotTurnSlice_conversation] at hinjected
        have hsame := injectMemoryReminder_eq_self (eq_false_of_ne_true hinjected)
        simp only [Stored, rebaseTurnCaptureOffset_conversation, rebaseTurnCaptureOffset_persisted,
          hsame, snapshotTurnSlice_conversation, snapshotTurnSlice_persisted]
        exact h

/-- The commands after which the store has to agree: every one but a restore, with all
writes succeeding. -/
def Commits : ChatStateCommand → Prop
  | .restoreSnapshot _ => False
  | .appendWorkingDirectorySwitchAndAck _ _ commits => commits = true
  | _ => True

/-- One command keeps the stored history in step with the conversation. -/
theorem Stored.handleCommand (h : s.Stored) {command : ChatStateCommand}
    (hcommand : Commits command) : (s.handleCommand command).Stored := by
  cases command with
  | pushUserMessage item => exact h.pushUserMessageWithRepairReason item .userCancelled
  | pushUserMessagesBatch items =>
    change (items.foldl (fun s item => s.pushUserMessage item) s).Stored
    clear hcommand
    induction items generalizing s with
    | nil => exact h
    | cons item items ih => exact ih (h.pushUserMessageWithRepairReason item .userCancelled)
  | appendWorkingDirectorySwitchAndAck content generation commits =>
    obtain rfl : commits = true := hcommand
    exact h.appendWorkingDirectorySwitch content generation
  | pushUserMessageWithRepairReason item reason =>
    exact h.pushUserMessageWithRepairReason item reason
  | pushAssistantResponse item | pushToolResult item | pushModelOutput item
  | pushUnreportedModelOutput item =>
    exact h.persistAndPushMessage item
  | incrementPromptIndex | beginTurnCapture | other => exact h
  | replaceConversation items isCompaction =>
    exact stored_replaceConversation items isCompaction s
  | repairHistory dryRun turnActive =>
    change (if turnActive then s else (s.repairHistory dryRun).1).Stored
    split
    · exact h
    · exact h.repairHistory dryRun
  | stripConversationImages urls =>
    exact h.rewriteHistory .imageStrip fun _ => stripImagesByUrl_eq_self
  | replaceSystemHead prompt => exact h.replaceSystemHead prompt
  | cachePromptText text => exact h
  | restoreSnapshot snapshot => cases hcommand
  | repairDanglingAfterHarnessHalt tag answers =>
    exact h.popStrandedContinueReminder.ensureConversationIntegrityAnswering _ answers
  | popStrandedContinueReminder => exact h.popStrandedContinueReminder
  | buildConversationRequest memoryReminder persistMemoryReminder =>
    exact (h.ensureConversationIntegrityAnswering .userCancelled []).buildConversationRequest
      memoryReminder persistMemoryReminder
  | truncateToPromptIndex target => exact h.truncateToPromptIndex target
  | takeTurnMessages =>
    change s.takeTurnMessages.1.Stored
    rw [takeTurnMessages]
    split <;> exact h

/-- A run keeps the stored history in step with the conversation. -/
theorem Stored.run (h : s.Stored) {commands : List ChatStateCommand}
    (hcommands : ∀ command ∈ commands, Commits command) : (s.run commands).Stored := by
  induction commands generalizing s with
  | nil => exact h
  | cons command commands ih =>
    rw [List.forall_mem_cons] at hcommands
    exact ih (h.handleCommand hcommands.1) hcommands.2

/-- Nothing to repair in a stored history: no duplicate result and no dangling call. -/
def NeedsNoRepair (items : List ConversationItem) : Prop :=
  (dedupDuplicateToolResults items).2 = 0 ∧ hasDanglingToolCalls items = false

theorem NeedsNoRepair.new_conversation {items : List ConversationItem} (h : NeedsNoRepair items)
    (pruningConfig : PruningConfig) : (new items pruningConfig).conversation = items := by
  rw [new]
  dsimp only
  rw [dedup_eq_self h.1]
  exact repair_of_not_hasDangling .userCancelled h.2

/-- From a history that needs no repair, the stored history is the conversation after every
command of a run without restores in which all writes succeed. -/
theorem persisted_eq_conversation (initialConversation : List ConversationItem)
    (pruningConfig : PruningConfig) (commands : List ChatStateCommand)
    (hinitial : NeedsNoRepair initialConversation)
    (hcommands : ∀ command ∈ commands, Commits command) (handled : Nat) :
    ((new initialConversation pruningConfig).run (commands.take handled)).persisted =
      ((new initialConversation pruningConfig).run (commands.take handled)).conversation := by
  have hnew : (new initialConversation pruningConfig).Stored :=
    (hinitial.new_conversation pruningConfig).symm
  exact hnew.run fun command hcommand => hcommands command (List.mem_of_mem_take hcommand)

/-- A turn whose tool call is cut off, a switch appended twice and a rewind. -/
theorem persisted_eq_conversation_of_cancelled_turn :
    ((new [systemItem "s"] ⟨true, 0⟩).run
        (List.take 5
          [.pushUserMessage (.user ⟨[.text "q"], .human, none, none, some 0⟩),
            .pushAssistantResponse (.assistant ⟨"", [⟨"c1", "bash", "1"⟩], none, none⟩),
            .appendWorkingDirectorySwitchAndAck "moved" 1 true,
            .appendWorkingDirectorySwitchAndAck "moved" 1 true,
            .pushUserMessage (.user ⟨[.text "r"], .human, none, none, some 1⟩)])).persisted =
      ((new [systemItem "s"] ⟨true, 0⟩).run
        (List.take 5
          [.pushUserMessage (.user ⟨[.text "q"], .human, none, none, some 0⟩),
            .pushAssistantResponse (.assistant ⟨"", [⟨"c1", "bash", "1"⟩], none, none⟩),
            .appendWorkingDirectorySwitchAndAck "moved" 1 true,
            .appendWorkingDirectorySwitchAndAck "moved" 1 true,
            .pushUserMessage (.user ⟨[.text "r"], .human, none, none, some 1⟩)])).conversation :=
  persisted_eq_conversation [systemItem "s"] ⟨true, 0⟩ _ (by constructor <;> decide +kernel)
    (by simp [Commits]) 5

end ChatStateActor

end Ezer.ChatState
