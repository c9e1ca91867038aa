import Ezer.ChatState.Persistence
import Mathlib.Data.List.Forall2
import Mathlib.Logic.Relation

/-!
# What a captured turn holds

While a turn is captured every pushed item stays among the saved items or in the
tail behind the capture's offset. Rewrites in place may edit an item there; all
others save the tail first. The out-of-band repair moves the conversation out
before it saves the tail, and only a run without such a repair keeps the turn.
-/

namespace Ezer.ChatState

open Ezer.Lib

/-! ## Edits in place -/

/-- An edit that commands make to one stored item without moving it. -/
inductive InPlaceEdit (pruningConfig : PruningConfig) (commands : List ChatStateCommand) :
    ConversationItem → ConversationItem → Prop
  /-- An image strip. -/
  | strip {urls : List String} (h : .stripConversationImages urls ∈ commands)
      (item : ConversationItem) :
      InPlaceEdit pruningConfig commands item
        (stripItem (fun url => decide (url ∈ urls)) item).1
  /-- A cleared tool result. -/
  | clear (h : pruningConfig.enabled = true) (t : ToolResultItem) :
      InPlaceEdit pruningConfig commands (.toolResult t)
        (.toolResult { t with content := hardClearPlaceholder })
  /-- A switch replaced by the stored switch of its generation. -/
  | converge {content : String} {generation : Nat} {commits : Bool}
      (h : .appendWorkingDirectorySwitchAndAck content generation commits ∈ commands)
      {item authoritative : ConversationItem}
      (hitem : item.workingDirectorySwitchGeneration = some generation)
      (hauthoritative : authoritative.workingDirectorySwitchGeneration = some generation) :
      InPlaceEdit pruningConfig commands item authoritative

/-- An item and what edits in place made of it. -/
def Edited (pruningConfig : PruningConfig) (commands : List ChatStateCommand) :
    ConversationItem → ConversationItem → Prop :=
  Relation.ReflTransGen (InPlaceEdit pruningConfig commands)

section

variable {pruningConfig : PruningConfig} {commands : List ChatStateCommand}

theorem Edited.refl (item : ConversationItem) : Edited pruningConfig commands item item :=
  Relation.ReflTransGen.refl

instance : IsTrans ConversationItem (Edited pruningConfig commands) :=
  ⟨fun _ _ _ => Relation.ReflTransGen.trans⟩

theorem forall₂_edited_refl (items : List ConversationItem) :
    List.Forall₂ (Edited pruningConfig commands) items items :=
  List.forall₂_same.mpr fun item _ => Edited.refl item

theorem forall₂_stripImagesWhere {urls : List String}
    (h : .stripConversationImages urls ∈ commands) (items : List ConversationItem) :
    List.Forall₂ (Edited pruningConfig commands) items
      (stripImagesWhere (fun url => decide (url ∈ urls)) items).1 := by
  induction items with
  | nil => exact .nil
  | cons item rest ih => exact .cons (.single (.strip h item)) ih

theorem forall₂_hardClearFrom (h : pruningConfig.enabled = true) (threshold turnFromEnd : Nat)
    (seenFirstUser : Bool) (items : List ConversationItem) :
    List.Forall₂ (Edited pruningConfig commands) items
      (hardClearFrom threshold turnFromEnd seenFirstUser items).1 := by
  induction items generalizing turnFromEnd seenFirstUser with
  | nil => exact .nil
  | cons item rest ih =>
    cases item with
    | toolResult t =>
      rw [hardClearFrom]
      split
      · exact .cons (.refl _) (ih turnFromEnd seenFirstUser)
      · split
        · exact .cons (.single (.clear h t)) (ih turnFromEnd seenFirstUser)
        · exact .cons (.refl _) (ih turnFromEnd seenFirstUser)
    | user u => exact .cons (.refl _) (ih _ true)
    | system | assistant | backendToolCall | reasoning =>
      exact .cons (.refl _) (ih turnFromEnd seenFirstUser)

theorem forall₂_hardClear (h : pruningConfig.enabled = true) (threshold : Nat)
    (items : List ConversationItem) :
    List.Forall₂ (Edited pruningConfig commands) items (hardClear threshold items).1 := by
  have hreverse := @forall₂_hardClearFrom pruningConfig commands h threshold 0 false
    items.reverse
  rw [← List.forall₂_reverse_iff, List.reverse_reverse] at hreverse
  exact hreverse

theorem forall₂_replaceFirst {content : String} {generation : Nat} {commits : Bool}
    (h : .appendWorkingDirectorySwitchAndAck content generation commits ∈ commands)
    {authoritative : ConversationItem}
    (hauthoritative : authoritative.workingDirectorySwitchGeneration = some generation)
    {items replaced : List ConversationItem}
    (hreplaced : replaceFirst
      (fun item => decide (item.workingDirectorySwitchGeneration = some generation))
      authoritative items = some replaced) :
    List.Forall₂ (Edited pruningConfig commands) items replaced := by
  induction items generalizing replaced with
  | nil => cases hreplaced
  | cons item rest ih =>
    rw [replaceFirst] at hreplaced
    split at hreplaced
    · rename_i hitem
      cases hreplaced
      exact .cons (.single (.converge h (of_decide_eq_true hitem) hauthoritative))
        (forall₂_edited_refl rest)
    · obtain ⟨others, hothers, rfl⟩ := Option.map_eq_some_iff.mp hreplaced
      exact .cons (.refl item) (ih hothers)

end

theorem sublistForall₂_append {α : Type*} {R : α → α → Prop} (hrefl : ∀ a, R a a)
    {pushed held : List α} (h : List.SublistForall₂ R pushed held) (items : List α) :
    List.SublistForall₂ R (pushed ++ items) (held ++ items) := by
  obtain ⟨found, hfound, hsub⟩ := List.sublistForall₂_iff.mp h
  apply List.sublistForall₂_iff.mpr
  refine ⟨found ++ items, ?_, hsub.append (List.Sublist.refl items)⟩
  exact List.rel_append hfound (List.forall₂_same.mpr fun a _ => hrefl a)

namespace ChatStateActor

/-! ## The captured turn -/

/-- The capture of a turn is valid, was valid whenever its tail was read since the given
readings, and holds the pushed items in order, up to edits in place. -/
structure Captures (R : ConversationItem → ConversationItem → Prop) (before : List (Nat × Nat))
    (pushed : List ConversationItem) (s : ChatStateActor) : Prop where
  tails : ∃ since, s.turnTails = before ++ since ∧ ∀ tail ∈ since, tail.1 ≤ tail.2
  holds : ∃ cap, s.turnCapture = some cap ∧ cap.turnStartOffset ≤ s.conversation.length ∧
    List.SublistForall₂ R pushed
      (cap.preReplacementMessages ++ turnTail s.conversation cap.turnStartOffset)

section

variable {R : ConversationItem → ConversationItem → Prop} {before : List (Nat × Nat)}
  {pushed : List ConversationItem} {s s' : ChatStateActor}

theorem captures_beginTurnCapture (R : ConversationItem → ConversationItem → Prop)
    (s : ChatStateActor) : Captures R s.turnTails [] s.beginTurnCapture where
  tails := ⟨[], (List.append_nil _).symm, fun _ h => by cases h⟩
  holds := ⟨_, rfl, Nat.le_refl _, .nil⟩

/-- A state with the same conversation and capture holds the same. -/
theorem Captures.congr (h : Captures R before pushed s)
    (hconversation : s'.conversation = s.conversation) (hcapture : s'.turnCapture = s.turnCapture)
    (htails : s'.turnTails = s.turnTails) : Captures R before pushed s' where
  tails := by rw [htails]; exact h.tails
  holds := by rw [hconversation, hcapture]; exact h.holds

/-- A tail saved before the conversation changed keeps the pushed items. -/
theorem Captures.rebased (h : Captures R before pushed s)
    (htails : s'.turnTails = s.snapshotTurnSlice.turnTails)
    (hcapture : ∀ cap, s.snapshotTurnSlice.turnCapture = some cap → ∃ compacted,
      s'.turnCapture =
        some ⟨s'.conversation.length, cap.preReplacementMessages, compacted⟩) :
    Captures R before pushed s' := by
  obtain ⟨cap, hcap, hle, hholds⟩ := h.holds
  obtain ⟨since, hsince, hrange⟩ := h.tails
  rw [snapshotTurnSlice, hcap] at htails hcapture
  dsimp only at htails
  obtain ⟨compacted, hcompacted⟩ := hcapture _ rfl
  constructor
  · refine ⟨since ++ [(cap.turnStartOffset, s.conversation.length)], ?_, ?_⟩
    · rw [htails, hsince, List.append_assoc]
    · intro tail htail
      obtain htail | htail := List.mem_append.mp htail
      · exact hrange tail htail
      · rw [List.mem_singleton.mp htail]
        exact hle
  · refine ⟨_, hcompacted, Nat.le_refl _, ?_⟩
    have hempty : turnTail s'.conversation s'.conversation.length = [] := List.drop_length
    dsimp only
    rw [hempty, List.append_nil]
    exact hholds

/-- Pushed items join the tail. -/
theorem Captures.push (hrefl : ∀ item, R item item) (h : Captures R before pushed s)
    (items : List ConversationItem)
    (hconversation : s'.conversation = s.conversation ++ items)
    (hcapture : s'.turnCapture = s.turnCapture) (htails : s'.turnTails = s.turnTails) :
    Captures R before (pushed ++ items) s' := by
  obtain ⟨cap, hcap, hle, hholds⟩ := h.holds
  constructor
  · rw [htails]
    exact h.tails
  · refine ⟨cap, hcapture.trans hcap, ?_, ?_⟩
    · rw [hconversation, List.length_append]
      omega
    · rw [hconversation, turnTail, List.drop_append_of_le_length hle, ← List.append_assoc]
      exact sublistForall₂_append hrefl hholds items

/-- Items edited in their places stay in the tail. -/
theorem Captures.edit [IsTrans ConversationItem R] (hrefl : ∀ item, R item item)
    (h : Captures R before pushed s)
    (hconversation : List.Forall₂ R s.conversation s'.conversation)
    (hcapture : s'.turnCapture = s.turnCapture) (htails : s'.turnTails = s.turnTails) :
    Captures R before pushed s' := by
  obtain ⟨cap, hcap, hle, hholds⟩ := h.holds
  constructor
  · rw [htails]
    exact h.tails
  · refine ⟨cap, hcapture.trans hcap, ?_, ?_⟩
    · rw [← hconversation.length_eq]
      exact hle
    · have hedited : List.Forall₂ R
          (cap.preReplacementMessages ++ turnTail s.conversation cap.turnStartOffset)
          (cap.preReplacementMessages ++ turnTail s'.conversation cap.turnStartOffset) :=
        List.rel_append (List.forall₂_same.mpr fun item _ => hrefl item)
          (List.forall₂_drop _ hconversation)
      exact IsTrans.trans _ _ _ hholds
        (List.sublistForall₂_iff.mpr ⟨_, hedited, List.Sublist.refl _⟩)

/-! ## The operations -/

theorem Captures.integrityRepair (h : Captures R before pushed s)
    (mutate : List ConversationItem → List ConversationItem × Nat) :
    Captures R before pushed (s.rewriteHistory .integrityRepair mutate) := by
  rw [rewriteHistory]
  simp only [if_true]
  split
  all_goals
    refine h.rebased rfl ?_
    intro cap hcap
    refine ⟨cap.compactionOccurred, ?_⟩
    simp only [rebaseTurnCaptureOffset, replaceHistory, hcap, Option.map_some]

theorem Captures.popStrandedContinueReminder (h : Captures R before pushed s) :
    Captures R before pushed s.popStrandedContinueReminder := by
  rw [ChatStateActor.popStrandedContinueReminder]
  split
  · exact h.integrityRepair _
  · exact h

theorem Captures.replaceConversation (h : Captures R before pushed s)
    (items : List ConversationItem) (isCompaction : Bool) :
    Captures R before pushed (s.replaceConversation items isCompaction) := by
  refine h.rebased rfl ?_
  intro cap hcap
  refine ⟨cap.compactionOccurred || isCompaction, ?_⟩
  simp only [ChatStateActor.replaceConversation, rebaseTurnCaptureOffset, replaceHistory, hcap,
    Option.map_some]

theorem Captures.restoreSnapshot (h : Captures R before pushed s) (snap : ChatStateSnapshot) :
    Captures R before pushed (s.restoreSnapshot snap) := by
  refine h.rebased rfl ?_
  intro cap hcap
  refine ⟨cap.compactionOccurred, ?_⟩
  simp only [ChatStateActor.restoreSnapshot, rebaseTurnCaptureOffset, hcap, Option.map_some]

theorem Captures.replaceSystemHead (h : Captures R before pushed s) (prompt : String) :
    Captures R before pushed (s.replaceSystemHead prompt) := by
  rw [ChatStateActor.replaceSystemHead]
  split
  · exact h.replaceConversation _ false
  · exact h

theorem Captures.buildConversationRequest (h : Captures R before pushed s)
    (memoryReminder : Option String) (persistMemoryReminder : Bool) :
    Captures R before pushed
      (s.buildConversationRequest memoryReminder persistMemoryReminder) := by
  cases memoryReminder with
  | none => exact h
  | some reminder =>
    cases persistMemoryReminder with
    | false => exact h
    | true =>
      rw [ChatStateActor.buildConversationRequest, if_pos rfl]
      dsimp only
      split
      all_goals
        refine h.rebased rfl ?_
        intro cap hcap
        refine ⟨cap.compactionOccurred, ?_⟩
        simp only [rebaseTurnCaptureOffset, replaceHistory, hcap, Option.map_some]

theorem Captures.persistAndPushMessage (hrefl : ∀ item, R item item)
    (h : Captures R before pushed s) (item : ConversationItem) :
    Captures R before (pushed ++ [item]) (s.persistAndPushMessage item) :=
  h.push hrefl [item] rfl rfl rfl

/-- A rewrite that is no integrity repair leaves the capture alone. -/
theorem Captures.rewriteInPlace [IsTrans ConversationItem R] (hrefl : ∀ item, R item item)
    (h : Captures R before pushed s) {kind : HistoryRewrite} (hkind : kind ≠ .integrityRepair)
    {mutate : List ConversationItem → List ConversationItem × Nat}
    (hmutate : List.Forall₂ R s.conversation (mutate s.conversation).1) :
    Captures R before pushed (s.rewriteHistory kind mutate) := by
  apply h.edit hrefl
  · rw [(rewriteHistory_eq kind mutate s).1]
    exact hmutate
  · rw [rewriteHistory]
    simp only [hkind, if_false]
    split <;> rfl
  · rw [rewriteHistory]
    simp only [hkind, if_false]
    split <;> rfl

end

/-! ## What most operations leave alone -/

/-- Two states with one pruning configuration and one prompt index. -/
def SameSettings (s' s : ChatStateActor) : Prop :=
  s'.pruningConfig = s.pruningConfig ∧ s'.promptIndex = s.promptIndex

theorem SameSettings.refl (s : ChatStateActor) : s.SameSettings s := ⟨rfl, rfl⟩

theorem SameSettings.trans {a b c : ChatStateActor} (hab : a.SameSettings b)
    (hbc : b.SameSettings c) : a.SameSettings c :=
  ⟨hab.1.trans hbc.1, hab.2.trans hbc.2⟩

theorem snapshotTurnSlice_settings (s : ChatStateActor) : s.snapshotTurnSlice.SameSettings s := by
  rw [snapshotTurnSlice]
  split <;> exact ⟨rfl, rfl⟩

theorem rewriteHistory_settings (kind : HistoryRewrite)
    (mutate : List ConversationItem → List ConversationItem × Nat) (s : ChatStateActor) :
    (s.rewriteHistory kind mutate).SameSettings s := by
  rw [rewriteHistory]
  by_cases h : kind = .integrityRepair
  · simp only [h, if_true]
    split <;> exact snapshotTurnSlice_settings s
  · simp only [h, if_false]
    split <;> exact ⟨rfl, rfl⟩

theorem popStrandedContinueReminder_settings (s : ChatStateActor) :
    s.popStrandedContinueReminder.SameSettings s := by
  rw [popStrandedContinueReminder]
  split
  · exact rewriteHistory_settings _ _ s
  · exact SameSettings.refl s

theorem replaceConversation_settings (items : List ConversationItem) (isCompaction : Bool)
    (s : ChatStateActor) : (s.replaceConversation items isCompaction).SameSettings s :=
  snapshotTurnSlice_settings s

theorem repairHistory_settings (dryRun : Bool) (s : ChatStateActor) :
    (s.repairHistory dryRun).1.SameSettings s := by
  rw [repairHistory]
  split
  · exact SameSettings.refl s
  · dsimp only
    split
    · exact replaceConversation_settings _ false { s with conversation := [] }
    · exact ⟨rfl, rfl⟩

theorem replaceSystemHead_settings (prompt : String) (s : ChatStateActor) :
    (s.replaceSystemHead prompt).SameSettings s := by
  rw [replaceSystemHead]
  split
  · exact replaceConversation_settings _ false s
  · exact SameSettings.refl s

theorem pruneRetainedConversation_settings (s : ChatStateActor) :
    s.pruneRetainedConversation.SameSettings s := by
  rw [pruneRetainedConversation]
  split
  · exact SameSettings.refl s
  · split
    · exact SameSettings.refl s
    · exact rewriteHistory_settings _ _ s

theorem pushUserMessageWithRepairReason_settings (item : ConversationItem)
    (reason : DanglingToolCallReason) (s : ChatStateActor) :
    (s.pushUserMessageWithRepairReason item reason).SameSettings s := by
  rw [pushUserMessageWithRepairReason]
  apply (pruneRetainedConversation_settings _).trans
  apply SameSettings.trans (rewriteHistory_settings .integrityRepair (repairIntegrity reason []) _)
  split
  · exact popStrandedContinueReminder_settings s
  · exact SameSettings.refl s

theorem convergeWorkingDirectorySwitch_settings (generation : Nat)
    (authoritative : ConversationItem) (s : ChatStateActor) :
    (s.convergeWorkingDirectorySwitch generation authoritative).SameSettings s := by
  rw [convergeWorkingDirectorySwitch]
  split <;> exact ⟨rfl, rfl⟩

/-- A switch append changes what is stored at most, and a switch that it finds there has its
generation. -/
theorem persistWorkingDirectorySwitch_eq (content : String) (generation : Nat) (commits : Bool)
    (s : ChatStateActor) :
    ∃ persisted ack,
      s.persistWorkingDirectorySwitch (workingDirectorySwitch content generation) commits =
        ({ s with persisted }, ack) ∧
      ∀ authoritative, ack = some (.alreadyPresent authoritative) →
        authoritative.workingDirectorySwitchGeneration = some generation := by
  rw [persistWorkingDirectorySwitch]
  split
  · exact ⟨_, _, rfl, by simp⟩
  · split
    · rename_i found hfound
      refine ⟨_, _, rfl, ?_⟩
      rintro authoritative ⟨⟩
      have hsame := List.find?_some hfound
      simp only [decide_eq_true_eq] at hsame
      exact hsame
    · exact ⟨_, _, rfl, by simp⟩

theorem appendWorkingDirectorySwitch_settings (content : String) (generation : Nat)
    (commits : Bool) (s : ChatStateActor) :
    (s.appendWorkingDirectorySwitch content generation commits).SameSettings s := by
  rw [appendWorkingDirectorySwitch]
  obtain ⟨persisted, ack, hpersist, -⟩ :=
    s.popStrandedContinueReminder.persistWorkingDirectorySwitch_eq content generation commits
  rw [hpersist]
  have hpop := popStrandedContinueReminder_settings s
  cases ack with
  | none => exact hpop
  | some ack =>
    cases ack with
    | appended | alreadyPresent => exact (convergeWorkingDirectorySwitch_settings _ _ _).trans hpop

theorem buildConversationRequest_settings (memoryReminder : Option String)
    (persistMemoryReminder : Bool) (s : ChatStateActor) :
    (s.buildConversationRequest memoryReminder persistMemoryReminder).SameSettings s := by
  cases memoryReminder with
  | none => exact SameSettings.refl s
  | some reminder =>
    cases persistMemoryReminder with
    | false => exact SameSettings.refl s
    | true =>
      rw [buildConversationRequest, if_pos rfl]
      dsimp only
      split <;> exact snapshotTurnSlice_settings s

/-- No command changes the pruning configuration. -/
theorem handleCommand_pruningConfig (s : ChatStateActor) (command : ChatStateCommand) :
    (s.handleCommand command).pruningConfig = s.pruningConfig := by
  cases command with
  | pushUserMessage item => exact (pushUserMessageWithRepairReason_settings item _ s).1
  | pushUserMessagesBatch items =>
    change (items.foldl (fun s item => s.pushUserMessage item) s).pruningConfig = _
    induction items generalizing s with
    | nil => rfl
    | cons item items ih =>
      exact (ih _).trans (pushUserMessageWithRepairReason_settings item _ s).1
  | appendWorkingDirectorySwitchAndAck content generation commits =>
    exact (appendWorkingDirectorySwitch_settings content generation commits s).1
  | pushUserMessageWithRepairReason item reason =>
    exact (pushUserMessageWithRepairReason_settings item reason s).1
  | replaceConversation items isCompaction =>
    exact (replaceConversation_settings items isCompaction s).1
  | repairHistory dryRun turnActive =>
    change (if turnActive then s else (s.repairHistory dryRun).1).pruningConfig = _
    split
    · rfl
    · exact (repairHistory_settings dryRun s).1
  | stripConversationImages urls => exact (rewriteHistory_settings _ _ s).1
  | replaceSystemHead prompt => exact (replaceSystemHead_settings prompt s).1
  | restoreSnapshot snapshot => exact (snapshotTurnSlice_settings s).1
  | repairDanglingAfterHarnessHalt tag answers =>
    exact ((rewriteHistory_settings _ _ _).trans (popStrandedContinueReminder_settings s)).1
  | popStrandedContinueReminder => exact (popStrandedContinueReminder_settings s).1
  | buildConversationRequest memoryReminder persistMemoryReminder =>
    exact ((buildConversationRequest_settings memoryReminder persistMemoryReminder _).trans
      (rewriteHistory_settings .integrityRepair (repairIntegrity .userCancelled []) s)).1
  | truncateToPromptIndex target =>
    change (s.truncateToPromptIndex target).pruningConfig = _
    rw [truncateToPromptIndex]
    split <;> rfl
  | takeTurnMessages =>
    change s.takeTurnMessages.1.pruningConfig = _
    rw [takeTurnMessages]
    split <;> rfl
  | _ => rfl

/-! ## Runs within a turn -/

/-- The switch that a switch append puts into the conversation, if memory has none of its
generation. -/
def pushedSwitch (content : String) (generation : Nat) (commits : Bool) (s : ChatStateActor) :
    List ConversationItem :=
  let candidate := workingDirectorySwitch content generation
  let popped := s.popStrandedContinueReminder
  if popped.conversation.any fun item =>
      decide (item.workingDirectorySwitchGeneration = some generation) then []
  else
    match (popped.persistWorkingDirectorySwitch candidate commits).2 with
    | none => []
    | some .appended => [candidate]
    | some (.alreadyPresent authoritative) => [authoritative]

/-- The items a command pushes. -/
def pushed (s : ChatStateActor) : ChatStateCommand → List ConversationItem
  | .pushUserMessage item | .pushUserMessageWithRepairReason item _
  | .pushAssistantResponse item | .pushToolResult item | .pushModelOutput item
  | .pushUnreportedModelOutput item => [item]
  | .pushUserMessagesBatch items => items
  | .appendWorkingDirectorySwitchAndAck content generation commits =>
    s.pushedSwitch content generation commits
  | _ => []

/-- The items a sequence of commands pushes, in order. -/
def pushedItems : ChatStateActor → List ChatStateCommand → List ConversationItem
  | _, [] => []
  | s, command :: commands => s.pushed command ++ pushedItems (s.handleCommand command) commands

/-- The commands that may stand between the start of a capture and its end. -/
def WithinTurn : ChatStateCommand → Prop
  | .beginTurnCapture | .takeTurnMessages | .truncateToPromptIndex _ => False
  | _ => True

/-- Whether a command is no out-of-band repair that modifies the conversation. -/
def KeepsHistory (s : ChatStateActor) : ChatStateCommand → Prop
  | .repairHistory dryRun turnActive =>
    dryRun = true ∨ turnActive = true ∨
      (ChatState.repairHistory s.conversation).2.changed = false
  | _ => True

section

variable {pruningConfig : PruningConfig} {all : List ChatStateCommand}
  {before : List (Nat × Nat)} {held : List ConversationItem} {s : ChatStateActor}

theorem Captures.pruneRetainedConversation
    (h : Captures (Edited pruningConfig all) before held s)
    (hconfig : s.pruningConfig = pruningConfig) :
    Captures (Edited pruningConfig all) before held s.pruneRetainedConversation := by
  rw [ChatStateActor.pruneRetainedConversation]
  split
  · exact h
  · rename_i henabled
    split
    · exact h
    · apply h.rewriteInPlace Edited.refl (by decide)
      apply forall₂_hardClear
      rw [← hconfig]
      simpa using henabled

theorem Captures.pushUserMessageWithRepairReason
    (h : Captures (Edited pruningConfig all) before held s)
    (hconfig : s.pruningConfig = pruningConfig) (item : ConversationItem)
    (reason : DanglingToolCallReason) :
    Captures (Edited pruningConfig all) before (held ++ [item])
      (s.pushUserMessageWithRepairReason item reason) := by
  rw [ChatStateActor.pushUserMessageWithRepairReason]
  have hpopped : Captures (Edited pruningConfig all) before held
      (if dropsContinueReminder item then s.popStrandedContinueReminder else s) := by
    split
    · exact h.popStrandedContinueReminder
    · exact h
  have hpushed := (hpopped.integrityRepair (repairIntegrity reason [])).persistAndPushMessage
    Edited.refl item
  apply hpushed.pruneRetainedConversation
  refine (rewriteHistory_settings .integrityRepair (repairIntegrity reason []) _).1.trans ?_
  split
  · exact (popStrandedContinueReminder_settings s).1.trans hconfig
  · exact hconfig

theorem Captures.pushUserMessagesBatch
    (h : Captures (Edited pruningConfig all) before held s)
    (hconfig : s.pruningConfig = pruningConfig) (items : List ConversationItem) :
    Captures (Edited pruningConfig all) before (held ++ items)
      (items.foldl (fun s item => s.pushUserMessage item) s) := by
  induction items generalizing s held with
  | nil =>
    rw [List.append_nil]
    exact h
  | cons item items ih =>
    have hitem := h.pushUserMessageWithRepairReason hconfig item .userCancelled
    have hrest := ih hitem
      ((pushUserMessageWithRepairReason_settings item .userCancelled s).1.trans hconfig)
    rw [List.append_assoc] at hrest
    exact hrest

theorem replaceFirst_isSome {p : ConversationItem → Bool} {items : List ConversationItem}
    (h : items.any p = true) (new : ConversationItem) :
    ∃ replaced, replaceFirst p new items = some replaced := by
  induction items with
  | nil => cases h
  | cons item rest ih =>
    rw [replaceFirst]
    split
    · exact ⟨_, rfl⟩
    · rename_i hitem
      rw [List.any_cons, eq_false_of_ne_true hitem, Bool.false_or] at h
      obtain ⟨replaced, hreplaced⟩ := ih h
      rw [hreplaced]
      exact ⟨_, rfl⟩

/-- Converging on a switch edits the switch in memory or pushes it. -/
theorem Captures.convergeWorkingDirectorySwitch
    (h : Captures (Edited pruningConfig all) before held s) {content : String}
    {generation : Nat} {commits : Bool}
    (hmem : .appendWorkingDirectorySwitchAndAck content generation commits ∈ all)
    {authoritative : ConversationItem}
    (hauthoritative : authoritative.workingDirectorySwitchGeneration = some generation) :
    Captures (Edited pruningConfig all) before
      (held ++ if s.conversation.any fun item =>
        decide (item.workingDirectorySwitchGeneration = some generation) then []
      else [authoritative])
      (s.convergeWorkingDirectorySwitch generation authoritative) := by
  rw [ChatStateActor.convergeWorkingDirectorySwitch]
  by_cases hany : (s.conversation.any fun item =>
      decide (item.workingDirectorySwitchGeneration = some generation)) = true
  · obtain ⟨replaced, hreplaced⟩ := replaceFirst_isSome hany authoritative
    rw [if_pos hany, List.append_nil, hreplaced]
    exact h.edit Edited.refl (forall₂_replaceFirst hmem hauthoritative hreplaced) rfl rfl
  · have hnone := hany
    rw [Bool.not_eq_true, List.any_eq_false] at hnone
    rw [if_neg hany, replaceFirst_none (List.find?_eq_none.mpr hnone)]
    exact h.push Edited.refl [authoritative] rfl rfl rfl

theorem Captures.appendWorkingDirectorySwitch
    (h : Captures (Edited pruningConfig all) before held s) {content : String}
    {generation : Nat} {commits : Bool}
    (hmem : .appendWorkingDirectorySwitchAndAck content generation commits ∈ all) :
    Captures (Edited pruningConfig all) before (held ++ s.pushedSwitch content generation commits)
      (s.appendWorkingDirectorySwitch content generation commits) := by
  have hpopped := h.popStrandedContinueReminder
  rw [ChatStateActor.appendWorkingDirectorySwitch, pushedSwitch]
  generalize s.popStrandedContinueReminder = popped at hpopped
  obtain ⟨persisted, ack, hpersist, hgeneration⟩ :=
    popped.persistWorkingDirectorySwitch_eq content generation commits
  rw [hpersist]
  have hacked : Captures (Edited pruningConfig all) before held
      { popped with persisted := persisted } := hpopped.congr rfl rfl rfl
  cases ack with
  | none =>
    dsimp only
    rw [ite_self, List.append_nil]
    exact hacked
  | some ack =>
    cases ack with
    | appended => exact hacked.convergeWorkingDirectorySwitch hmem rfl
    | alreadyPresent authoritative =>
      exact hacked.convergeWorkingDirectorySwitch hmem (hgeneration authoritative rfl)

/-- One command within a turn keeps the captured items and adds what it pushes. -/
theorem Captures.handleCommand (h : Captures (Edited pruningConfig all) before held s)
    (hconfig : s.pruningConfig = pruningConfig) {command : ChatStateCommand}
    (hmem : command ∈ all) (hwithin : WithinTurn command) (hkeeps : s.KeepsHistory command) :
    Captures (Edited pruningConfig all) before (held ++ s.pushed command)
      (s.handleCommand command) := by
  have hsame : ∀ {s' : ChatStateActor}, Captures (Edited pruningConfig all) before held s' →
      Captures (Edited pruningConfig all) before (held ++ []) s' := by
    intro s' h'
    rw [List.append_nil]
    exact h'
  cases command with
  | pushUserMessage item => exact h.pushUserMessageWithRepairReason hconfig item .userCancelled
  | pushUserMessagesBatch items => exact h.pushUserMessagesBatch hconfig items
  | appendWorkingDirectorySwitchAndAck content generation commits =>
    exact h.appendWorkingDirectorySwitch hmem
  | pushUserMessageWithRepairReason item reason =>
    exact h.pushUserMessageWithRepairReason hconfig item reason
  | pushAssistantResponse item | pushToolResult item | pushModelOutput item
  | pushUnreportedModelOutput item =>
    exact h.persistAndPushMessage Edited.refl item
  | incrementPromptIndex => exact hsame (h.congr rfl rfl rfl)
  | replaceConversation items isCompaction => exact hsame (h.replaceConversation items _)
  | repairHistory dryRun turnActive =>
    apply hsame
    change Captures _ _ _ (if turnActive then s else (s.repairHistory dryRun).1)
    split
    · exact h
    · rename_i hidle
      rw [ChatStateActor.repairHistory]
      split
      · exact h
      · rename_i hdry
        obtain hdry' | hidle' | hunchanged := hkeeps
        · exact absurd hdry' hdry
        · exact absurd hidle' hidle
        · dsimp only
          rw [if_neg (by rw [hunchanged]; exact Bool.false_ne_true)]
          exact h.congr (repairHistory_eq_self hunchanged) rfl rfl
  | stripConversationImages urls =>
    have hstrip : Captures (Edited pruningConfig all) before held
        (s.rewriteHistory .imageStrip (stripImagesByUrl urls)) :=
      h.rewriteInPlace Edited.refl (by decide) (forall₂_stripImagesWhere hmem s.conversation)
    exact hsame hstrip
  | replaceSystemHead prompt => exact hsame (h.replaceSystemHead prompt)
  | cachePromptText text => exact hsame (h.congr rfl rfl rfl)
  | restoreSnapshot snapshot => exact hsame (h.restoreSnapshot snapshot)
  | beginTurnCapture => cases hwithin
  | takeTurnMessages => cases hwithin
  | repairDanglingAfterHarnessHalt tag answers =>
    exact hsame (h.popStrandedContinueReminder.integrityRepair _)
  | popStrandedContinueReminder => exact hsame h.popStrandedContinueReminder
  | buildConversationRequest memoryReminder persistMemoryReminder =>
    exact hsame ((h.integrityRepair _).buildConversationRequest memoryReminder
      persistMemoryReminder)
  | truncateToPromptIndex target => cases hwithin
  | other => exact hsame h

/-- A run within a turn keeps the captured items and adds what it pushes. -/
theorem Captures.run (h : Captures (Edited pruningConfig all) before held s)
    (hconfig : s.pruningConfig = pruningConfig) {commands : List ChatStateCommand}
    (hmem : ∀ command ∈ commands, command ∈ all)
    (hwithin : ∀ command ∈ commands, WithinTurn command)
    (hkeeps : ∀ earlier command later, commands = earlier ++ command :: later →
      (s.run earlier).KeepsHistory command) :
    Captures (Edited pruningConfig all) before (held ++ pushedItems s commands)
      (s.run commands) := by
  induction commands generalizing s held with
  | nil =>
    rw [pushedItems, List.append_nil]
    exact h
  | cons command commands ih =>
    rw [List.forall_mem_cons] at hmem hwithin
    have hstep := h.handleCommand hconfig hmem.1 hwithin.1 (hkeeps [] command commands rfl)
    have hrest := ih hstep ((handleCommand_pruningConfig s command).trans hconfig) hmem.2
      hwithin.2 fun earlier next later hsplit =>
        hkeeps (command :: earlier) next later (by rw [hsplit]; rfl)
    rw [List.append_assoc] at hrest
    exact hrest

end

/-- The end of a captured turn: every reading of the tail was in range, and the captured
messages contain the pushed items in order, up to edits in place. -/
structure TurnKept (s : ChatStateActor) (commands : List ChatStateCommand) : Prop where
  inRange : ∀ tail ∈ (s.beginTurnCapture.run commands).takeTurnMessages.1.turnTails.drop
    s.turnTails.length, tail.1 ≤ tail.2
  messages : ∃ capture, (s.beginTurnCapture.run commands).takeTurnMessages.2 = some capture ∧
    List.SublistForall₂ (Edited s.pruningConfig commands)
      (pushedItems s.beginTurnCapture commands) capture.messages

/-- A turn is kept when no out-of-band repair modifies the conversation while it is captured. -/
theorem turnKept_of_keepsHistory (s : ChatStateActor) (commands : List ChatStateCommand)
    (hwithin : ∀ command ∈ commands, WithinTurn command)
    (hkeeps : ∀ earlier command later, commands = earlier ++ command :: later →
      (s.beginTurnCapture.run earlier).KeepsHistory command) : TurnKept s commands := by
  have hbegin := captures_beginTurnCapture (Edited s.pruningConfig commands) s
  have hrun := hbegin.run rfl (fun _ h => h) hwithin hkeeps
  rw [List.nil_append] at hrun
  obtain ⟨since, hsince, hrange⟩ := hrun.tails
  obtain ⟨cap, hcap, hle, hholds⟩ := hrun.holds
  constructor
  · rw [takeTurnMessages, hcap]
    dsimp only
    rw [hsince, List.append_assoc, List.drop_left]
    intro tail htail
    obtain htail | htail := List.mem_append.mp htail
    · exact hrange tail htail
    · rw [List.mem_singleton.mp htail]
      exact hle
  · rw [takeTurnMessages, hcap]
    exact ⟨_, rfl, hholds⟩

/-- An actor that starts with a system prompt. -/
def startedActor : ChatStateActor := new [systemItem "s"] ⟨true, 10⟩

/-- A prompt, a cancelled call and a next message within one captured turn. -/
theorem cancelled_call_kept :
    TurnKept startedActor
      [.pushUserMessage (.user ⟨[.text "q"], .human, none, none, some 0⟩),
        .pushAssistantResponse (.assistant ⟨"", [⟨"c1", "bash", "1"⟩], none, none⟩),
        .pushUserMessage (.user ⟨[.text "i"], .interjection, none, none, none⟩)] := by
  apply turnKept_of_keepsHistory
  · simp [WithinTurn]
  · intro earlier command later hsplit
    have hmem : command ∈ [ChatStateCommand.pushUserMessage
          (.user ⟨[.text "q"], .human, none, none, some 0⟩),
        .pushAssistantResponse (.assistant ⟨"", [⟨"c1", "bash", "1"⟩], none, none⟩),
        .pushUserMessage (.user ⟨[.text "i"], .interjection, none, none, none⟩)] := by
      rw [hsplit]
      exact List.mem_append_right _ List.mem_cons_self
    simp only [List.mem_cons, List.not_mem_nil, or_false] at hmem
    obtain rfl | rfl | rfl := hmem <;> exact trivial

/-- A history repair between a result and the end of the turn reads the tail past the end of
the emptied conversation. -/
theorem history_repair_loses_turn :
    ¬∀ (s : ChatStateActor) (commands : List ChatStateCommand),
      (∀ command ∈ commands, WithinTurn command) → TurnKept s commands := by
  intro h
  have hkept := h startedActor
    [.pushModelOutput (.toolResult (toolResultItem "c1" "r")), .repairHistory false false]
    (by simp [WithinTurn])
  have hrange := hkept.inRange (1, 0) (by decide +kernel)
  exact absurd hrange (by decide)

end ChatStateActor

end Ezer.ChatState
