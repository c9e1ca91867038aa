import Ezer.ChatState.Dates

/-!
# Which tool results pruning clears

Pruning takes the user items behind a tool result, less those in excess of the
prompt index, for its age. A result that entered behind as many user items as
prompt turns had begun before is never cleared too early, whatever happens to
the conversation afterwards.
-/

namespace Ezer.ChatState

open Ezer.Lib

/-! ## The age pruning gives a result -/

/-- What pruning makes of an item of some age. -/
def clearItem (threshold age : Nat) : ConversationItem → ConversationItem
  | .toolResult t =>
    if age < threshold then .toolResult t
    else if t.content ≠ hardClearPlaceholder then
      .toolResult { t with content := hardClearPlaceholder }
    else .toolResult t
  | item => item

theorem hardClearFrom_append (threshold turnFromEnd : Nat) (seenFirstUser : Bool)
    (first rest : List ConversationItem) :
    (hardClearFrom threshold turnFromEnd seenFirstUser (first ++ rest)).1 =
      (hardClearFrom threshold turnFromEnd seenFirstUser first).1 ++
        (hardClearFrom threshold
          (turnFromEnd + if seenFirstUser then first.countP ConversationItem.isUser
            else first.countP ConversationItem.isUser - 1)
          (seenFirstUser || decide (0 < first.countP ConversationItem.isUser)) rest).1 := by
  induction first generalizing turnFromEnd seenFirstUser with
  | nil =>
    cases seenFirstUser <;> rfl
  | cons item first ih =>
    cases item with
    | user u =>
      rw [List.cons_append, hardClearFrom, hardClearFrom, List.countP_cons_of_pos rfl]
      dsimp only
      rw [ih, if_pos rfl, Bool.true_or, List.cons_append]
      have hseen : (seenFirstUser || decide (0 < first.countP ConversationItem.isUser + 1)) =
          true := by
        rw [decide_eq_true (Nat.succ_pos _), Bool.or_true]
      have hturn : (if seenFirstUser = true then turnFromEnd + 1 else turnFromEnd) +
          first.countP ConversationItem.isUser =
          turnFromEnd + if seenFirstUser = true then first.countP ConversationItem.isUser + 1
            else first.countP ConversationItem.isUser + 1 - 1 := by
        split <;> omega
      rw [hseen, hturn]
    | toolResult t =>
      rw [List.cons_append, hardClearFrom, hardClearFrom,
        List.countP_cons_of_neg Bool.false_ne_true]
      split
      · rw [ih]
        rfl
      · split
        · rw [ih]
          rfl
        · rw [ih]
          rfl
    | _ =>
      simp only [List.cons_append, hardClearFrom]
      rw [List.countP_cons_of_neg Bool.false_ne_true, ih]

theorem hardClear_cons (threshold : Nat) (item : ConversationItem)
    (rest : List ConversationItem) :
    (hardClear threshold (item :: rest)).1 =
      clearItem threshold (rest.countP ConversationItem.isUser - 1) item ::
        (hardClear threshold rest).1 := by
  have hone : ∀ age seen, (hardClearFrom threshold age seen [item]).1 =
      [clearItem threshold age item] := by
    intro age seen
    cases item with
    | toolResult t =>
      rw [hardClearFrom, clearItem]
      split
      · rfl
      · split <;> rfl
    | _ => rfl
  rw [hardClear, hardClear]
  dsimp only
  rw [List.reverse_cons, hardClearFrom_append, hone, List.countP_reverse,
    if_neg Bool.false_ne_true, Nat.zero_add, List.reverse_append]
  rfl

theorem old_of_clearedDates {age promptIndex now total users : Nat}
    {items : List ConversationItem} {dates : List Nat}
    (hdated : Dated promptIndex now (usersBefore users items) dates)
    (htotal : users + items.countP ConversationItem.isUser = total) :
    ∀ date ∈ clearedDates items (hardClear (age + (total - promptIndex)) items).1 dates,
      date + age ≤ now := by
  induction items generalizing users dates with
  | nil =>
    intro date hdate
    cases hdate
  | cons item rest ih =>
    rw [hardClear_cons]
    cases item with
    | toolResult t =>
      have hresult : (ConversationItem.toolResult t).isToolResult = true := rfl
      rw [usersBefore, if_pos hresult] at hdated
      rw [List.countP_cons_of_neg Bool.false_ne_true] at htotal
      cases hdated with
      | cons hfirst hrest =>
        rename_i first dates
        rw [clearedDates, if_pos hresult]
        have hothers := ih hrest htotal
        split
        · exact hothers
        · rename_i hcleared
          rw [List.forall_mem_cons]
          refine ⟨?_, hothers⟩
          have hage : ¬rest.countP ConversationItem.isUser - 1 <
              age + (total - promptIndex) := by
            intro hyoung
            rw [clearItem, if_pos hyoung] at hcleared
            exact hcleared rfl
          omega
    | user u =>
      rw [List.countP_cons_of_pos rfl] at htotal
      exact @ih (users + 1) dates hdated (by omega)
    | system | assistant | backendToolCall | reasoning =>
      rw [List.countP_cons_of_neg Bool.false_ne_true] at htotal
      exact ih hdated htotal

/-! ## The chronicle -/

theorem InPlaceEdit.sameShape {pruningConfig : PruningConfig} {commands : List ChatStateCommand}
    {old new : ConversationItem} (h : InPlaceEdit pruningConfig commands old new) :
    SameShape old new := by
  cases h with
  | strip _ _ => cases old <;> exact ⟨rfl, rfl⟩
  | clear _ t => exact ⟨rfl, rfl⟩
  | converge _ hold hnew =>
    cases old with
    | user u =>
      cases new with
      | user v => exact ⟨rfl, rfl⟩
      | _ => cases hnew
    | _ => cases hold

theorem Edited.sameShape {pruningConfig : PruningConfig} {commands : List ChatStateCommand}
    {old new : ConversationItem} (h : Edited pruningConfig commands old new) :
    SameShape old new := by
  induction h with
  | refl => exact SameShape.refl old
  | tail _ hstep ih => exact ⟨ih.1.trans hstep.sameShape.1, ih.2.trans hstep.sameShape.2⟩

theorem usersBefore_edited {pruningConfig : PruningConfig} {commands : List ChatStateCommand}
    {users : Nat} {old new : List ConversationItem}
    (h : List.Forall₂ (Edited pruningConfig commands) old new) :
    usersBefore users old = usersBefore users new :=
  usersBefore_congr (h.imp fun _ _ => Edited.sameShape)

/-- The continue reminders that are dropped stand behind every result. -/
theorem usersBefore_popLengthContinue (items : List ConversationItem) :
    usersBefore 0 (popLengthContinue items).1 = usersBefore 0 items := by
  have hsplit := congrArg List.reverse
    (List.takeWhile_append_dropWhile (p := ConversationItem.isLengthContinue)
      (l := items.reverse))
  rw [List.reverse_append, List.reverse_reverse] at hsplit
  have hnone : usersBefore
      (0 + ((items.reverse.dropWhile ConversationItem.isLengthContinue).reverse).countP
        ConversationItem.isUser)
      (items.reverse.takeWhile ConversationItem.isLengthContinue).reverse = [] := by
    apply usersBefore_of_no_results
    intro item hitem
    have hreminder := List.mem_takeWhile_imp (List.mem_reverse.mp hitem)
    cases item with
    | toolResult t => cases hreminder
    | _ => rfl
  have happend := congrArg (usersBefore 0) hsplit
  rw [usersBefore_append, hnone, List.append_nil] at happend
  exact happend

namespace ChatStateActor

theorem usersBefore_popStrandedContinueReminder (s : ChatStateActor) :
    usersBefore 0 s.popStrandedContinueReminder.conversation = usersBefore 0 s.conversation := by
  rw [popStrandedContinueReminder]
  split
  · rw [(rewriteHistory_eq _ _ s).1]
    exact usersBefore_popLengthContinue s.conversation
  · rfl

theorem prefix_push (s : ChatStateActor) (item : ConversationItem) :
    usersBefore 0 s.conversation <+:
      usersBefore 0 (s.persistAndPushMessage item).conversation :=
  ⟨_, (usersBefore_append 0 s.conversation [item]).symm⟩

theorem usersBefore_pruneRetainedConversation (s : ChatStateActor) :
    usersBefore 0 s.pruneRetainedConversation.conversation = usersBefore 0 s.conversation := by
  rw [pruneRetainedConversation]
  split
  · rfl
  · rename_i henabled
    split
    · rfl
    · rw [(rewriteHistory_eq _ _ s).1]
      have henabled' : s.pruningConfig.enabled = true := by simpa using henabled
      exact (usersBefore_edited (@forall₂_hardClear s.pruningConfig [] henabled' _ _)).symm

theorem usersBefore_appendWorkingDirectorySwitch (content : String) (generation : Nat)
    (commits : Bool) (s : ChatStateActor) :
    usersBefore 0 (s.appendWorkingDirectorySwitch content generation commits).conversation =
      usersBefore 0 s.conversation := by
  rw [← usersBefore_popStrandedContinueReminder s, appendWorkingDirectorySwitch]
  generalize s.popStrandedContinueReminder = popped
  have hconverge : ∀ {s' : ChatStateActor} {authoritative : ConversationItem},
      authoritative.workingDirectorySwitchGeneration = some generation →
      usersBefore 0 (s'.convergeWorkingDirectorySwitch generation authoritative).conversation =
        usersBefore 0 s'.conversation := by
    intro s' authoritative hauthoritative
    rw [convergeWorkingDirectorySwitch]
    cases hreplaced : replaceFirst
        (fun item => decide (item.workingDirectorySwitchGeneration = some generation))
        authoritative s'.conversation with
    | some items =>
      have hmem : ChatStateCommand.appendWorkingDirectorySwitchAndAck content generation commits ∈
          [ChatStateCommand.appendWorkingDirectorySwitchAndAck content generation commits] :=
        List.mem_singleton_self _
      have hedited := @forall₂_replaceFirst ⟨true, 0⟩ _ content generation commits hmem
        authoritative hauthoritative _ _ hreplaced
      exact (usersBefore_edited hedited).symm
    | none =>
      dsimp only
      rw [usersBefore_append]
      cases authoritative with
      | user u => exact List.append_nil _
      | _ => cases hauthoritative
  obtain ⟨persisted, ack, hpersist, hgeneration⟩ :=
    popped.persistWorkingDirectorySwitch_eq content generation commits
  rw [hpersist]
  cases ack with
  | none => rfl
  | some ack =>
    cases ack with
    | appended => exact hconverge rfl
    | alreadyPresent authoritative => exact hconverge (hgeneration authoritative rfl)

theorem usersBefore_replaceSystemHead (prompt : String) (s : ChatStateActor) :
    usersBefore 0 (s.replaceSystemHead prompt).conversation = usersBefore 0 s.conversation := by
  rw [replaceSystemHead]
  split
  · change usersBefore 0 (replaceOrInsertSystemHead s.conversation prompt).1 = _
    cases s.conversation with
    | nil => rfl
    | cons first rest =>
      cases first with
      | system sys =>
        rw [replaceOrInsertSystemHead]
        split <;> rfl
      | _ => rfl
  · rfl

theorem usersBefore_injectMemoryReminder (items : List ConversationItem) (reminder : String) :
    usersBefore 0 (injectMemoryReminder items reminder).1 = usersBefore 0 items := by
  unfold injectMemoryReminder
  dsimp only
  split
  · rfl
  · cases items with
    | nil => rfl
    | cons first rest =>
      cases first with
      | system sys =>
        dsimp only
        split <;> rfl
      | _ => rfl

theorem usersBefore_buildConversationRequest (memoryReminder : Option String)
    (persistMemoryReminder : Bool) (s : ChatStateActor) :
    usersBefore 0 (s.buildConversationRequest memoryReminder persistMemoryReminder).conversation =
      usersBefore 0 s.conversation := by
  cases memoryReminder with
  | none => rfl
  | some reminder =>
    cases persistMemoryReminder with
    | false => rfl
    | true =>
      have hinject := usersBefore_injectMemoryReminder s.snapshotTurnSlice.conversation reminder
      rw [snapshotTurnSlice_conversation] at hinject
      rw [buildConversationRequest, if_pos rfl]
      dsimp only
      split
      all_goals
        rw [rebaseTurnCaptureOffset_conversation]
        change usersBefore 0 (injectMemoryReminder s.snapshotTurnSlice.conversation reminder).1 = _
        rw [snapshotTurnSlice_conversation]
        exact hinject

theorem prefix_truncate (s : ChatStateActor) (target : Nat) :
    usersBefore 0 (s.truncateToPromptIndex target).conversation <+:
      usersBefore 0 s.conversation := by
  rw [truncateToPromptIndex]
  split
  · exact List.prefix_rfl
  · have hsplit := usersBefore_append 0 (s.conversation.take (userCut target 0 s.conversation))
      (s.conversation.drop (userCut target 0 s.conversation))
    rw [List.take_append_drop] at hsplit
    exact ⟨_, hsplit.symm⟩

theorem promptIndex_truncate_le (s : ChatStateActor) (target : Nat) :
    (s.truncateToPromptIndex target).promptIndex ≤ s.promptIndex := by
  rw [truncateToPromptIndex]
  split
  · exact Nat.le_refl _
  · rename_i h
    exact Nat.le_of_lt (Nat.lt_of_not_le h)

end ChatStateActor

namespace Chronicle

/-- The results of a chronicle are dated and nothing was cleared too early. -/
structure Sound (c : Chronicle) : Prop where
  dated : Dated c.actor.promptIndex c.increments (usersBefore 0 c.actor.conversation) c.dates
  clears : ∀ clear ∈ c.clears,
    clear.1 + c.actor.pruningConfig.hardClearAgeTurns ≤ clear.2

section

variable {c : Chronicle} {f : ChatStateActor → ChatStateActor}

theorem grounded_of_move
    {date : Nat → List ConversationItem → List ConversationItem → List Nat → List Nat}
    (h : (c.move date f).grounded = true) :
    c.grounded = true ∧
      ChatState.grounded (f c.actor).promptIndex c.increments (f c.actor).conversation
        (date c.increments c.actor.conversation (f c.actor).conversation c.dates) = true := by
  rw [move, Bool.and_eq_true] at h
  exact h

theorem Sound.clears_of_config (h : c.Sound)
    (hconfig : (f c.actor).pruningConfig = c.actor.pruningConfig) :
    ∀ clear ∈ c.clears, clear.1 + (f c.actor).pruningConfig.hardClearAgeTurns ≤ clear.2 := by
  rw [hconfig]
  exact h.clears

/-- An operation under which results keep their places keeps a chronicle sound. -/
theorem Sound.extended (h : c.Sound)
    (hplaces : usersBefore 0 (f c.actor).conversation <+: usersBefore 0 c.actor.conversation ∨
      usersBefore 0 c.actor.conversation <+: usersBefore 0 (f c.actor).conversation)
    (hindex : (f c.actor).promptIndex ≤ c.actor.promptIndex)
    (hconfig : (f c.actor).pruningConfig = c.actor.pruningConfig)
    (hgrounded : (c.move dateExtended f).grounded = true) : (c.move dateExtended f).Sound where
  dated := (h.dated.mono hindex).extended hplaces (grounded_of_move hgrounded).2
  clears := h.clears_of_config hconfig

/-- A repair of the runs keeps a chronicle sound. -/
theorem Sound.repaired (h : c.Sound)
    (hothers : otherItems (f c.actor).conversation = otherItems c.actor.conversation)
    (hindex : (f c.actor).promptIndex ≤ c.actor.promptIndex)
    (hconfig : (f c.actor).pruningConfig = c.actor.pruningConfig)
    (hgrounded : (c.move dateRepaired f).grounded = true) : (c.move dateRepaired f).Sound where
  dated := Dated.repaired hothers (h.dated.mono hindex) (grounded_of_move hgrounded).2
  clears := h.clears_of_config hconfig

/-- A replaced conversation keeps a chronicle sound. -/
theorem Sound.renewed (h : c.Sound)
    (hconfig : (f c.actor).pruningConfig = c.actor.pruningConfig)
    (hgrounded : (c.move dateRenewed f).grounded = true) : (c.move dateRenewed f).Sound where
  dated := dated_renewed (grounded_of_move hgrounded).2
  clears := h.clears_of_config hconfig

theorem move_grounded
    {date : Nat → List ConversationItem → List ConversationItem → List Nat → List Nat}
    (h : (c.move date f).grounded = true) : c.grounded = true :=
  (grounded_of_move h).1

end

/-- Beginning a prompt turn keeps a chronicle sound. -/
theorem Sound.increment {c : Chronicle} (h : c.Sound) : c.increment.Sound where
  dated := h.dated.increment
  clears := h.clears

/-- Pruning keeps a chronicle sound: what it clears is old enough. -/
theorem Sound.prune {c : Chronicle} (h : c.Sound) (hgrounded : c.prune.grounded = true) :
    c.prune.Sound := by
  have hsettings := c.actor.pruneRetainedConversation_settings
  have hmove : (c.move dateExtended ChatStateActor.pruneRetainedConversation).Sound := by
    apply h.extended
    · rw [ChatStateActor.usersBefore_pruneRetainedConversation]
      exact Or.inl List.prefix_rfl
    · exact Nat.le_of_eq hsettings.2
    · exact hsettings.1
    · exact hgrounded
  refine ⟨hmove.dated, ?_⟩
  intro clear hclear
  obtain hclear | hclear := List.mem_append.mp hclear
  · exact hmove.clears clear hclear
  · obtain ⟨date, hdate, rfl⟩ := List.mem_map.mp hclear
    change date + c.actor.pruneRetainedConversation.pruningConfig.hardClearAgeTurns ≤ c.increments
    rw [hsettings.1]
    revert hdate
    rw [ChatStateActor.pruneRetainedConversation]
    have hsame : ∀ items dates, clearedDates items items dates = [] := by
      intro items
      induction items with
      | nil => exact fun _ => rfl
      | cons item rest ih =>
        intro dates
        cases dates <;> simp [clearedDates, ih]
    split
    · rw [hsame]
      exact fun hdate => by cases hdate
    · split
      · rw [hsame]
        exact fun hdate => by cases hdate
      · rw [(ChatStateActor.rewriteHistory_eq _ _ c.actor).1]
        exact old_of_clearedDates h.dated (Nat.zero_add _) date

/-- Pushing a user message keeps a chronicle sound. -/
theorem Sound.pushUserMessage {c : Chronicle} (h : c.Sound) (item : ConversationItem)
    (reason : DanglingToolCallReason) (hgrounded : (c.pushUserMessage item reason).grounded = true) :
    (c.pushUserMessage item reason).Sound := by
  rw [Chronicle.pushUserMessage] at hgrounded ⊢
  have hpush := move_grounded hgrounded
  have hrepair := move_grounded hpush
  have hpop := move_grounded hrepair
  apply Sound.prune _ hgrounded
  apply Sound.extended _ (Or.inr (ChatStateActor.prefix_push _ item)) (Nat.le_refl _) rfl hpush
  have hsettings := fun s => ChatStateActor.rewriteHistory_settings .integrityRepair
    (ChatStateActor.repairIntegrity reason []) s
  apply Sound.repaired _ _ (Nat.le_of_eq (hsettings _).2) (hsettings _).1 hrepair
  · apply h.extended _ _ _ hpop
    · left
      split
      · exact ⟨[], by rw [List.append_nil, ChatStateActor.usersBefore_popStrandedContinueReminder]⟩
      · exact List.prefix_rfl
    · split
      · exact Nat.le_of_eq (ChatStateActor.popStrandedContinueReminder_settings _).2
      · exact Nat.le_refl _
    · split
      · exact (ChatStateActor.popStrandedContinueReminder_settings _).1
      · rfl
  · refine Eq.trans ?_ (otherItems_repairIntegrity reason [] _)
    exact congrArg otherItems (ChatStateActor.rewriteHistory_eq _ _ _).1

theorem prune_grounded {c : Chronicle} (h : c.prune.grounded = true) : c.grounded = true :=
  (Bool.and_eq_true _ _ ▸ h : c.grounded = true ∧ _).1

/-- A command cannot make good what entered too far in front. -/
theorem handleCommand_grounded {c : Chronicle} {command : ChatStateCommand}
    (h : (c.handleCommand command).grounded = true) : c.grounded = true := by
  have hpush : ∀ {c : Chronicle} {item : ConversationItem} {reason : DanglingToolCallReason},
      (c.pushUserMessage item reason).grounded = true → c.grounded = true :=
    fun h => move_grounded (move_grounded (move_grounded (prune_grounded h)))
  cases command with
  | pushUserMessage item => exact hpush h
  | pushUserMessagesBatch items =>
    change (items.foldl (fun c item => c.pushUserMessage item .userCancelled) c).grounded = true at h
    induction items generalizing c with
    | nil => exact h
    | cons item items ih => exact hpush (ih h)
  | pushUserMessageWithRepairReason item reason => exact hpush h
  | incrementPromptIndex => exact h
  | repairDanglingAfterHarnessHalt | buildConversationRequest =>
    exact move_grounded (move_grounded h)
  | _ => exact move_grounded h

/-- One command keeps a chronicle sound while its results enter behind enough user items. -/
theorem Sound.handleCommand {c : Chronicle} (h : c.Sound) {command : ChatStateCommand}
    (hgrounded : (c.handleCommand command).grounded = true) :
    (c.handleCommand command).Sound := by
  cases command with
  | pushUserMessage item => exact h.pushUserMessage item .userCancelled hgrounded
  | pushUserMessagesBatch items =>
    change (items.foldl (fun c item => c.pushUserMessage item .userCancelled) c).grounded = true
      at hgrounded
    change (items.foldl (fun c item => c.pushUserMessage item .userCancelled) c).Sound
    induction items generalizing c with
    | nil => exact h
    | cons item items ih =>
      have hitem : (c.pushUserMessage item .userCancelled).grounded = true :=
        @handleCommand_grounded _ (.pushUserMessagesBatch items) hgrounded
      exact ih (h.pushUserMessage item .userCancelled hitem) hgrounded
  | pushUserMessageWithRepairReason item reason =>
    exact h.pushUserMessage item reason hgrounded
  | incrementPromptIndex => exact h.increment
  | replaceConversation items isCompaction =>
    exact h.renewed (ChatStateActor.replaceConversation_settings _ _ _).1 hgrounded
  | restoreSnapshot snapshot =>
    exact h.renewed (ChatStateActor.snapshotTurnSlice_settings c.actor).1 hgrounded
  | repairHistory dryRun turnActive =>
    apply h.repaired _ _ _ hgrounded
    · split
      · rfl
      · rw [ChatStateActor.repairHistory]
        split
        · rfl
        · dsimp only
          split
          · exact otherItems_repairHistory _
          · exact otherItems_repairHistory _
    · split
      · exact Nat.le_refl _
      · exact Nat.le_of_eq (ChatStateActor.repairHistory_settings dryRun _).2
    · split
      · rfl
      · exact (ChatStateActor.repairHistory_settings dryRun _).1
  | repairDanglingAfterHarnessHalt tag answers =>
    have hpop := move_grounded hgrounded
    have hsettings := fun s => ChatStateActor.rewriteHistory_settings .integrityRepair
      (ChatStateActor.repairIntegrity (.harnessHalted tag) answers) s
    apply Sound.repaired _ _ (Nat.le_of_eq (hsettings _).2) (hsettings _).1 hgrounded
    · apply h.extended _ _ _ hpop
      · rw [ChatStateActor.usersBefore_popStrandedContinueReminder]
        exact Or.inl List.prefix_rfl
      · exact Nat.le_of_eq (ChatStateActor.popStrandedContinueReminder_settings _).2
      · exact (ChatStateActor.popStrandedContinueReminder_settings _).1
    · refine Eq.trans ?_ (otherItems_repairIntegrity (.harnessHalted tag) answers _)
      exact congrArg otherItems (ChatStateActor.rewriteHistory_eq _ _ _).1
  | buildConversationRequest memoryReminder persistMemoryReminder =>
    have hrepair := move_grounded hgrounded
    have hsettings := fun s => ChatStateActor.rewriteHistory_settings .integrityRepair
      (ChatStateActor.repairIntegrity .userCancelled []) s
    have hbuild := fun s => ChatStateActor.buildConversationRequest_settings memoryReminder
      persistMemoryReminder s
    apply Sound.extended _ _ (Nat.le_of_eq (hbuild _).2) (hbuild _).1 hgrounded
    · apply h.repaired _ (Nat.le_of_eq (hsettings _).2) (hsettings _).1 hrepair
      refine Eq.trans ?_ (otherItems_repairIntegrity .userCancelled [] _)
      exact congrArg otherItems (ChatStateActor.rewriteHistory_eq _ _ _).1
    · rw [ChatStateActor.usersBefore_buildConversationRequest]
      exact Or.inl List.prefix_rfl
  | appendWorkingDirectorySwitchAndAck content generation commits =>
    have hsettings := ChatStateActor.appendWorkingDirectorySwitch_settings content generation
      commits c.actor
    apply h.extended _ (Nat.le_of_eq hsettings.2) hsettings.1 hgrounded
    rw [ChatStateActor.usersBefore_appendWorkingDirectorySwitch]
    exact Or.inl List.prefix_rfl
  | stripConversationImages urls =>
    have hsettings := ChatStateActor.rewriteHistory_settings .imageStrip (stripImagesByUrl urls)
      c.actor
    apply h.extended _ (Nat.le_of_eq hsettings.2) hsettings.1 hgrounded
    have hconversation := (ChatStateActor.rewriteHistory_eq .imageStrip (stripImagesByUrl urls)
      c.actor).1
    have hedited := @usersBefore_edited _ _ 0 _ _ (@forall₂_stripImagesWhere ⟨true, 0⟩
      [.stripConversationImages urls] urls (List.mem_singleton_self _) c.actor.conversation)
    left
    rw [hconversation, hedited]
    exact List.prefix_rfl
  | replaceSystemHead prompt =>
    have hsettings := ChatStateActor.replaceSystemHead_settings prompt c.actor
    apply h.extended _ (Nat.le_of_eq hsettings.2) hsettings.1 hgrounded
    rw [ChatStateActor.usersBefore_replaceSystemHead]
    exact Or.inl List.prefix_rfl
  | popStrandedContinueReminder =>
    have hsettings := ChatStateActor.popStrandedContinueReminder_settings c.actor
    apply h.extended _ (Nat.le_of_eq hsettings.2) hsettings.1 hgrounded
    rw [ChatStateActor.usersBefore_popStrandedContinueReminder]
    exact Or.inl List.prefix_rfl
  | truncateToPromptIndex target =>
    apply h.extended _ _ _ hgrounded
    · exact Or.inl (ChatStateActor.prefix_truncate c.actor target)
    · exact ChatStateActor.promptIndex_truncate_le c.actor target
    · exact ChatStateActor.handleCommand_pruningConfig c.actor (.truncateToPromptIndex target)
  | takeTurnMessages =>
    have htake : ∃ turnCapture turnTails, c.actor.takeTurnMessages.1 =
        { c.actor with turnCapture := turnCapture, turnTails := turnTails } := by
      rw [ChatStateActor.takeTurnMessages]
      split
      · exact ⟨_, _, rfl⟩
      · exact ⟨_, _, rfl⟩
    obtain ⟨turnCapture, turnTails, htake⟩ := htake
    apply h.extended _ _ _ hgrounded
    all_goals
      change c.actor.handleCommand .takeTurnMessages = _ at htake
      rw [htake]
    exact Or.inl List.prefix_rfl
  | pushAssistantResponse item | pushToolResult item | pushModelOutput item
  | pushUnreportedModelOutput item =>
    exact h.extended (Or.inr (c.actor.prefix_push item)) (Nat.le_refl _) rfl hgrounded
  | _ => exact h.extended (Or.inl List.prefix_rfl) (Nat.le_refl _) rfl hgrounded

/-- A run keeps a chronicle sound while its results enter behind enough user items. -/
theorem Sound.run {c : Chronicle} (h : c.Sound) {commands : List ChatStateCommand}
    (hgrounded : (c.run commands).grounded = true) : (c.run commands).Sound := by
  have hearlier : ∀ (commands : List ChatStateCommand) {c : Chronicle},
      (c.run commands).grounded = true → c.grounded = true := by
    intro commands
    induction commands with
    | nil => exact fun h => h
    | cons command commands ih => exact fun h => handleCommand_grounded (ih h)
  induction commands generalizing c with
  | nil => exact h
  | cons command commands ih =>
    exact ih (h.handleCommand (hearlier commands hgrounded)) hgrounded

/-- The chronicle of an actor that starts is sound. -/
theorem sound_new (initialConversation : List ConversationItem) (pruningConfig : PruningConfig) :
    (new initialConversation pruningConfig).Sound := by
  refine ⟨?_, fun _ hclear => by cases hclear⟩
  apply List.forall₂_iff_get.mpr
  constructor
  · rw [length_usersBefore]
    exact List.length_replicate.symm
  · intro i hi hi'
    have hzero : ((new initialConversation pruningConfig).dates.get ⟨i, hi'⟩) = 0 :=
      List.getElem_replicate _
    rw [hzero]
    exact ⟨Nat.le_refl 0, Nat.zero_le _⟩

/-- When every tool result enters behind enough user items, each one that pruning clears has
seen as many prompt turns begin since as the configuration asks for. -/
theorem clears_after_hardClearAge (initialConversation : List ConversationItem)
    (pruningConfig : PruningConfig) (commands : List ChatStateCommand)
    (hgrounded : ((new initialConversation pruningConfig).run commands).grounded = true) :
    ∀ clear ∈ ((new initialConversation pruningConfig).run commands).clears,
      clear.1 + pruningConfig.hardClearAgeTurns ≤ clear.2 := by
  have hsound := (sound_new initialConversation pruningConfig).run hgrounded
  have hconfig : ∀ (commands : List ChatStateCommand) (s : ChatStateActor),
      (s.run commands).pruningConfig = s.pruningConfig := by
    intro commands
    induction commands with
    | nil => exact fun _ => rfl
    | cons command commands ih =>
      exact fun s => (ih _).trans (ChatStateActor.handleCommand_pruningConfig s command)
  have hclears := hsound.clears
  rw [run_actor, hconfig] at hclears
  exact hclears

/-- A prompt, its tool call and two more prompts. -/
def threePrompts : List ChatStateCommand :=
  [.incrementPromptIndex,
    .pushUserMessage (.user ⟨[.text "a"], .human, none, none, some 0⟩),
    .pushAssistantResponse (.assistant ⟨"", [⟨"c1", "bash", "1"⟩], none, none⟩),
    .pushToolResult (.toolResult (toolResultItem "c1" "r")),
    .incrementPromptIndex,
    .pushUserMessage (.user ⟨[.text "b"], .human, none, none, some 1⟩),
    .incrementPromptIndex,
    .pushUserMessage (.user ⟨[.text "c"], .human, none, none, some 2⟩)]

/-- The result of the first prompt is cleared two prompts later. -/
theorem three_prompts_clear :
    (1, 3) ∈ ((new [] ⟨true, 1⟩).run threePrompts).clears ∧
      ∀ clear ∈ ((new [] ⟨true, 1⟩).run threePrompts).clears, clear.1 + 1 ≤ clear.2 :=
  ⟨by decide +kernel, clears_after_hardClearAge [] ⟨true, 1⟩ threePrompts (by decide +kernel)⟩

/-- Three prompts compacted to one item, then a tool call and two interjections in one turn. -/
def compactedTurn : List ChatStateCommand :=
  [.incrementPromptIndex, .incrementPromptIndex, .incrementPromptIndex,
    .replaceConversation [.user ⟨[.text "summary"], .compactionMeta, none, none, none⟩] true,
    .pushAssistantResponse (.assistant ⟨"", [⟨"c1", "bash", "1"⟩], none, none⟩),
    .pushToolResult (.toolResult (toolResultItem "c1" "r")),
    .pushUserMessage (.user ⟨[.text "i"], .interjection, none, none, none⟩),
    .pushUserMessage (.user ⟨[.text "j"], .interjection, none, none, none⟩)]

/-- After a compaction a result of the present turn is cleared. -/
theorem compacted_turn_cleared_early :
    ¬∀ (initialConversation : List ConversationItem) (pruningConfig : PruningConfig)
      (commands : List ChatStateCommand),
      ∀ clear ∈ ((new initialConversation pruningConfig).run commands).clears,
        clear.1 + pruningConfig.hardClearAgeTurns ≤ clear.2 := by
  intro h
  have hclear := h [] ⟨true, 1⟩ compactedTurn (3, 3) (by decide +kernel)
  exact absurd hclear (by decide)

end Chronicle

end Ezer.ChatState
