import Ezer.ChatState.Repair
import Ezer.ChatState.Rewind
import Ezer.Lib.Split
import Ezer.Lib.Trim

/-!
# The chat state actor

The conversation of a session with the turn being captured, and the history the
persistence backend holds. Every command appends items, rewrites the history in
place or replaces it, and keeps the captured turn and the stored history in step.
-/

namespace Ezer.ChatState

open Ezer.Lib

/-- The items of the current turn, by where they start in the conversation. -/
structure TurnCaptureState where
  turnStartOffset : Nat
  /-- Items saved before the conversation was rewritten or replaced. -/
  preReplacementMessages : List ConversationItem
  compactionOccurred : Bool

/-- The captured items of a turn. -/
structure TurnCapture where
  messages : List ConversationItem
  compactionOccurred : Bool

/-- When tool results of the stored conversation are cleared. -/
structure PruningConfig where
  enabled : Bool
  hardClearAgeTurns : Nat

/-- The fields of a snapshot that a restore puts back. -/
structure ChatStateSnapshot where
  conversation : List ConversationItem
  promptIndex : Nat
  promptTexts : List String

/-- The state of the actor and the history its persistence holds. -/
structure ChatStateActor where
  conversation : List ConversationItem
  promptIndex : Nat
  promptTexts : List String
  turnCapture : Option TurnCaptureState
  pruningConfig : PruningConfig
  /-- The history the persistence backend holds. -/
  persisted : List ConversationItem
  /-- Offset and conversation length at every evaluation of the turn's tail. -/
  turnTails : List (Nat × Nat)

/-- What replaces a hard-cleared tool result. -/
def hardClearPlaceholder : String := "[Tool result omitted — too old]"

/-- What replaces a stripped user image. -/
def imageStripPlaceholder : String :=
  "[image removed — the server could not process it; " ++
    "its contents are unavailable. Ask the user to re-attach the image if it is still needed.]"

/-- The tag that opens a memory reminder. -/
def memoryContextOpenTag : Text := "<memory-context>".toList

/-! ## Rewrites of a conversation -/

/-- Strip the images of a user message. -/
def stripParts (shouldStrip : String → Bool) : List ContentPart → List ContentPart × List String
  | [] => ([], [])
  | .image url :: parts =>
    let stripped := stripParts shouldStrip parts
    if shouldStrip url then (.text imageStripPlaceholder :: stripped.1, url :: stripped.2)
    else (.image url :: stripped.1, stripped.2)
  | .text text :: parts =>
    let stripped := stripParts shouldStrip parts
    (.text text :: stripped.1, stripped.2)

/-- Drop the images of a tool result. -/
def stripResultImages (shouldStrip : String → Bool) :
    List ContentPart → List ContentPart × List String
  | [] => ([], [])
  | .image url :: parts =>
    let stripped := stripResultImages shouldStrip parts
    if shouldStrip url then (stripped.1, url :: stripped.2)
    else (.image url :: stripped.1, stripped.2)
  | .text text :: parts =>
    let stripped := stripResultImages shouldStrip parts
    (.text text :: stripped.1, stripped.2)

/-- Strip the images of one item. -/
def stripItem (shouldStrip : String → Bool) : ConversationItem → ConversationItem × List String
  | .user u =>
    let stripped := stripParts shouldStrip u.content
    (.user { u with content := stripped.1 }, stripped.2)
  | .toolResult t =>
    let stripped := stripResultImages shouldStrip t.images
    (.toolResult { t with images := stripped.1 }, stripped.2)
  | item => (item, [])

/-- Strip images wherever they stand; the number of items stays. -/
def stripImagesWhere (shouldStrip : String → Bool) :
    List ConversationItem → List ConversationItem × List String
  | [] => ([], [])
  | item :: rest =>
    let stripped := stripItem shouldStrip item
    let others := stripImagesWhere shouldStrip rest
    (stripped.1 :: others.1, stripped.2 ++ others.2)

/-- Strip the images with some URLs. -/
def stripImagesByUrl (urls : List String) (items : List ConversationItem) :
    List ConversationItem × Nat :=
  let stripped := stripImagesWhere (fun url => decide (url ∈ urls)) items
  (stripped.1, stripped.2.length)

/-- Clear the tool results behind enough user items, from the end of the conversation. -/
def hardClearFrom (threshold turnFromEnd : Nat) (seenFirstUser : Bool) :
    List ConversationItem → List ConversationItem × Nat
  | [] => ([], 0)
  | .user u :: rest =>
    let cleared :=
      hardClearFrom threshold (if seenFirstUser then turnFromEnd + 1 else turnFromEnd) true rest
    (.user u :: cleared.1, cleared.2)
  | .toolResult t :: rest =>
    let cleared := hardClearFrom threshold turnFromEnd seenFirstUser rest
    if turnFromEnd < threshold then (.toolResult t :: cleared.1, cleared.2)
    else if t.content ≠ hardClearPlaceholder then
      (.toolResult { t with content := hardClearPlaceholder } :: cleared.1, cleared.2 + 1)
    else (.toolResult t :: cleared.1, cleared.2)
  | item :: rest =>
    let cleared := hardClearFrom threshold turnFromEnd seenFirstUser rest
    (item :: cleared.1, cleared.2)

/-- Clear the tool results that are old enough. -/
def hardClear (threshold : Nat) (items : List ConversationItem) : List ConversationItem × Nat :=
  let cleared := hardClearFrom threshold 0 false items.reverse
  (cleared.1.reverse, cleared.2)

/-- Whether an item is a continue reminder. -/
def ConversationItem.isLengthContinue : ConversationItem → Bool
  | .user u => decide (u.syntheticReason = .lengthContinue)
  | _ => false

/-- Drop the continue reminders that end a conversation. -/
def popLengthContinue (items : List ConversationItem) : List ConversationItem × Nat :=
  let kept := (items.reverse.dropWhile ConversationItem.isLengthContinue).reverse
  (kept, items.length - kept.length)

/-- A text without the line feeds and carriage returns at its end. -/
def trimEndNewlines (stop : Char → Bool) (t : Text) : Text := (t.reverse.dropWhile stop).reverse

/-- Whether two system prompts agree up to line ends behind them. -/
def canonicalSystemPromptEq (a b : String) : Bool :=
  let stop := fun c => c == '\n' || c == '\r'
  decide (trimEndNewlines stop a.toList = trimEndNewlines stop b.toList)

/-- Replace the leading system message or insert one. -/
def replaceOrInsertSystemHead (items : List ConversationItem) (prompt : String) :
    List ConversationItem × Bool :=
  match items with
  | .system sys :: rest =>
    if canonicalSystemPromptEq sys.content prompt then (items, false)
    else (.system { sys with content := prompt } :: rest, true)
  | _ => (systemItem prompt :: items, true)

/-- A system prompt with its memory section replaced, or with one appended. -/
def upsertMemoryReminderText (systemPrompt reminder : Text) : Text :=
  let newline := fun c : Char => c == '\n'
  match splitOnce memoryContextOpenTag systemPrompt with
  | some (before, _) =>
    let start := trimEndNewlines newline before
    if start.isEmpty then reminder else start ++ ['\n', '\n'] ++ reminder
  | none =>
    if trimEnd systemPrompt = reminder then systemPrompt
    else if systemPrompt.isEmpty then reminder
    else trimEndNewlines newline systemPrompt ++ ['\n', '\n'] ++ reminder

/-- Put a memory reminder into the system message; whether the conversation changed. -/
def injectMemoryReminder (items : List ConversationItem) (reminder : String) :
    List ConversationItem × Bool :=
  let text := trim reminder.toList
  if text.isEmpty then (items, false)
  else
    match items with
    | .system sys :: rest =>
      let updated := String.ofList (upsertMemoryReminderText sys.content.toList text)
      if sys.content = updated then (items, false)
      else (.system { sys with content := updated } :: rest, true)
    | _ => (systemItem (String.ofList text) :: items, true)

/-- Replace the first item that satisfies a condition, if there is one. -/
def replaceFirst (p : ConversationItem → Bool) (new : ConversationItem) :
    List ConversationItem → Option (List ConversationItem)
  | [] => none
  | item :: rest =>
    if p item then some (new :: rest) else (replaceFirst p new rest).map (item :: ·)

/-! ## The turn capture -/

/-- The items of a conversation from an offset on, none when it is past the end. -/
def turnTail (items : List ConversationItem) (offset : Nat) : List ConversationItem :=
  items.drop offset

namespace ChatStateActor

/-- Save the current turn's items before the conversation changes under the capture. -/
def snapshotTurnSlice (s : ChatStateActor) : ChatStateActor :=
  match s.turnCapture with
  | none => s
  | some cap =>
    { s with
      turnCapture := some
        { cap with
          preReplacementMessages :=
            cap.preReplacementMessages ++ turnTail s.conversation cap.turnStartOffset }
      turnTails := s.turnTails ++ [(cap.turnStartOffset, s.conversation.length)] }

/-- Start the capture again at the end of the conversation. -/
def rebaseTurnCaptureOffset (s : ChatStateActor) : ChatStateActor :=
  { s with
    turnCapture := s.turnCapture.map fun cap =>
      { cap with turnStartOffset := s.conversation.length } }

/-! ## Persistence -/

/-- Append an item to the stored history. -/
def persistMessage (item : ConversationItem) (s : ChatStateActor) : ChatStateActor :=
  { s with persisted := s.persisted ++ [item] }

/-- Overwrite the stored history. -/
def replaceHistory (items : List ConversationItem) (s : ChatStateActor) : ChatStateActor :=
  { s with persisted := items }

/-- What an acknowledged switch append found in the stored history. -/
inductive StrictAppendAck where
  | appended
  | alreadyPresent (authoritative : ConversationItem)

/-- Append a switch unless the stored history has one of its generation; nothing is
acknowledged when the write fails. -/
def persistWorkingDirectorySwitch (item : ConversationItem) (commits : Bool) (s : ChatStateActor) :
    ChatStateActor × Option StrictAppendAck :=
  if !commits then (s, none)
  else
    match s.persisted.find? fun stored =>
      decide (stored.workingDirectorySwitchGeneration = item.workingDirectorySwitchGeneration)
    with
    | some authoritative => (s, some (.alreadyPresent authoritative))
    | none => (s.persistMessage item, some .appended)

/-! ## History rewrites -/

/-- How a rewrite in place treats the turn capture. -/
inductive HistoryRewrite where
  | integrityRepair
  | retainedPrune
  | imageStrip
  deriving DecidableEq

/-- Apply a rewrite that reports how much it changed, and persist when it changed something. -/
def rewriteHistory (kind : HistoryRewrite)
    (mutate : List ConversationItem → List ConversationItem × Nat) (s : ChatStateActor) :
    ChatStateActor :=
  let s := if kind = .integrityRepair then s.snapshotTurnSlice else s
  let rewritten := mutate s.conversation
  let s := { s with conversation := rewritten.1 }
  let s := if 0 < rewritten.2 then s.replaceHistory s.conversation else s
  if kind = .integrityRepair then s.rebaseTurnCaptureOffset else s

/-- Answer a call from the given answers, each used once, or with the text of a reason. -/
def resolveAnswers (reason : DanglingToolCallReason) (answers : List (String × String))
    (id name : String) : String × List (String × String) :=
  match answers.lookup id with
  | some text => (text, answers.filter fun answer => decide (answer.1 ≠ id))
  | none => (syntheticDanglingResultText name reason, answers)

/-- Remove duplicate results and answer dangling calls. -/
def repairIntegrity (reason : DanglingToolCallReason) (answers : List (String × String))
    (items : List ConversationItem) : List ConversationItem × Nat :=
  let deduped := dedupDuplicateToolResults items
  let repaired := repairDanglingToolCallsWith (resolveAnswers reason) answers deduped.1
  (repaired.1, repaired.2.1 + deduped.2)

/-- Repair the pairing of calls and results, with answers for calls that have none. -/
def ensureConversationIntegrityAnswering (reason : DanglingToolCallReason)
    (answers : List (String × String)) (s : ChatStateActor) : ChatStateActor :=
  s.rewriteHistory .integrityRepair (repairIntegrity reason answers)

/-- Repair the pairing of calls and results. -/
def ensureConversationIntegrityWithReason (reason : DanglingToolCallReason) (s : ChatStateActor) :
    ChatStateActor :=
  s.ensureConversationIntegrityAnswering reason []

/-- Repair the pairing of calls and results of a cancelled turn. -/
def ensureConversationIntegrity (s : ChatStateActor) : ChatStateActor :=
  s.ensureConversationIntegrityWithReason .userCancelled

/-- Drop continue reminders whose continuation will never run. -/
def popStrandedContinueReminder (s : ChatStateActor) : ChatStateActor :=
  if s.conversation.getLast?.any ConversationItem.isLengthContinue then
    s.rewriteHistory .integrityRepair popLengthContinue
  else s

/-- Repair the conversation after the harness halted a turn. -/
def repairDanglingAfterHarnessHalt (tag : String) (answers : List (String × String))
    (s : ChatStateActor) : ChatStateActor :=
  s.popStrandedContinueReminder.ensureConversationIntegrityAnswering (.harnessHalted tag) answers

/-- Replace the conversation and the stored history. -/
def replaceConversation (items : List ConversationItem) (isCompaction : Bool)
    (s : ChatStateActor) : ChatStateActor :=
  let s := s.snapshotTurnSlice
  let s : ChatStateActor :=
    { s with
      turnCapture := s.turnCapture.map fun cap =>
        { cap with compactionOccurred := cap.compactionOccurred || isCompaction } }
  let s := s.replaceHistory items
  let s := { s with conversation := items }
  s.rebaseTurnCaptureOffset

/-- Repair the history out of band: the conversation is moved out, repaired and put back. -/
def repairHistory (dryRun : Bool) (s : ChatStateActor) : ChatStateActor × HistoryRepairReport :=
  if dryRun then (s, (ChatState.repairHistory s.conversation).2)
  else
    let repaired := ChatState.repairHistory s.conversation
    let s := { s with conversation := [] }
    if repaired.2.changed then (s.replaceConversation repaired.1 false, repaired.2)
    else ({ s with conversation := repaired.1 }, repaired.2)

/-- Strip images from the stored conversation. -/
def stripConversationImages (urls : List String) (s : ChatStateActor) : ChatStateActor :=
  s.rewriteHistory .imageStrip (stripImagesByUrl urls)

/-- Make memory match the stored switch of one generation. -/
def convergeWorkingDirectorySwitch (generation : Nat) (authoritative : ConversationItem)
    (s : ChatStateActor) : ChatStateActor :=
  match replaceFirst
    (fun item => decide (item.workingDirectorySwitchGeneration = some generation)) authoritative
    s.conversation
  with
  | some items => { s with conversation := items }
  | none => { s with conversation := s.conversation ++ [authoritative] }

/-- Append an item to the stored history and the conversation. -/
def persistAndPushMessage (item : ConversationItem) (s : ChatStateActor) : ChatStateActor :=
  let s := s.persistMessage item
  { s with conversation := s.conversation ++ [item] }

/-- Clear the tool results of very old turns in the stored conversation. -/
def pruneRetainedConversation (s : ChatStateActor) : ChatStateActor :=
  if !s.pruningConfig.enabled then s
  else if s.promptIndex < s.pruningConfig.hardClearAgeTurns then s
  else
    let totalUserItems := s.conversation.countP ConversationItem.isUser
    let syntheticCount := totalUserItems - s.promptIndex
    s.rewriteHistory .retainedPrune (hardClear (s.pruningConfig.hardClearAgeTurns + syntheticCount))

/-- Whether a user item landing on a continue reminder means that its continuation is dead. -/
def dropsContinueReminder : ConversationItem → Bool
  | .user u =>
    u.syntheticReason.startsPromptTurn ||
      decide (u.syntheticReason ∈ [SyntheticReason.autoRecovery, .stopHookFeedback, .goalSummary,
        .workingDirectorySwitch, .interjection])
  | _ => false

/-- Push a user message behind a repaired history and prune old results. -/
def pushUserMessageWithRepairReason (item : ConversationItem) (reason : DanglingToolCallReason)
    (s : ChatStateActor) : ChatStateActor :=
  let s := if dropsContinueReminder item then s.popStrandedContinueReminder else s
  let s := s.ensureConversationIntegrityWithReason reason
  (s.persistAndPushMessage item).pruneRetainedConversation

/-- Push a user message. -/
def pushUserMessage (item : ConversationItem) (s : ChatStateActor) : ChatStateActor :=
  s.pushUserMessageWithRepairReason item .userCancelled

/-- Append a working-directory switch once the persistence acknowledged it. -/
def appendWorkingDirectorySwitch (content : String) (generation : Nat) (commits : Bool)
    (s : ChatStateActor) : ChatStateActor :=
  let candidate := workingDirectorySwitch content generation
  let s := s.popStrandedContinueReminder
  match s.persistWorkingDirectorySwitch candidate commits with
  | (s, some .appended) => s.convergeWorkingDirectorySwitch generation candidate
  | (s, some (.alreadyPresent authoritative)) =>
    s.convergeWorkingDirectorySwitch generation authoritative
  | (s, none) => s

/-- Swap the leading system message. -/
def replaceSystemHead (prompt : String) (s : ChatStateActor) : ChatStateActor :=
  let replaced := replaceOrInsertSystemHead s.conversation prompt
  if replaced.2 then s.replaceConversation replaced.1 false else s

/-- Restore the fields of a snapshot. -/
def restoreSnapshot (snap : ChatStateSnapshot) (s : ChatStateActor) : ChatStateActor :=
  let s := s.snapshotTurnSlice
  let s := { s with conversation := snap.conversation }
  let s := s.rebaseTurnCaptureOffset
  { s with promptIndex := snap.promptIndex, promptTexts := snap.promptTexts }

/-- Start to capture a turn. -/
def beginTurnCapture (s : ChatStateActor) : ChatStateActor :=
  { s with turnCapture := some ⟨s.conversation.length, [], false⟩ }

/-- Give out the captured items and stop capturing. -/
def takeTurnMessages (s : ChatStateActor) : ChatStateActor × Option TurnCapture :=
  match s.turnCapture with
  | none => (s, none)
  | some cap =>
    ({ s with
        turnCapture := none
        turnTails := s.turnTails ++ [(cap.turnStartOffset, s.conversation.length)] },
      some
        ⟨cap.preReplacementMessages ++ turnTail s.conversation cap.turnStartOffset,
          cap.compactionOccurred⟩)

/-- Rewind the conversation to a prompt turn, found by counting user items. -/
def truncateToPromptIndex (target : Nat) (s : ChatStateActor) : ChatStateActor :=
  if s.promptIndex ≤ target then s
  else
    let s :=
      { s with
        conversation := s.conversation.take (userCut target 0 s.conversation)
        promptTexts := s.promptTexts.take target
        promptIndex := target }
    s.replaceHistory s.conversation

/-- What building a request changes: a memory reminder to persist goes into the history. -/
def buildConversationRequest (memoryReminder : Option String) (persistMemoryReminder : Bool)
    (s : ChatStateActor) : ChatStateActor :=
  match memoryReminder with
  | none => s
  | some reminder =>
    if persistMemoryReminder then
      let s := s.snapshotTurnSlice
      let injected := injectMemoryReminder s.conversation reminder
      let s := { s with conversation := injected.1 }
      let s := if injected.2 then s.replaceHistory s.conversation else s
      s.rebaseTurnCaptureOffset
    else s

end ChatStateActor

/-- The commands of the actor that touch the conversation or its turn capture, and one for
all the others. -/
inductive ChatStateCommand where
  | pushUserMessage (item : ConversationItem)
  | pushUserMessagesBatch (items : List ConversationItem)
  | appendWorkingDirectorySwitchAndAck (content : String) (cwdGeneration : Nat) (commits : Bool)
  | pushUserMessageWithRepairReason (item : ConversationItem) (reason : DanglingToolCallReason)
  | pushAssistantResponse (item : ConversationItem)
  | pushToolResult (item : ConversationItem)
  | pushModelOutput (item : ConversationItem)
  | pushUnreportedModelOutput (item : ConversationItem)
  | incrementPromptIndex
  | replaceConversation (items : List ConversationItem) (isCompaction : Bool)
  | repairHistory (dryRun turnActive : Bool)
  | stripConversationImages (urls : List String)
  | replaceSystemHead (prompt : String)
  | cachePromptText (text : String)
  | restoreSnapshot (snapshot : ChatStateSnapshot)
  | beginTurnCapture
  | repairDanglingAfterHarnessHalt (tag : String) (answers : List (String × String))
  | popStrandedContinueReminder
  | buildConversationRequest (memoryReminder : Option String) (persistMemoryReminder : Bool)
  | truncateToPromptIndex (targetPromptIndex : Nat)
  | takeTurnMessages
  | other

open ChatStateActor in
/-- Handle one command. -/
def ChatStateActor.handleCommand (s : ChatStateActor) : ChatStateCommand → ChatStateActor
  | .pushUserMessage item => s.pushUserMessage item
  | .pushUserMessagesBatch items => items.foldl (fun s item => s.pushUserMessage item) s
  | .appendWorkingDirectorySwitchAndAck content generation commits =>
    s.appendWorkingDirectorySwitch content generation commits
  | .pushUserMessageWithRepairReason item reason => s.pushUserMessageWithRepairReason item reason
  | .pushAssistantResponse item | .pushToolResult item | .pushModelOutput item
  | .pushUnreportedModelOutput item => s.persistAndPushMessage item
  | .incrementPromptIndex => { s with promptIndex := s.promptIndex + 1 }
  | .replaceConversation items isCompaction => s.replaceConversation items isCompaction
  | .repairHistory dryRun turnActive => if turnActive then s else (s.repairHistory dryRun).1
  | .stripConversationImages urls => s.stripConversationImages urls
  | .replaceSystemHead prompt => s.replaceSystemHead prompt
  | .cachePromptText text => { s with promptTexts := s.promptTexts ++ [text] }
  | .restoreSnapshot snapshot => s.restoreSnapshot snapshot
  | .beginTurnCapture => s.beginTurnCapture
  | .repairDanglingAfterHarnessHalt tag answers => s.repairDanglingAfterHarnessHalt tag answers
  | .popStrandedContinueReminder => s.popStrandedContinueReminder
  | .buildConversationRequest memoryReminder persistMemoryReminder =>
    s.ensureConversationIntegrity.buildConversationRequest memoryReminder persistMemoryReminder
  | .truncateToPromptIndex target => { s.truncateToPromptIndex target with turnCapture := none }
  | .takeTurnMessages => s.takeTurnMessages.1
  | .other => s

/-- Handle a sequence of commands. -/
def ChatStateActor.run (s : ChatStateActor) (commands : List ChatStateCommand) : ChatStateActor :=
  commands.foldl ChatStateActor.handleCommand s

/-- The actor as it starts: the stored history, loaded and repaired. -/
def ChatStateActor.new (initialConversation : List ConversationItem)
    (pruningConfig : PruningConfig) : ChatStateActor where
  conversation :=
    (repairDanglingToolCalls .userCancelled
      (dedupDuplicateToolResults initialConversation).1).1
  promptIndex := 0
  promptTexts := []
  turnCapture := none
  pruningConfig := pruningConfig
  persisted := initialConversation
  turnTails := []

end Ezer.ChatState
