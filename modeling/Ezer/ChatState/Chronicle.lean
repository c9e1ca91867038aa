import Ezer.ChatState.TurnCapture

/-!
# When the tool results of a conversation entered it

A chronicle runs the actor beside a record that no code reads: how many prompt
turns had begun when each tool result of the conversation entered it, and the
results that pruning cleared, with their dates. Leaving the record out gives the
run of the actor.
-/

namespace Ezer.ChatState

open Ezer.Lib

/-- How many tool results a conversation holds. -/
def resultCount (items : List ConversationItem) : Nat :=
  items.countP ConversationItem.isToolResult

/-- How many user items stand before each tool result. -/
def usersBefore (users : Nat) : List ConversationItem → List Nat
  | [] => []
  | item :: rest =>
    if item.isToolResult then users :: usersBefore users rest
    else usersBefore (if item.isUser then users + 1 else users) rest

/-- Dates of results that kept their places, with the present for those that came in at the
end. -/
def dateExtended (now : Nat) (_old new : List ConversationItem) (dates : List Nat) : List Nat :=
  dates.take (resultCount new) ++ List.replicate (resultCount new - dates.length) now

/-- Dates of results that all came in at present. -/
def dateRenewed (now : Nat) (_old new : List ConversationItem) (_dates : List Nat) : List Nat :=
  List.replicate (resultCount new) now

/-- Dates of a repaired run: a kept result is the last one of its id. -/
def dateRun (now : Nat) (old new : List ToolResultItem) (dates : List Nat) : List Nat :=
  if new = old then dates
  else
    new.map fun t =>
      (((old.zip dates).reverse.find? fun entry => decide (entry.1.toolCallId = t.toolCallId)).map
        Prod.snd).getD now

/-- Dates of repaired runs, one for each run before the repair. -/
def dateRuns (now : Nat) : List (Run results) → List (Run results) → List Nat → List Nat
  | old :: olds, new :: news, dates =>
    dateRun now old.followers new.followers (dates.take old.followers.length) ++
      dateRuns now olds news (dates.drop old.followers.length)
  | _, _, _ => []

/-- Dates after a repair of the runs of a conversation. -/
def dateRepaired (now : Nat) (old new : List ConversationItem) (dates : List Nat) : List Nat :=
  let before := cut results old
  let after := cut results new
  dateRun now before.lead after.lead (dates.take before.lead.length) ++
    dateRuns now before.runs after.runs (dates.drop before.lead.length)

/-- Whether every result that came in at present stands behind enough user items: as many as
prompt turns began before the present one. -/
def grounded (promptIndex now : Nat) (items : List ConversationItem) (dates : List Nat) : Bool :=
  ((usersBefore 0 items).zip dates).all fun entry =>
    decide (entry.2 ≠ now) || decide (promptIndex ≤ entry.1 + 1)

/-- The dates of the results that differ between two versions of a conversation. -/
def clearedDates : List ConversationItem → List ConversationItem → List Nat → List Nat
  | old :: olds, new :: news, dates =>
    if old.isToolResult then
      match dates with
      | [] => []
      | date :: dates =>
        if old = new then clearedDates olds news dates else date :: clearedDates olds news dates
    else clearedDates olds news dates
  | _, _, _ => []

/-- The actor with the dates of its tool results. -/
structure Chronicle where
  actor : ChatStateActor
  /-- For each tool result, how many prompt turns had begun when it entered. -/
  dates : List Nat
  /-- The prompt turns begun so far. -/
  increments : Nat
  /-- Whether every result so far entered behind enough user items. -/
  grounded : Bool
  /-- The date of every hard-cleared result, and the turns begun when it was cleared. -/
  clears : List (Nat × Nat)

namespace Chronicle

/-- Apply an operation of the actor and date the results it leaves. -/
def move (c : Chronicle)
    (date : Nat → List ConversationItem → List ConversationItem → List Nat → List Nat)
    (f : ChatStateActor → ChatStateActor) : Chronicle :=
  let actor := f c.actor
  let dates := date c.increments c.actor.conversation actor.conversation c.dates
  { c with
    actor := actor
    dates := dates
    grounded := c.grounded &&
      ChatState.grounded actor.promptIndex c.increments actor.conversation dates }

/-- Prune the conversation and record what was cleared. -/
def prune (c : Chronicle) : Chronicle :=
  let pruned := c.actor.pruneRetainedConversation
  { c.move dateExtended ChatStateActor.pruneRetainedConversation with
    clears := c.clears ++
      (clearedDates c.actor.conversation pruned.conversation c.dates).map fun date =>
        (date, c.increments) }

/-- Begin a prompt turn. -/
def increment (c : Chronicle) : Chronicle :=
  { c with
    actor := { c.actor with promptIndex := c.actor.promptIndex + 1 }
    increments := c.increments + 1 }

/-- Push a user message: pop, repair, push and prune, each on its own. -/
def pushUserMessage (c : Chronicle) (item : ConversationItem) (reason : DanglingToolCallReason) :
    Chronicle :=
  let c := c.move dateExtended fun s =>
    if ChatStateActor.dropsContinueReminder item then s.popStrandedContinueReminder else s
  let c := c.move dateRepaired fun s => s.ensureConversationIntegrityWithReason reason
  (c.move dateExtended fun s => s.persistAndPushMessage item).prune

/-- Handle one command. -/
def handleCommand (c : Chronicle) : ChatStateCommand → Chronicle
  | .pushUserMessage item => c.pushUserMessage item .userCancelled
  | .pushUserMessagesBatch items => items.foldl (fun c item => c.pushUserMessage item .userCancelled) c
  | .pushUserMessageWithRepairReason item reason => c.pushUserMessage item reason
  | .incrementPromptIndex => c.increment
  | .replaceConversation items isCompaction =>
    c.move dateRenewed fun s => s.replaceConversation items isCompaction
  | .restoreSnapshot snapshot => c.move dateRenewed fun s => s.restoreSnapshot snapshot
  | .repairHistory dryRun turnActive =>
    c.move dateRepaired fun s => if turnActive then s else (s.repairHistory dryRun).1
  | .repairDanglingAfterHarnessHalt tag answers =>
    (c.move dateExtended ChatStateActor.popStrandedContinueReminder).move dateRepaired fun s =>
      s.ensureConversationIntegrityAnswering (.harnessHalted tag) answers
  | .buildConversationRequest memoryReminder persistMemoryReminder =>
    (c.move dateRepaired ChatStateActor.ensureConversationIntegrity).move dateExtended fun s =>
      s.buildConversationRequest memoryReminder persistMemoryReminder
  | command => c.move dateExtended fun s => s.handleCommand command

/-- Handle a sequence of commands. -/
def run (c : Chronicle) (commands : List ChatStateCommand) : Chronicle :=
  commands.foldl handleCommand c

/-- The chronicle of an actor that starts. -/
def new (initialConversation : List ConversationItem) (pruningConfig : PruningConfig) :
    Chronicle where
  actor := ChatStateActor.new initialConversation pruningConfig
  dates := List.replicate
    (resultCount (ChatStateActor.new initialConversation pruningConfig).conversation) 0
  increments := 0
  grounded := true
  clears := []

theorem handleCommand_actor (c : Chronicle) (command : ChatStateCommand) :
    (c.handleCommand command).actor = c.actor.handleCommand command := by
  cases command with
  | pushUserMessagesBatch items =>
    change (items.foldl (fun c item => c.pushUserMessage item .userCancelled) c).actor =
      items.foldl (fun s item => s.pushUserMessage item) c.actor
    induction items generalizing c with
    | nil => rfl
    | cons item items ih => exact ih (c.pushUserMessage item .userCancelled)
  | _ => rfl

/-- Without its record the run of a chronicle is the run of the actor. -/
theorem run_actor (c : Chronicle) (commands : List ChatStateCommand) :
    (c.run commands).actor = c.actor.run commands := by
  induction commands generalizing c with
  | nil => rfl
  | cons command commands ih =>
    change ((c.handleCommand command).run commands).actor = _
    rw [ih, handleCommand_actor]
    rfl

end Chronicle

end Ezer.ChatState
