import Ezer.Lib.Split
import Ezer.Lib.Trim
import Mathlib.Data.List.MinMax

/-!
# User queries in compacted histories

A history compaction replaces the oldest items of a conversation by a summary.
The user queries among them are kept word for word in a tagged block in front
of the summary, and found again by the tags when the summary is compacted.
-/

namespace Ezer.Compaction

open Ezer.Lib

/-- Who an item of a conversation belongs to. -/
inductive CompactionRole where
  | system
  | developer
  | user
  | assistant
  | tool
  deriving DecidableEq

/-- A file attached to a user item. -/
structure CompactionFileRef where
  id : Text
  name : Text

/-- A conversation item as the compaction reads it. -/
class CompactionItem (τ : Type*) where
  role : τ → CompactionRole
  text : τ → Option Text
  isToolResult : τ → Bool
  isCompactionSummary : τ → Bool
  attachmentRefs : τ → List CompactionFileRef

/-- Items that can carry a summary back into the conversation, as developer items that give
the summary back. -/
class CompactionItemBuilder (τ : Type*) extends CompactionItem τ where
  compactionSummaryItem : Text → τ
  isCompactionSummary_summaryItem : ∀ t, isCompactionSummary (compactionSummaryItem t) = true
  role_summaryItem : ∀ t, role (compactionSummaryItem t) = .developer
  text_summaryItem : ∀ t, (text (compactionSummaryItem t)).getD [] = t

/-- The text that opens a block of user queries. -/
def startTag : Text := "<ezer_user_queries>".toList

/-- The text that closes a block of user queries. -/
def endTag : Text := "</ezer_user_queries>".toList

/-- The pairs of tags in use, the present one and the one of older sessions. -/
def tags : List (Text × Text) := [(startTag, endTag), (startTag, endTag)]

/-- The text before the next opening tag, and the pair of tags it belongs to. -/
def nextBlock (text : Text) : Option (Text × Text × Text) :=
  (tags.filterMap fun (start, stop) =>
    (splitOnce start text).map fun (before, _) => (before, start, stop)).argmin
      fun found => found.1.length

/-- The rest of a summary with one more piece of it, trimmed and on a line of its own. -/
def pushTrimmed (rest piece : Text) : Text :=
  let piece := trim piece
  if piece = [] then rest
  else if rest = [] then piece
  else rest ++ '\n' :: piece

theorem nextBlock_eq (text : Text) :
    nextBlock text = (splitOnce startTag text).map fun (before, _) => (before, startTag, endTag) := by
  unfold nextBlock tags
  cases h : splitOnce startTag text with
  | none => simp [h]
  | some found => simp [h, List.argmin, List.argAux]

theorem endTag_length_pos : 0 < endTag.length := by decide

/-- What is behind a block is shorter than the text before the block was found. -/
theorem behind_shorter {text before start stop block behind : Text}
    (hnext : nextBlock text = some (before, start, stop))
    (hstop : splitOnce stop (text.drop before.length) = some (block, behind)) :
    behind.length < text.length := by
  rw [nextBlock_eq] at hnext
  obtain ⟨found, -, heq⟩ := Option.map_eq_some_iff.mp hnext
  obtain ⟨-, -, rfl⟩ : found.1 = before ∧ startTag = start ∧ endTag = stop := by simpa using heq
  have hsplit := congrArg List.length (eq_of_splitOnce hstop)
  have hpos := endTag_length_pos
  simp only [List.length_append, List.length_drop] at hsplit
  omega

/-- The blocks of user queries from here on, and the rest of the text between them. -/
def splitLoop (text : Text) (userSections : List Text) (rest : Text) : List Text × Text :=
  match _hnext : nextBlock text with
  | none => (userSections, pushTrimmed rest text)
  | some (before, _, stop) =>
    match _hstop : splitOnce stop (text.drop before.length) with
    | none => (userSections, pushTrimmed rest text)
    | some (block, behind) =>
      splitLoop behind (userSections ++ [block ++ stop]) (pushTrimmed rest before)
termination_by text.length
decreasing_by exact behind_shorter ‹_› ‹_›

/-- The blocks of user queries of a summary, and the rest of it. -/
def splitPriorCompactionText (text : Text) : Option Text × Text :=
  let (userSections, rest) := splitLoop text [] []
  if userSections.isEmpty then (none, text) else (some (joinLines userSections), rest)

/-- A message with its middle cut out if it is too long. -/
def truncateMiddle (msg : Text) (maxChars : ℕ) : Option Text :=
  if msg.length ≤ maxChars then none
  else
    let frontLen := maxChars / 2
    let backLen := maxChars - frontLen
    some (msg.take frontLen ++ "...[truncated]...".toList ++ msg.drop (msg.length - backLen))

/-- The line for an attached file. -/
def fileLine (att : CompactionFileRef) : Text :=
  "<ezer_file id=\"".toList ++ att.id ++ "\" name=\"".toList ++ att.name ++ "\" />\n".toList

section Items

variable {τ : Type*}

/-- The text of a user item as it is written into the block. -/
def queryText [CompactionItem τ] (userTruncateChars : ℕ) (turn : τ) : Text :=
  let text := (CompactionItem.text turn).getD []
  (truncateMiddle text userTruncateChars).getD text

/-- The element of a user item, unless it has neither text nor attachments. -/
def queryElement [CompactionItem τ] (userTruncateChars : ℕ) (turn : τ) : Option Text :=
  if CompactionItem.role turn ≠ .user then none
  else
    let attachments := CompactionItem.attachmentRefs turn
    if (CompactionItem.text turn).getD [] = [] ∧ attachments = [] then none
    else
      some ("<ezer_query>".toList ++ queryText userTruncateChars turn ++
        (if attachments = [] then [] else '\n' :: attachments.flatMap fileLine) ++
        "</ezer_query>\n".toList)

/-- The block of the user queries among the items. -/
def extractUserQueriesFromTurns [CompactionItem τ] (turns : List τ) (userTruncateChars : ℕ) :
    Option Text :=
  let elements := turns.filterMap (queryElement userTruncateChars)
  if elements.isEmpty then none
  else some (startTag ++ '\n' :: elements.flatten ++ endTag)

/-- The items of a history with the user queries of earlier summaries taken out. -/
structure SeparatedHistoryTurns (τ : Type*) where
  turnsForLlm : List τ
  priorUserQueries : Option Text
  hasPriorCompaction : Bool

/-- One more item of the history read. -/
def separateTurn [CompactionItemBuilder τ] (acc : SeparatedHistoryTurns τ) (turn : τ) :
    SeparatedHistoryTurns τ :=
  if CompactionItem.isCompactionSummary turn then
    let (userSection, rest) := splitPriorCompactionText ((CompactionItem.text turn).getD [])
    { turnsForLlm :=
        if rest = [] then acc.turnsForLlm
        else acc.turnsForLlm ++ [CompactionItemBuilder.compactionSummaryItem rest]
      priorUserQueries :=
        match userSection, acc.priorUserQueries with
        | none, prior => prior
        | some userSec, some existing => some (existing ++ '\n' :: userSec)
        | some userSec, none => some userSec
      hasPriorCompaction := true }
  else { acc with turnsForLlm := acc.turnsForLlm ++ [turn] }

/-- Every earlier summary of a history split into its user queries and the rest. -/
def separatePriorUserQueries [CompactionItemBuilder τ] (turns : List τ) :
    SeparatedHistoryTurns τ :=
  turns.foldl separateTurn ⟨[], none, false⟩

end Items

/-- The text put in front of a new summary. -/
def assembleUserQueriesPreamble (prior current : Option Text) : Text :=
  (match prior with
    | some p => p ++ "\n\n".toList
    | none => []) ++
  (match current with
    | some c => c ++ "\n\n".toList
    | none => [])

end Ezer.Compaction
