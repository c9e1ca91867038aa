import Ezer.Lib.Decimal
import Ezer.Lib.Slices
import Ezer.Sampling.MessagesRequest

/-!
# Fitting a conversation into a budget

A conversation that is to be summarized has to fit into a window. Whole turns
go from its start until the rest fits; when not even the last turn fits, the
texts of that turn are cut.
-/

namespace Ezer.ChatState

open Ezer.Lib Ezer.Sampling

/-- The bytes of a string. -/
def len (s : String) : ℕ := byteLen s.toList

/-- The bytes that count as a token. -/
def bytesPerToken : ℕ := 4

/-- The tokens that an image counts as. -/
def imageTokenEstimate : ℕ := 765

/-- The tokens that a string counts as. -/
def estimateTokens (s : String) : ℕ := len s / bytesPerToken

/-- The tokens that images count as. -/
def estimateImageTokens (images : ℕ) : ℕ := images * imageTokenEstimate

/-- The bytes of the texts of a message, and the number of its images. -/
def partCosts : List ContentPart → ℕ × ℕ
  | [] => (0, 0)
  | .text text :: parts => (len text + (partCosts parts).1, (partCosts parts).2)
  | .image _ :: parts => ((partCosts parts).1, (partCosts parts).2 + 1)

/-- The tokens that an item counts as. -/
def estimateItemTokens : ConversationItem → ℕ
  | .system s => estimateTokens s.content
  | .user u =>
    (partCosts u.content).1 / bytesPerToken + estimateImageTokens (partCosts u.content).2
  | .assistant a =>
    (len a.content + (a.toolCalls.map fun call => len call.arguments).sum) / bytesPerToken
  | .toolResult r => estimateTokens r.content
  | .backendToolCall kind => estimateTokens (textSummary kind)
  | .reasoning r =>
    let textBytes := len (reasoningItemText r)
    let encBytes := (r.encryptedContent.map len).getD 0
    max textBytes (encBytes * 3 / 4) / bytesPerToken

/-- The tokens that items count as. -/
def estimateConversationTokens (items : List ConversationItem) : ℕ :=
  (items.map estimateItemTokens).sum

/-- The bytes that are left to the marker of a cut. -/
def markerReserve : ℕ := 64

/-- What stands behind a text that was cut. -/
def truncationMarker (dropped : ℕ) : Text :=
  "\n[... truncated ".toList ++ digits dropped ++
    " bytes to fit the compaction window ...]".toList

/-- A text cut to so many bytes, or nothing when it has no more than these. -/
def truncateTextToBytes (s : String) (maxBytes : ℕ) : Option String :=
  if len s ≤ maxBytes then none
  else
    let keep := maxBytes - markerReserve
    let kept := truncateBytes s (min keep (len s))
    let dropped := len s - len kept
    some (kept ++ String.ofList (truncationMarker dropped))

/-- A piece of a message cut to so many bytes. -/
def truncatePart (maxBytes : ℕ) : ContentPart → ContentPart
  | .text text => .text ((truncateTextToBytes text maxBytes).getD text)
  | .image url => .image url

/-- An item with its texts cut to so many tokens. -/
def truncateItemToTokens (item : ConversationItem) (maxTokens : ℕ) : ConversationItem :=
  let maxBytes := maxTokens * 4
  match item with
  | .toolResult t =>
    .toolResult { t with content := (truncateTextToBytes t.content maxBytes).getD t.content }
  | .assistant a =>
    .assistant { a with content := (truncateTextToBytes a.content maxBytes).getD a.content }
  | .user u => .user { u with content := u.content.map (truncatePart maxBytes) }
  | item => item

/-- Whether an item calls tools. -/
def ConversationItem.callsTools : ConversationItem → Bool
  | .assistant a => !a.toolCalls.isEmpty
  | _ => false

/-- The last turn, cut to a budget with the item that owns its results. -/
def recoverTruncatedTailUnit (body : List ConversationItem) (budget : ℕ) :
    List ConversationItem :=
  let results := (body.reverse.takeWhile ConversationItem.isToolResult).reverse
  let rest := (body.reverse.dropWhile ConversationItem.isToolResult).reverse
  if results.isEmpty then
    match rest.getLast? with
    | some item => [truncateItemToTokens item budget]
    | none => []
  else
    let owner := rest.getLast?.filter ConversationItem.callsTools
    let ownerCost := (owner.map estimateItemTokens).getD 0
    let resultBudget := budget - ownerCost
    let per := max (resultBudget / results.length) 1
    owner.toList ++ results.map fun r => truncateItemToTokens r per

/-- How many of the last items fit, from the last one on. -/
def recentCount : ℕ → List ConversationItem → ℕ
  | _, [] => 0
  | remaining, item :: earlier =>
    if remaining < estimateItemTokens item then 0
    else recentCount (remaining - estimateItemTokens item) earlier + 1

/-- The system message that opens a conversation, and the rest. -/
def splitHead : List ConversationItem → List ConversationItem × List ConversationItem
  | .system s :: body => ([.system s], body)
  | body => ([], body)

/-- Shrink a conversation to so many tokens. -/
def fitConversationToBudget (conversation : List ConversationItem) (maxTokens : ℕ) :
    List ConversationItem :=
  if estimateConversationTokens conversation ≤ maxTokens then conversation
  else
    let (head, body) := splitHead conversation
    let budget := maxTokens - estimateConversationTokens head
    let start := body.length - recentCount budget body.reverse
    let kept := (body.drop start).dropWhile ConversationItem.isToolResult
    if kept.isEmpty then head ++ recoverTruncatedTailUnit body budget else head ++ kept

end Ezer.ChatState
