import Ezer.Compaction.Queries
import Mathlib.Algebra.GroupWithZero.Nat

/-!
# One pass of history compaction

The choice of the oldest items to compact, and the pass that replaces them by
the preamble of their user queries and the summary sampled for them.
-/

namespace Ezer.Compaction

open Ezer.Lib

/-- An addition that stops at the largest 32-bit number. -/
def saturatingAdd (a b : ℕ) : ℕ := min (a + b) (2 ^ 32 - 1)

/-- How many items to compact, and what they weigh. -/
structure SplitPlan where
  splitIdx : ℕ
  tokensToCompact : ℕ

/-- How many of the newest items, given newest first, fit the budget. -/
def keptItems (targetTokens : ℕ) : List ℕ → ℕ → ℕ
  | [], _ => 0
  | count :: counts, kept =>
    if saturatingAdd kept count > targetTokens then 0
    else keptItems targetTokens counts (saturatingAdd kept count) + 1

/-- What the compaction is set up with: the smallest region worth compacting, where user
messages are cut, and whether a weight is too close to the one it replaces. -/
structure Policy where
  minCompactableTokens : ℕ
  userMessageTruncateChars : ℕ
  insufficientReduction : ℕ → ℕ → Bool

/-- Why a pass changed nothing. -/
inductive IntraCompactionError where
  | nothingToCompact
  | insufficientReduction (tokensBefore tokensAfter : ℕ)
  | sampler

/-- How a pass ends: without a summary asked for, or with what the summarizer was fed and
the history to go on with. -/
inductive PassOutcome (τ : Type*) where
  | notRun (error : IntraCompactionError)
  | discarded (turnsForLlm : List τ) (error : IntraCompactionError)
  | committed (turnsForLlm : List τ) (history : List τ)

section Items

variable {τ : Type*}

/-- What the summarizer was fed in a pass. -/
def PassOutcome.fed : PassOutcome τ → List τ
  | .notRun _ => []
  | .discarded turnsForLlm _ => turnsForLlm
  | .committed turnsForLlm _ => turnsForLlm

/-- The first place from here on that does not part a tool call from its results. -/
def snapToSafeBoundary [CompactionItem τ] (items : List τ) (candidate : ℕ) : ℕ :=
  candidate + ((items.drop candidate).takeWhile CompactionItem.isToolResult).length

/-- How many of the oldest items are compacted, if it is worth it. -/
def selectTurnsToCompact [CompactionItem τ] (itemTokenCounts : List ℕ) (items : List τ)
    (targetTokens minCompactable : ℕ) : Option SplitPlan :=
  if items.isEmpty then none
  else
    let splitIdx := items.length - keptItems targetTokens itemTokenCounts.reverse 0
    if splitIdx = 0 then none
    else
      let safeSplitIdx := snapToSafeBoundary items splitIdx
      if items.length ≤ safeSplitIdx then none
      else
        let tokensToCompact := (itemTokenCounts.take safeSplitIdx).foldl saturatingAdd 0
        if tokensToCompact < minCompactable then none
        else some ⟨safeSplitIdx, tokensToCompact⟩

/-- What is compacted is neither nothing nor everything. -/
theorem selectTurnsToCompact_bounds [CompactionItem τ] {counts : List ℕ} {items : List τ}
    {targetTokens minCompactable : ℕ} {plan : SplitPlan}
    (h : selectTurnsToCompact counts items targetTokens minCompactable = some plan) :
    0 < plan.splitIdx ∧ plan.splitIdx < items.length := by
  unfold selectTurnsToCompact at h
  split at h
  · cases h
  dsimp only at h
  split at h
  · cases h
  split at h
  · cases h
  split at h
  · cases h
  cases h
  have hsnap : items.length - keptItems targetTokens counts.reverse 0 ≤
      snapToSafeBoundary items (items.length - keptItems targetTokens counts.reverse 0) :=
    Nat.le_add_right _ _
  dsimp only
  omega

/-- One pass over the oldest items of a history, with the text the summarizer answers. -/
def compactOnePass [CompactionItemBuilder τ] (policy : Policy) (countItemTokens : τ → ℕ)
    (targetTokens : ℕ) (sampled : Option Text) (sourceTurns : List τ) : PassOutcome τ :=
  match selectTurnsToCompact (sourceTurns.map countItemTokens) sourceTurns targetTokens
      policy.minCompactableTokens with
  | none => .notRun .nothingToCompact
  | some plan =>
    let turnsToCompact := sourceTurns.take plan.splitIdx
    let separated := separatePriorUserQueries turnsToCompact
    match sampled with
    | none => .discarded separated.turnsForLlm .sampler
    | some summaryText =>
      let currentUserQueries :=
        extractUserQueriesFromTurns turnsToCompact policy.userMessageTruncateChars
      let preamble := assembleUserQueriesPreamble separated.priorUserQueries currentUserQueries
      let compactionTurn := CompactionItemBuilder.compactionSummaryItem (preamble ++ summaryText)
      let tokensAfter := countItemTokens compactionTurn
      if 0 < plan.tokensToCompact ∧ policy.insufficientReduction plan.tokensToCompact tokensAfter
      then .discarded separated.turnsForLlm
        (.insufficientReduction plan.tokensToCompact tokensAfter)
      else .committed separated.turnsForLlm (compactionTurn :: sourceTurns.drop plan.splitIdx)

/-- The summarizer is fed the items compacted, with the earlier queries taken out. -/
theorem compactOnePass_fed [CompactionItemBuilder τ] (policy : Policy) (countItemTokens : τ → ℕ)
    (targetTokens : ℕ) (sampled : Option Text) (sourceTurns : List τ) :
    (compactOnePass policy countItemTokens targetTokens sampled sourceTurns).fed = [] ∨
      ∃ k, 0 < k ∧ (compactOnePass policy countItemTokens targetTokens sampled sourceTurns).fed =
        (separatePriorUserQueries (sourceTurns.take k)).turnsForLlm := by
  unfold compactOnePass
  split
  · exact .inl rfl
  · rename_i plan hplan
    refine .inr ⟨plan.splitIdx, (selectTurnsToCompact_bounds hplan).1, ?_⟩
    split
    · rfl
    · dsimp only
      split <;> rfl

/-- A committed pass puts the preamble and the answer in place of the items compacted. -/
theorem compactOnePass_committed [CompactionItemBuilder τ] {policy : Policy}
    {countItemTokens : τ → ℕ} {targetTokens : ℕ} {sampled : Option Text}
    {sourceTurns turnsForLlm history : List τ}
    (h : compactOnePass policy countItemTokens targetTokens sampled sourceTurns =
      .committed turnsForLlm history) :
    ∃ k answer, 0 < k ∧ sampled = some answer ∧
      history = CompactionItemBuilder.compactionSummaryItem
        (assembleUserQueriesPreamble
          (separatePriorUserQueries (sourceTurns.take k)).priorUserQueries
          (extractUserQueriesFromTurns (sourceTurns.take k) policy.userMessageTruncateChars) ++
          answer) :: sourceTurns.drop k := by
  unfold compactOnePass at h
  split at h
  · cases h
  · rename_i plan hplan
    split at h
    · cases h
    · rename_i answer
      dsimp only at h
      split at h
      · cases h
      · cases h
        exact ⟨plan.splitIdx, answer, (selectTurnsToCompact_bounds hplan).1, rfl, rfl⟩

/-- What happens to a conversation: a turn is added, or a pass over the history is tried. -/
inductive Event (τ : Type*) where
  | turn (item : τ)
  | compact (targetTokens : ℕ) (sampled : Option Text)

/-- What one event makes of a history. -/
def step [CompactionItemBuilder τ] (policy : Policy) (countItemTokens : τ → ℕ)
    (history : List τ) : Event τ → List τ
  | .turn item => history ++ [item]
  | .compact targetTokens sampled =>
    match compactOnePass policy countItemTokens targetTokens sampled history with
    | .notRun _ => history
    | .discarded _ _ => history
    | .committed _ history => history

/-- The history after a run of events. -/
def run [CompactionItemBuilder τ] (policy : Policy) (countItemTokens : τ → ℕ)
    (events : List (Event τ)) : List τ :=
  events.foldl (step policy countItemTokens) []

end Items

end Ezer.Compaction
