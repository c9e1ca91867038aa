import Mathlib.Data.List.Forall2
import Ezer.Compaction.OnePass

/-!
# Fitting the input of the summarizer

The ordered ladder that brings a history and the steps after it under a budget of tokens:
the oldest history turns go first, then oversized tool results are clipped, then the oldest
steps go, and at last the newest turn alone is kept.
-/

namespace Ezer.Compaction

open Ezer.Lib

/-- Items a summarizer input is fitted from. -/
class FitItem (τ : Type*) extends CompactionItem τ where
  hasToolRequests : τ → Bool
  truncatePayloadForCompaction : τ → ℕ → τ

/-- Which stage of the ladder first made the input fit. -/
inductive FitRung where
  | verbatim
  | historyTurnSelected
  | toolTruncated
  | stepTurnsSelected
  | emergency
  deriving DecidableEq

/-- The place of a rung on the ladder. -/
def FitRung.stage : FitRung → ℕ
  | .verbatim => 0
  | .historyTurnSelected => 1
  | .toolTruncated => 2
  | .stepTurnsSelected => 3
  | .emergency => 4

/-- What the summarizer is given. -/
structure FitPlan (τ : Type*) where
  llmTurns : List τ
  tokensRaw : ℕ
  tokensFit : ℕ
  rung : FitRung
  itemsTruncated : ℕ
  historyTurnsOmitted : ℕ
  stepTurnsOmitted : ℕ

/-- A length as the 32-bit number it is cast to. -/
def asU32 (n : ℕ) : ℕ := n % 2 ^ 32

/-- The saturating sum of token counts. -/
def sumCounts (counts : List ℕ) : ℕ := counts.foldl saturatingAdd 0

/-- One side of the input after a selection: its turns, their counts and how many went. -/
structure Kept (τ : Type*) where
  turns : List τ
  counts : List ℕ
  omitted : ℕ

section Ladder

variable {τ : Type*} (counter : τ → ℕ) (budget : ℕ)

/-- The tokens of each turn. -/
def tokenCounts (turns : List τ) : List ℕ := turns.map counter

/-- The tokens of all turns. -/
def sumTokens (turns : List τ) : ℕ := sumCounts (tokenCounts counter turns)

/-- The longest run of newest turns within the budget. -/
def newestWithin : List τ → List τ
  | [] => []
  | turn :: turns =>
    if sumTokens counter (turn :: turns) ≤ budget then turn :: turns else newestWithin turns

theorem tokenCounts_append (turns others : List τ) :
    tokenCounts counter (turns ++ others) = tokenCounts counter turns ++ tokenCounts counter others :=
  List.map_append

variable [FitItem τ]

/-- A tool result that alone exceeds the budget is clipped, any other turn left alone. -/
def shrinkOversized (turn : τ) : τ :=
  if CompactionItem.isToolResult turn ∧ counter turn > budget then
    FitItem.truncatePayloadForCompaction turn budget
  else turn

/-- Clips the tool results that alone exceed the budget, and counts them. -/
def shrinkOversizedToolResults (turns : List τ) : List τ × ℕ :=
  (turns.map (shrinkOversized counter budget),
    asU32 (turns.countP fun turn => CompactionItem.isToolResult turn ∧ counter turn > budget))

/-- The newest turns under the budget, and how many turns went before them. -/
def keepRecentUnderBudget (turns : List τ) (counts : List ℕ) (budget : ℕ) :
    Option (List τ × ℕ) :=
  if turns.isEmpty then some ([], 0)
  else if budget = 0 then some ([], asU32 turns.length)
  else if sumCounts counts ≤ budget then some (turns, 0)
  else
    match selectTurnsToCompact counts turns budget 0 with
    | none => none
    | some plan => some (turns.drop plan.splitIdx, asU32 plan.splitIdx)

/-- What is kept of one side of the input beside another that takes `otherTokens`. -/
def keepBeside (turns : List τ) (counts : List ℕ) (otherTokens : ℕ) : Kept τ :=
  if otherTokens < budget then
    if sumCounts counts > budget - otherTokens then
      match keepRecentUnderBudget turns counts (budget - otherTokens) with
      | some (keep, omitted) => ⟨keep, counts.drop omitted, omitted⟩
      | none => ⟨[], [], asU32 turns.length⟩
    else ⟨turns, counts, 0⟩
  else ⟨[], [], asU32 turns.length⟩

/-- The plan that hands over what is left of both sides. -/
def planOk (history steps : List τ) (tokensRaw : ℕ) (rung : FitRung)
    (itemsTruncated historyTurnsOmitted stepTurnsOmitted : ℕ) : FitPlan τ :=
  ⟨history ++ steps, tokensRaw, sumTokens counter (history ++ steps), rung, itemsTruncated,
    historyTurnsOmitted, stepTurnsOmitted⟩

/-- What the last resort takes the newest turn of, and how many turns go before it. -/
def emergencySource (history steps hist step : List τ) (histOmitted stepOmitted : ℕ) :
    List τ × ℕ × ℕ :=
  if (hist ++ step).isEmpty then
    -- the ladder emptied the input: start again from the original newest turn
    if steps.isEmpty then (history ++ steps, asU32 (history.length - 1), 0)
    else (history ++ steps, asU32 history.length, asU32 (steps.length - 1))
  else if step.isEmpty then
    (hist ++ step, saturatingAdd histOmitted (asU32 (hist.length - 1)), stepOmitted)
  else
    (hist ++ step, saturatingAdd histOmitted (asU32 hist.length),
      saturatingAdd stepOmitted (asU32 (step.length - 1)))

/-- The last resort: the newest turn alone, hard-shrunk to the budget. -/
def emergencyPlan (history steps : List τ) (tokensRaw itemsTruncated : ℕ) (hist step : List τ)
    (histOmitted stepOmitted : ℕ) : FitPlan τ :=
  let source := emergencySource history steps hist step histOmitted stepOmitted
  match source.1.getLast? with
  | none => ⟨[], tokensRaw, 0, .emergency, itemsTruncated, source.2.1, source.2.2⟩
  | some newest =>
    let last := [FitItem.truncatePayloadForCompaction newest budget]
    ⟨last, tokensRaw, sumTokens counter last, .emergency, saturatingAdd itemsTruncated 1,
      source.2.1, source.2.2⟩

/-- The ladder from its third stage on: the oldest steps go. -/
def selectStepTurns (history steps : List τ) (tokensRaw itemsTruncated : ℕ)
    (hist step : List τ) (histOmitted : ℕ) : FitPlan τ :=
  let histCounts := tokenCounts counter hist
  let kept := keepBeside budget step (tokenCounts counter step) (sumCounts histCounts)
  let afterStepTokens := saturatingAdd (sumCounts histCounts) (sumCounts kept.counts)
  if afterStepTokens ≤ budget ∧ (hist ≠ [] ∨ kept.turns ≠ []) then
    planOk counter hist kept.turns tokensRaw .stepTurnsSelected itemsTruncated histOmitted
      kept.omitted
  else
    emergencyPlan counter budget history steps tokensRaw itemsTruncated hist kept.turns
      histOmitted kept.omitted

/-- The ladder from its second stage on: oversized tool results are clipped. -/
def truncateTools (history steps : List τ) (tokensRaw : ℕ) (hist : List τ)
    (histOmitted : ℕ) : FitPlan τ :=
  let hist₂ := shrinkOversizedToolResults counter budget hist
  let step₂ := shrinkOversizedToolResults counter budget steps
  let itemsTruncated := saturatingAdd hist₂.2 step₂.2
  if saturatingAdd (sumTokens counter hist₂.1) (sumTokens counter step₂.1) ≤ budget then
    planOk counter hist₂.1 step₂.1 tokensRaw .toolTruncated itemsTruncated histOmitted 0
  else
    selectStepTurns counter budget history steps tokensRaw itemsTruncated hist₂.1 step₂.1
      histOmitted

/-- Fits the history and the steps after it into a budget of tokens. -/
def fitTurnsForSummarizer (history steps : List τ) : FitPlan τ :=
  let histCounts := tokenCounts counter history
  let stepCounts := tokenCounts counter steps
  let tokensRaw := saturatingAdd (sumCounts histCounts) (sumCounts stepCounts)
  if budget = 0 then
    ⟨[], tokensRaw, 0, .emergency, 0, asU32 history.length, asU32 steps.length⟩
  else if tokensRaw ≤ budget then planOk counter history steps tokensRaw .verbatim 0 0 0
  else
    let kept := keepBeside budget history histCounts (sumCounts stepCounts)
    if saturatingAdd (sumCounts kept.counts) (sumCounts stepCounts) ≤ budget then
      planOk counter kept.turns steps tokensRaw .historyTurnSelected 0 kept.omitted 0
    else truncateTools counter budget history steps tokensRaw kept.turns kept.omitted

end Ladder

/-! ### What a fitted input is to be -/

section Sound

variable {τ : Type*} [FitItem τ] (counter : τ → ℕ) (budget : ℕ)

/-- The turns kept start with a tool result whose request is the last of those dropped. -/
def Orphaned (dropped kept : List τ) : Prop :=
  ∃ (before : List τ) (request : τ) (results : List τ) (result : τ) (rest : List τ),
    dropped = before ++ request :: results ∧ kept = result :: rest ∧
      FitItem.hasToolRequests request ∧ (∀ r ∈ results, CompactionItem.isToolResult r) ∧
      CompactionItem.isToolResult result

/-- Whether a rung can bring the input under the budget. -/
def FitRung.Fits (history steps : List τ) : FitRung → Prop
  | .verbatim => sumTokens counter (history ++ steps) ≤ budget
  | .historyTurnSelected =>
    ∃ kept, kept <:+ history ∧ sumTokens counter (kept ++ steps) ≤ budget
  | .toolTruncated =>
    ∃ kept, kept <:+ history ∧
      sumTokens counter ((kept ++ steps).map (shrinkOversized counter budget)) ≤ budget
  | .stepTurnsSelected =>
    ∃ turn kept, turn :: kept <:+ steps.map (shrinkOversized counter budget) ∧
      ¬ CompactionItem.isToolResult turn ∧ sumTokens counter (turn :: kept) ≤ budget
  | .emergency => True

/-- A turn as it stands in the plan: itself, or a tool result clipped. -/
def Clipped (turn given : τ) : Prop :=
  given = turn ∨
    (CompactionItem.isToolResult turn ∧
      given = FitItem.truncatePayloadForCompaction turn budget)

/-- A plan for a history and the steps after it that a summarizer can be given. -/
structure FitPlan.Sound (history steps : List τ) (plan : FitPlan τ) : Prop where
  nonempty : plan.llmTurns ≠ []
  suffix : plan.rung ≠ .emergency →
    ∃ turns, turns <:+ history ++ steps ∧ List.Forall₂ (Clipped budget) turns plan.llmTurns
  newest : plan.rung = .emergency →
    ∃ older newest, history ++ steps = older ++ [newest] ∧
      plan.llmTurns = [FitItem.truncatePayloadForCompaction newest budget]
  counted : plan.historyTurnsOmitted + plan.stepTurnsOmitted + plan.llmTurns.length =
    (history ++ steps).length
  tokens : plan.tokensFit = sumTokens counter plan.llmTurns
  within : plan.rung ≠ .emergency → plan.tokensFit ≤ budget
  paired : plan.rung ≠ .emergency →
    ¬ Orphaned ((history ++ steps).take
      ((history ++ steps).length - plan.llmTurns.length)) plan.llmTurns
  first : ∀ rung : FitRung, rung.stage < plan.rung.stage →
    ¬ rung.Fits counter budget history steps

/-- The newest turns within the budget, from the first that is not a tool result. -/
def recentTurns (turns : List τ) : List τ :=
  if budget = 0 then []
  else (newestWithin counter budget turns).dropWhile CompactionItem.isToolResult

end Sound

/-! ### Saturating sums -/

theorem foldl_saturatingAdd (counts : List ℕ) {start : ℕ} (h : start ≤ 2 ^ 32 - 1) :
    counts.foldl saturatingAdd start = min (start + counts.sum) (2 ^ 32 - 1) := by
  induction counts generalizing start with
  | nil => rw [List.foldl_nil, List.sum_nil, Nat.add_zero, Nat.min_eq_left h]
  | cons count counts ih =>
    rw [List.foldl_cons, ih (by unfold saturatingAdd; omega), List.sum_cons]
    unfold saturatingAdd
    omega

theorem sumCounts_eq (counts : List ℕ) : sumCounts counts = min counts.sum (2 ^ 32 - 1) := by
  rw [sumCounts, foldl_saturatingAdd counts (Nat.zero_le _), Nat.zero_add]

/-- The sums of two sides, added, are the sum over both. -/
theorem saturatingAdd_sumCounts (counts others : List ℕ) :
    saturatingAdd (sumCounts counts) (sumCounts others) = sumCounts (counts ++ others) := by
  rw [sumCounts_eq, sumCounts_eq, sumCounts_eq, List.sum_append]
  unfold saturatingAdd
  omega

section Sums

variable {τ : Type*} (counter : τ → ℕ)

@[simp] theorem sumCounts_nil : sumCounts [] = 0 := rfl

@[simp] theorem sumTokens_nil : sumTokens counter [] = 0 := rfl

theorem saturatingAdd_sumTokens (turns others : List τ) :
    saturatingAdd (sumTokens counter turns) (sumTokens counter others) =
      sumTokens counter (turns ++ others) := by
  rw [sumTokens, sumTokens, saturatingAdd_sumCounts, ← tokenCounts_append, sumTokens]

theorem saturatingAdd_zero_sumTokens (turns : List τ) :
    saturatingAdd 0 (sumTokens counter turns) = sumTokens counter turns :=
  saturatingAdd_sumTokens counter [] turns

/-- Turns in front only add to the sum. -/
theorem sumTokens_le_append (turns others : List τ) :
    sumTokens counter others ≤ sumTokens counter (turns ++ others) := by
  rw [← saturatingAdd_sumTokens]
  have h : sumTokens counter others ≤ 2 ^ 32 - 1 := by
    rw [sumTokens, sumCounts_eq]
    exact Nat.min_le_right _ _
  unfold saturatingAdd
  omega

theorem sumTokens_le_of_suffix {turns others : List τ} (h : others <:+ turns) :
    sumTokens counter others ≤ sumTokens counter turns := by
  obtain ⟨front, rfl⟩ := h
  exact sumTokens_le_append counter front others

/-- Turns over the budget beside others are over what the others leave of it. -/
theorem sub_lt_sumTokens {budget : ℕ} {turns others : List τ}
    (hothers : sumTokens counter others ≤ budget)
    (h : budget < sumTokens counter (turns ++ others)) :
    budget - sumTokens counter others < sumTokens counter turns := by
  rw [← saturatingAdd_sumTokens] at h
  unfold saturatingAdd at h
  omega

/-- Turns within what others leave of a budget are within it beside them. -/
theorem sumTokens_append_le {budget : ℕ} {turns others : List τ}
    (hothers : sumTokens counter others ≤ budget)
    (hturns : sumTokens counter turns ≤ budget - sumTokens counter others) :
    sumTokens counter (turns ++ others) ≤ budget := by
  rw [← saturatingAdd_sumTokens]
  unfold saturatingAdd
  omega

end Sums

/-! ### The newest turns within a budget -/

section Recent

variable {τ : Type*} (counter : τ → ℕ) (budget : ℕ)

theorem newestWithin_suffix (turns : List τ) : newestWithin counter budget turns <:+ turns := by
  induction turns with
  | nil => exact List.suffix_rfl
  | cons turn turns ih =>
    unfold newestWithin
    split
    · exact List.suffix_rfl
    · exact ih.trans (List.suffix_cons turn turns)

theorem sumTokens_newestWithin_le (turns : List τ) :
    sumTokens counter (newestWithin counter budget turns) ≤ budget := by
  induction turns with
  | nil => exact Nat.zero_le _
  | cons turn turns ih =>
    unfold newestWithin
    split
    · assumption
    · exact ih

theorem suffix_newestWithin {turns kept : List τ} (hkept : kept <:+ turns)
    (hwithin : sumTokens counter kept ≤ budget) :
    kept <:+ newestWithin counter budget turns := by
  induction turns with
  | nil => exact hkept
  | cons turn turns ih =>
    unfold newestWithin
    split
    · exact hkept
    · rename_i hover
      obtain rfl | hkept := List.suffix_cons_iff.1 hkept
      · exact absurd hwithin hover
      · exact ih hkept

variable [FitItem τ]

theorem recentTurns_suffix (turns : List τ) : recentTurns counter budget turns <:+ turns := by
  unfold recentTurns
  split
  · exact List.nil_suffix
  · exact (List.dropWhile_suffix _).trans (newestWithin_suffix counter budget turns)

theorem sumTokens_recentTurns_le (turns : List τ) :
    sumTokens counter (recentTurns counter budget turns) ≤ budget := by
  unfold recentTurns
  split
  · exact Nat.zero_le _
  · exact (sumTokens_le_of_suffix counter (List.dropWhile_suffix _)).trans
      (sumTokens_newestWithin_le counter budget turns)

/-- The turns kept do not start with a tool result. -/
theorem not_orphaned_recentTurns {dropped turns others : List τ}
    (h : recentTurns counter budget turns ≠ []) :
    ¬ Orphaned dropped (recentTurns counter budget turns ++ others) := by
  rintro ⟨before, request, results, result, rest, -, hkept, -, -, hresult⟩
  unfold recentTurns at h hkept
  split at h
  · exact h rfl
  · rename_i hb
    rw [if_neg hb] at hkept
    obtain ⟨turn, kept, hturns⟩ := List.exists_cons_of_ne_nil h
    have hhead := List.head_dropWhile_not CompactionItem.isToolResult h
    simp only [hturns, List.head_cons, List.cons_append, List.cons.injEq] at hhead hkept
    rw [hkept.1, hresult] at hhead
    cases hhead

/-- Nothing is kept exactly when no run of newest turns within the budget starts with
anything but a tool result. -/
theorem recentTurns_eq_nil_iff {budget : ℕ} (hb : 0 < budget) (turns : List τ) :
    recentTurns counter budget turns = [] ↔
      ¬ ∃ turn kept, turn :: kept <:+ turns ∧ ¬ CompactionItem.isToolResult turn ∧
        sumTokens counter (turn :: kept) ≤ budget := by
  constructor
  · rintro h ⟨turn, kept, hkept, hturn, hwithin⟩
    rw [recentTurns, if_neg hb.ne', List.dropWhile_eq_nil_iff] at h
    exact hturn (h turn ((suffix_newestWithin counter budget hkept hwithin).subset
      (List.mem_cons_self ..)))
  · intro h
    by_contra hne
    obtain ⟨turn, kept, hturns⟩ := List.exists_cons_of_ne_nil hne
    refine h ⟨turn, kept, hturns ▸ recentTurns_suffix counter budget turns, ?_,
      hturns ▸ sumTokens_recentTurns_le counter budget turns⟩
    rw [recentTurns, if_neg hb.ne'] at hne hturns
    have hhead := List.head_dropWhile_not CompactionItem.isToolResult hne
    simp only [hturns, List.head_cons] at hhead
    simp [hhead]

end Recent

/-! ### The selections keep the newest turns within the budget -/

theorem keptItems_le_length (target : ℕ) (counts : List ℕ) (start : ℕ) :
    keptItems target counts start ≤ counts.length := by
  induction counts generalizing start with
  | nil => exact Nat.zero_le _
  | cons count counts ih =>
    unfold keptItems
    split
    · exact Nat.zero_le _
    · exact Nat.succ_le_succ (ih _)

/-- An older item is kept when everything up to it is within the budget. -/
theorem keptItems_concat (target : ℕ) (counts : List ℕ) (count : ℕ) {start : ℕ}
    (h : start ≤ 2 ^ 32 - 1) :
    keptItems target (counts ++ [count]) start =
      if (counts ++ [count]).foldl saturatingAdd start ≤ target then counts.length + 1
      else keptItems target counts start := by
  induction counts generalizing start with
  | nil =>
    rw [List.nil_append, List.foldl_cons, List.foldl_nil, keptItems, keptItems]
    by_cases hover : saturatingAdd start count > target
    · rw [if_pos hover, if_neg (by omega)]
    · rw [if_neg hover, if_pos (by omega)]
      rfl
  | cons head counts ih =>
    have hnext : saturatingAdd start head ≤ 2 ^ 32 - 1 := Nat.min_le_right _ _
    rw [List.cons_append, keptItems, keptItems, List.foldl_cons, List.length_cons]
    by_cases hover : saturatingAdd start head > target
    · have hsum : ¬ (counts ++ [count]).foldl saturatingAdd (saturatingAdd start head) ≤
          target := by
        rw [foldl_saturatingAdd _ hnext]
        omega
      rw [if_pos hover, if_pos hover, if_neg hsum]
    · rw [if_neg hover, if_neg hover, ih hnext]
      split <;> rfl

theorem drop_length_takeWhile {α : Type*} (p : α → Bool) (items : List α) :
    items.drop (items.takeWhile p).length = items.dropWhile p := by
  calc items.drop (items.takeWhile p).length
      = (items.takeWhile p ++ items.dropWhile p).drop (items.takeWhile p).length := by
        rw [List.takeWhile_append_dropWhile]
    _ = items.dropWhile p := List.drop_left

section Selection

variable {τ : Type*} (counter : τ → ℕ) (budget : ℕ)

/-- The walk from the newest turn back finds the longest run within the budget. -/
theorem drop_keptItems (turns : List τ) :
    turns.drop (turns.length - keptItems budget (tokenCounts counter turns).reverse 0) =
      newestWithin counter budget turns := by
  induction turns with
  | nil => rfl
  | cons turn turns ih =>
    have hsum : ((tokenCounts counter turns).reverse ++ [counter turn]).foldl saturatingAdd 0 =
        sumTokens counter (turn :: turns) := by
      rw [foldl_saturatingAdd _ (Nat.zero_le _), sumTokens, sumCounts_eq, tokenCounts,
        tokenCounts, List.map_cons, List.sum_append, List.sum_reverse, List.sum_cons]
      simp [Nat.add_comm]
    have hlen : keptItems budget (tokenCounts counter turns).reverse 0 ≤ turns.length := by
      simpa [tokenCounts] using
        keptItems_le_length budget (tokenCounts counter turns).reverse 0
    have hcounts : (tokenCounts counter (turn :: turns)).reverse =
        (tokenCounts counter turns).reverse ++ [counter turn] := by
      simp [tokenCounts]
    rw [hcounts, keptItems_concat budget _ _ (Nat.zero_le _), hsum, newestWithin]
    split
    · simp [tokenCounts]
    · rw [List.length_cons, Nat.succ_sub hlen, List.drop_succ_cons, ih]

variable [FitItem τ]

theorem keepRecentUnderBudget_eq {budget : ℕ} (hb : 0 < budget) {turns : List τ}
    (hover : budget < sumTokens counter turns) :
    keepRecentUnderBudget turns (tokenCounts counter turns) budget =
      if recentTurns counter budget turns = [] then none
      else some (recentTurns counter budget turns,
        asU32 (turns.length - (recentTurns counter budget turns).length)) := by
  have hne : turns.isEmpty = false := by
    cases turns with
    | nil => simp at hover
    | cons => rfl
  have hsplit : turns.length - keptItems budget (tokenCounts counter turns).reverse 0 ≠ 0 := by
    intro h
    have hall := drop_keptItems counter budget turns
    rw [h, List.drop_zero] at hall
    have := sumTokens_newestWithin_le counter budget turns
    rw [← hall] at this
    omega
  have hsafe : turns.drop (snapToSafeBoundary turns
      (turns.length - keptItems budget (tokenCounts counter turns).reverse 0)) =
      recentTurns counter budget turns := by
    rw [snapToSafeBoundary, recentTurns, if_neg hb.ne', ← drop_keptItems counter budget turns,
      ← List.drop_drop, drop_length_takeWhile]
  rw [keepRecentUnderBudget, if_neg (by simp [hne]), if_neg hb.ne',
    if_neg (by rw [← sumTokens]; omega), selectTurnsToCompact, if_neg (by simp [hne])]
  dsimp only
  rw [if_neg hsplit]
  generalize snapToSafeBoundary turns
    (turns.length - keptItems budget (tokenCounts counter turns).reverse 0) = safe at hsafe
  by_cases hall : turns.length ≤ safe
  · rw [if_pos hall, ← hsafe, if_pos (List.drop_eq_nil_iff.2 hall)]
  · have hlen : turns.length - (turns.drop safe).length = safe := by
      rw [List.length_drop]
      omega
    rw [if_neg hall, if_neg (Nat.not_lt_zero _), ← hsafe,
      if_neg (by rw [List.drop_eq_nil_iff]; exact hall), hlen]

/-- What is kept beside turns within the budget, when both are over it. -/
theorem keepBeside_eq {turns : List τ} {otherTokens : ℕ} (hother : otherTokens ≤ budget)
    (hover : budget - otherTokens < sumTokens counter turns) :
    keepBeside budget turns (tokenCounts counter turns) otherTokens =
      let kept := recentTurns counter (budget - otherTokens) turns
      ⟨kept, if kept = [] then [] else
        (tokenCounts counter turns).drop (asU32 (turns.length - kept.length)),
        asU32 (turns.length - kept.length)⟩ := by
  dsimp only
  unfold keepBeside
  by_cases hlt : otherTokens < budget
  · rw [if_pos hlt, if_pos (show sumCounts (tokenCounts counter turns) > _ from hover),
      keepRecentUnderBudget_eq counter (Nat.sub_pos_of_lt hlt) hover]
    by_cases hkept : recentTurns counter (budget - otherTokens) turns = []
    · simp [hkept]
    · simp [hkept]
  · have hzero : budget - otherTokens = 0 := by omega
    rw [if_neg hlt, hzero]
    simp [recentTurns]

/-- The counts of the turns kept follow them, unless their number was cut short. -/
theorem sumCounts_keepBeside {turns : List τ} {otherTokens : ℕ} (hother : otherTokens ≤ budget)
    (hover : budget - otherTokens < sumTokens counter turns)
    (hshort : turns.length -
      (recentTurns counter (budget - otherTokens) turns).length < 2 ^ 32) :
    sumCounts (keepBeside budget turns (tokenCounts counter turns) otherTokens).counts =
      sumTokens counter (recentTurns counter (budget - otherTokens) turns) := by
  rw [keepBeside_eq counter budget hother hover]
  dsimp only
  obtain ⟨front, hfront⟩ := recentTurns_suffix counter (budget - otherTokens) turns
  generalize recentTurns counter (budget - otherTokens) turns = kept at hshort hfront
  split
  · rename_i hkept
    rw [hkept]
    rfl
  · have hlen : turns.length - kept.length = front.length := by
      simp [← hfront]
    rw [asU32, Nat.mod_eq_of_lt hshort, hlen, sumTokens, ← hfront, tokenCounts_append,
      List.drop_left' (by simp [tokenCounts])]

end Selection

/-! ### The plans on the rungs -/

theorem asU32_le (n : ℕ) : asU32 n ≤ n := Nat.mod_le _ _

theorem asU32_of_lt {n : ℕ} (h : n < 2 ^ 32) : asU32 n = n := Nat.mod_eq_of_lt h

theorem asU32_eq_iff (n : ℕ) : asU32 n = n ↔ n < 2 ^ 32 := by
  unfold asU32
  omega

/-- Two lengths survive their casts together when each does. -/
theorem asU32_add_eq_iff (m n : ℕ) :
    asU32 m + asU32 n = m + n ↔ m < 2 ^ 32 ∧ n < 2 ^ 32 := by
  have hm := asU32_le m
  have hn := asU32_le n
  rw [← asU32_eq_iff m, ← asU32_eq_iff n]
  omega

section Plans

variable {τ : Type*} (counter : τ → ℕ) (budget : ℕ)

/-- How many turns a plan accounts for. -/
def FitPlan.accounted (plan : FitPlan τ) : ℕ :=
  plan.historyTurnsOmitted + plan.stepTurnsOmitted + plan.llmTurns.length

theorem saturatingAdd_le (a b : ℕ) : saturatingAdd a b ≤ a + b := Nat.min_le_left _ _

variable {hist step history steps : List τ}

/-- What is left, without its newest turn, and what went before account for no turn twice. -/
theorem emergencySource_le (history steps : List τ)
    (histOmitted stepOmitted : ℕ) (hleft : hist ++ step ≠ []) :
    (emergencySource history steps hist step histOmitted stepOmitted).2.1 +
      (emergencySource history steps hist step histOmitted stepOmitted).2.2 + 1 ≤
        histOmitted + hist.length + (stepOmitted + step.length) := by
  unfold emergencySource
  rw [if_neg (by simpa using hleft)]
  split
  · rename_i hstep
    have hpos : 0 < hist.length := by
      rw [List.isEmpty_iff.1 hstep, List.append_nil] at hleft
      exact List.length_pos_iff.2 hleft
    have := saturatingAdd_le histOmitted (asU32 (hist.length - 1))
    have := asU32_le (hist.length - 1)
    dsimp only
    omega
  · rename_i hstep
    have hpos : 0 < step.length := by
      rw [List.isEmpty_iff] at hstep
      exact List.length_pos_iff.2 hstep
    have := saturatingAdd_le histOmitted (asU32 hist.length)
    have := saturatingAdd_le stepOmitted (asU32 (step.length - 1))
    have := asU32_le hist.length
    have := asU32_le (step.length - 1)
    dsimp only
    omega

theorem planOk_accounted (hist step : List τ) (tokensRaw : ℕ) (rung : FitRung)
    (itemsTruncated histOmitted stepOmitted : ℕ) :
    (planOk counter hist step tokensRaw rung itemsTruncated histOmitted stepOmitted).accounted =
      histOmitted + hist.length + (stepOmitted + step.length) := by
  simp only [planOk, FitPlan.accounted, List.length_append]
  omega

variable [FitItem τ]

theorem keepBeside_accounted_le (turns : List τ) (counts : List ℕ) (otherTokens : ℕ) :
    (keepBeside budget turns counts otherTokens).omitted +
      (keepBeside budget turns counts otherTokens).turns.length ≤ turns.length := by
  have hcleared := asU32_le turns.length
  unfold keepBeside keepRecentUnderBudget
  split_ifs with hother hover hempty hzero hall
  · simp
  · simpa using hcleared
  · simp
  · cases hplan : selectTurnsToCompact counts turns (budget - otherTokens) 0 with
    | none => simpa using hcleared
    | some plan =>
      have hsplit := (selectTurnsToCompact_bounds hplan).2
      have := asU32_le plan.splitIdx
      simp only [List.length_drop]
      omega
  · simp
  · simpa using hcleared

theorem emergencyPlan_accounted_le (history steps : List τ) (tokensRaw itemsTruncated : ℕ)
    (histOmitted stepOmitted : ℕ) (hleft : hist ++ step ≠ []) :
    (emergencyPlan counter budget history steps tokensRaw itemsTruncated hist step histOmitted
      stepOmitted).accounted ≤ histOmitted + hist.length + (stepOmitted + step.length) := by
  have hsource := emergencySource_le history steps histOmitted stepOmitted hleft
  unfold emergencyPlan
  dsimp only
  split
  · exact (Nat.le_succ _).trans hsource
  · exact hsource

theorem selectStepTurns_accounted_le (history steps : List τ) (tokensRaw itemsTruncated : ℕ)
    (histOmitted : ℕ) (hleft : hist ≠ []) :
    (selectStepTurns counter budget history steps tokensRaw itemsTruncated hist step
      histOmitted).accounted ≤ histOmitted + hist.length + step.length := by
  have hkept := keepBeside_accounted_le budget step (tokenCounts counter step)
    (sumCounts (tokenCounts counter hist))
  unfold selectStepTurns
  dsimp only
  split
  · rw [planOk_accounted]
    omega
  · refine (emergencyPlan_accounted_le counter budget history steps tokensRaw itemsTruncated
      _ _ (by simp [hleft])).trans ?_
    omega

theorem truncateTools_accounted_le (history steps : List τ) (tokensRaw : ℕ)
    (histOmitted : ℕ) (hleft : hist ≠ []) :
    (truncateTools counter budget history steps tokensRaw hist histOmitted).accounted ≤
      histOmitted + hist.length + steps.length := by
  unfold truncateTools
  dsimp only
  split
  · rw [planOk_accounted]
    simp only [shrinkOversizedToolResults, List.length_map]
    omega
  · refine (selectStepTurns_accounted_le counter budget history steps tokensRaw _ _
      (by simpa [shrinkOversizedToolResults] using hleft)).trans ?_
    simp [shrinkOversizedToolResults]

/-- A plan that accounts for fewer turns than there are is not sound. -/
theorem not_sound_of_accounted_lt {plan : FitPlan τ}
    (h : plan.accounted < history.length + steps.length) :
    ¬ plan.Sound counter budget history steps := by
  intro hsound
  have := hsound.counted
  rw [List.length_append] at this
  exact absurd this h.ne

/-- A plan that hands over a run of newest turns, clipped, is sound when it is not empty,
accounts for the turns in front and does not part a result from its request. -/
theorem sound_planOk_iff {front turns : List τ} (tokensRaw : ℕ)
    {rung : FitRung} (itemsTruncated histOmitted stepOmitted : ℕ)
    (hinput : history ++ steps = front ++ turns)
    (hclip : List.Forall₂ (Clipped budget) turns (hist ++ step))
    (hrung : rung ≠ .emergency) (hwithin : sumTokens counter (hist ++ step) ≤ budget)
    (hfirst : ∀ r : FitRung, r.stage < rung.stage → ¬ r.Fits counter budget history steps) :
    (planOk counter hist step tokensRaw rung itemsTruncated histOmitted stepOmitted).Sound
        counter budget history steps ↔
      hist ++ step ≠ [] ∧ histOmitted + stepOmitted = front.length ∧
        ¬ Orphaned front (hist ++ step) := by
  have hlen : turns.length = (hist ++ step).length := hclip.length_eq
  have hfront : (history ++ steps).take
      ((history ++ steps).length - (hist ++ step).length) = front := by
    rw [hinput, List.length_append, hlen, Nat.add_sub_cancel, List.take_left]
  constructor
  · intro h
    refine ⟨h.nonempty, ?_, ?_⟩
    · have hcounted := h.counted
      rw [hinput, List.length_append, hlen] at hcounted
      exact Nat.add_right_cancel hcounted
    · have hpaired := h.paired hrung
      rwa [← hfront]
  · rintro ⟨hne, hcounted, horphan⟩
    exact
      { nonempty := hne
        suffix := fun _ => ⟨turns, ⟨front, hinput.symm⟩, hclip⟩
        newest := fun h => absurd h hrung
        counted := by
          rw [hinput, List.length_append, hlen, ← hcounted]
          rfl
        tokens := rfl
        within := fun _ => hwithin
        paired := fun _ => by
          rw [← hfront] at horphan
          exact horphan
        first := hfirst }

theorem clipped_refl (turns : List τ) : List.Forall₂ (Clipped budget) turns turns :=
  List.forall₂_same.2 fun _ _ => .inl rfl

theorem clipped_shrinkOversized (turns : List τ) :
    List.Forall₂ (Clipped budget) turns (turns.map (shrinkOversized counter budget)) := by
  rw [List.forall₂_map_right_iff, List.forall₂_same]
  intro turn _
  unfold shrinkOversized
  split
  · rename_i hover
    exact .inr ⟨hover.1, rfl⟩
  · exact .inl rfl

/-- The rungs below the last, over the steps: none fits while the steps themselves do not. -/
theorem not_fits_history (history : List τ) (h : budget < sumTokens counter steps) :
    ¬ FitRung.Fits counter budget history steps .historyTurnSelected := by
  rintro ⟨kept, -, hwithin⟩
  have := sumTokens_le_append counter kept steps
  omega

theorem not_fits_tools (history : List τ)
    (h : budget < sumTokens counter (steps.map (shrinkOversized counter budget))) :
    ¬ FitRung.Fits counter budget history steps .toolTruncated := by
  rintro ⟨kept, -, hwithin⟩
  rw [List.map_append] at hwithin
  have := sumTokens_le_append counter (kept.map (shrinkOversized counter budget))
    (steps.map (shrinkOversized counter budget))
  omega

theorem fit_verbatim (hb : 0 < budget) (hall : sumTokens counter (history ++ steps) ≤ budget) :
    fitTurnsForSummarizer counter budget history steps =
      planOk counter history steps (sumTokens counter (history ++ steps)) .verbatim 0 0 0 := by
  unfold fitTurnsForSummarizer
  dsimp only
  rw [← sumTokens, ← sumTokens, saturatingAdd_sumTokens, if_neg hb.ne', if_pos hall]

/-- Over the budget, the oldest history goes first. -/
theorem fit_of_over (hb : 0 < budget) (hover : budget < sumTokens counter (history ++ steps)) :
    fitTurnsForSummarizer counter budget history steps =
      let kept := keepBeside budget history (tokenCounts counter history)
        (sumTokens counter steps)
      if saturatingAdd (sumCounts kept.counts) (sumTokens counter steps) ≤ budget then
        planOk counter kept.turns steps (sumTokens counter (history ++ steps))
          .historyTurnSelected 0 kept.omitted 0
      else truncateTools counter budget history steps (sumTokens counter (history ++ steps))
        kept.turns kept.omitted := by
  unfold fitTurnsForSummarizer
  dsimp only
  rw [← sumTokens, ← sumTokens, saturatingAdd_sumTokens, if_neg hb.ne', if_neg (by omega)]

theorem fit_history (hb : 0 < budget) (hover : budget < sumTokens counter (history ++ steps))
    (hsteps : sumTokens counter steps ≤ budget)
    (hshort : history.length -
      (recentTurns counter (budget - sumTokens counter steps) history).length < 2 ^ 32) :
    fitTurnsForSummarizer counter budget history steps =
      planOk counter (recentTurns counter (budget - sumTokens counter steps) history) steps
        (sumTokens counter (history ++ steps)) .historyTurnSelected 0
        (history.length -
          (recentTurns counter (budget - sumTokens counter steps) history).length) 0 := by
  have hroom := sub_lt_sumTokens counter hsteps hover
  have hfits := sumTokens_append_le counter hsteps
    (sumTokens_recentTurns_le counter (budget - sumTokens counter steps) history)
  rw [fit_of_over counter budget hb hover]
  dsimp only
  rw [sumCounts_keepBeside counter budget hsteps hroom hshort, saturatingAdd_sumTokens,
    if_pos hfits, keepBeside_eq counter budget hsteps hroom]
  dsimp only
  rw [asU32_of_lt hshort]

/-- A number of history turns omitted that is cut short is never made good. -/
theorem fit_history_long (hb : 0 < budget) (hover : budget < sumTokens counter (history ++ steps))
    (hsteps : sumTokens counter steps ≤ budget)
    (hlong : ¬ history.length -
      (recentTurns counter (budget - sumTokens counter steps) history).length < 2 ^ 32) :
    (fitTurnsForSummarizer counter budget history steps).accounted <
      history.length + steps.length := by
  have hroom := sub_lt_sumTokens counter hsteps hover
  have hcut : asU32 (history.length -
      (recentTurns counter (budget - sumTokens counter steps) history).length) <
      history.length -
        (recentTurns counter (budget - sumTokens counter steps) history).length :=
    lt_of_le_of_ne (asU32_le _) fun h => hlong ((asU32_eq_iff _).1 h)
  rw [fit_of_over counter budget hb hover, keepBeside_eq counter budget hsteps hroom]
  dsimp only
  generalize recentTurns counter (budget - sumTokens counter steps) history = kept at hcut
  by_cases hkept : kept = []
  · -- with no history left, the steps alone are within the budget
    rw [if_pos hkept, sumCounts_nil, saturatingAdd_zero_sumTokens, if_pos hsteps,
      planOk_accounted]
    omega
  · rw [if_neg hkept]
    split
    · rw [planOk_accounted]
      omega
    · have := truncateTools_accounted_le counter budget history steps
        (sumTokens counter (history ++ steps)) (asU32 (history.length - kept.length)) hkept
      omega

theorem fit_steps (hb : 0 < budget) (hsteps : budget < sumTokens counter steps) :
    fitTurnsForSummarizer counter budget history steps =
      truncateTools counter budget history steps (sumTokens counter (history ++ steps)) []
        (asU32 history.length) := by
  have hover := hsteps.trans_le (sumTokens_le_append counter history steps)
  have hcleared : keepBeside budget history (tokenCounts counter history)
      (sumTokens counter steps) = ⟨[], [], asU32 history.length⟩ := by
    unfold keepBeside
    rw [if_neg (by omega)]
  rw [fit_of_over counter budget hb hover, hcleared]
  dsimp only
  rw [sumCounts_nil, saturatingAdd_zero_sumTokens, if_neg (by omega)]

theorem truncateTools_nil (history steps : List τ) (tokensRaw histOmitted : ℕ) :
    ∃ itemsTruncated,
      truncateTools counter budget history steps tokensRaw [] histOmitted =
        if sumTokens counter (steps.map (shrinkOversized counter budget)) ≤ budget then
          planOk counter [] (steps.map (shrinkOversized counter budget)) tokensRaw
            .toolTruncated itemsTruncated histOmitted 0
        else selectStepTurns counter budget history steps tokensRaw itemsTruncated []
          (steps.map (shrinkOversized counter budget)) histOmitted := by
  refine ⟨saturatingAdd (shrinkOversizedToolResults counter budget []).2
    (shrinkOversizedToolResults counter budget steps).2, ?_⟩
  unfold truncateTools
  dsimp only
  rw [saturatingAdd_sumTokens]
  rfl

/-- Without history, the third stage keeps the newest steps there is room for, or leaves
everything to the last resort. -/
theorem selectStepTurns_nil (tokensRaw itemsTruncated : ℕ)
    (histOmitted : ℕ) (hover : budget < sumTokens counter step) :
    selectStepTurns counter budget history steps tokensRaw itemsTruncated [] step histOmitted =
      let kept := keepBeside budget step (tokenCounts counter step) 0
      if sumCounts kept.counts ≤ budget ∧ recentTurns counter budget step ≠ [] then
        planOk counter [] (recentTurns counter budget step) tokensRaw .stepTurnsSelected
          itemsTruncated histOmitted
          (asU32 (step.length - (recentTurns counter budget step).length))
      else
        emergencyPlan counter budget history steps tokensRaw itemsTruncated []
          (recentTurns counter budget step) histOmitted
          (asU32 (step.length - (recentTurns counter budget step).length)) := by
  have hkept := keepBeside_eq counter budget (Nat.zero_le budget)
    (show budget - 0 < sumTokens counter step from hover)
  have hadd (counts : List ℕ) : saturatingAdd 0 (sumCounts counts) = sumCounts counts :=
    saturatingAdd_sumCounts [] counts
  unfold selectStepTurns
  dsimp only
  rw [show sumCounts (tokenCounts counter ([] : List τ)) = 0 from rfl, hadd, hkept]
  simp

/-- Starting again from the original newest turn. -/
theorem sound_emergencyPlan_iff {older : List τ} {newest : τ} (tokensRaw : ℕ)
    (itemsTruncated histOmitted stepOmitted : ℕ)
    (hfirst : ∀ r : FitRung, r ≠ .emergency →
      ¬ r.Fits counter budget history (older ++ [newest])) :
    (emergencyPlan counter budget history (older ++ [newest]) tokensRaw itemsTruncated [] []
        histOmitted stepOmitted).Sound counter budget history (older ++ [newest]) ↔
      history.length < 2 ^ 32 ∧ older.length < 2 ^ 32 := by
  have hplan : emergencyPlan counter budget history (older ++ [newest]) tokensRaw
      itemsTruncated [] [] histOmitted stepOmitted =
      ⟨[FitItem.truncatePayloadForCompaction newest budget], tokensRaw,
        sumTokens counter [FitItem.truncatePayloadForCompaction newest budget], .emergency,
        saturatingAdd itemsTruncated 1, asU32 history.length, asU32 older.length⟩ := by
    simp [emergencyPlan, emergencySource, ← List.append_assoc]
  rw [hplan, ← asU32_add_eq_iff]
  constructor
  · intro h
    have hcounted := h.counted
    simp only [List.length_append, List.length_singleton] at hcounted
    omega
  · intro h
    exact
      { nonempty := List.cons_ne_nil _ _
        suffix := fun hrung => absurd rfl hrung
        newest := fun _ => ⟨history ++ older, newest, (List.append_assoc ..).symm, rfl⟩
        counted := by
          simp only [List.length_append, List.length_singleton]
          omega
        tokens := rfl
        within := fun hrung => absurd rfl hrung
        paired := fun hrung => absurd rfl hrung
        first := fun rung hrung => hfirst rung fun h => by simp [h] at hrung }

/-- Whether the ladder comes to a sound plan: everything is within the budget; or the steps
are, and the newest history beside them leaves something to hand over, with no first step
parted from its request; or the steps are not, and the same holds of them once clipped. The
numbers of turns that go are below the bound of their 32-bit counts. -/
def Fittable (history steps : List τ) : Prop :=
  if sumTokens counter (history ++ steps) ≤ budget then True
  else if sumTokens counter steps ≤ budget then
    let kept := recentTurns counter (budget - sumTokens counter steps) history
    history.length - kept.length < 2 ^ 32 ∧ kept ++ steps ≠ [] ∧
      (kept = [] → ¬ Orphaned history steps)
  else
    let clipped := steps.map (shrinkOversized counter budget)
    history.length < 2 ^ 32 ∧
      if sumTokens counter clipped ≤ budget then ¬ Orphaned history clipped
      else steps.length - max 1 (recentTurns counter budget clipped).length < 2 ^ 32

theorem not_orphaned_nil (kept : List τ) : ¬ Orphaned [] kept := by
  rintro ⟨before, request, results, result, rest, hdropped, -⟩
  simp at hdropped

theorem sound_history_iff (hb : 0 < budget) (hover : budget < sumTokens counter (history ++ steps))
    (hsteps : sumTokens counter steps ≤ budget) :
    (fitTurnsForSummarizer counter budget history steps).Sound counter budget history steps ↔
      history.length -
        (recentTurns counter (budget - sumTokens counter steps) history).length < 2 ^ 32 ∧
      recentTurns counter (budget - sumTokens counter steps) history ++ steps ≠ [] ∧
      (recentTurns counter (budget - sumTokens counter steps) history = [] →
        ¬ Orphaned history steps) := by
  by_cases hshort : history.length -
      (recentTurns counter (budget - sumTokens counter steps) history).length < 2 ^ 32
  · obtain ⟨front, hfront⟩ :=
      recentTurns_suffix counter (budget - sumTokens counter steps) history
    have hfits := sumTokens_append_le counter hsteps
      (sumTokens_recentTurns_le counter (budget - sumTokens counter steps) history)
    have hpaired : recentTurns counter (budget - sumTokens counter steps) history ≠ [] →
        ¬ Orphaned front
          (recentTurns counter (budget - sumTokens counter steps) history ++ steps) :=
      not_orphaned_recentTurns counter (budget - sumTokens counter steps)
    rw [fit_history counter budget hb hover hsteps hshort]
    generalize recentTurns counter (budget - sumTokens counter steps) history = kept at *
    have hlen : history.length - kept.length = front.length := by simp [← hfront]
    rw [sound_planOk_iff counter budget _ 0 _ 0
      (show history ++ steps = front ++ (kept ++ steps) by rw [← hfront, List.append_assoc])
      (clipped_refl budget _) (by decide) hfits ?_]
    · have horphan : ¬ Orphaned front (kept ++ steps) ↔
          (kept = [] → ¬ Orphaned history steps) := by
        by_cases hkept : kept = []
        · rw [hkept, List.append_nil] at hfront
          simp [hkept, hfront]
        · simp [hkept, hpaired hkept]
      rw [horphan, hlen]
      rw [hlen] at hshort
      tauto
    · intro rung hrung
      cases rung <;> simp [FitRung.stage] at hrung
      exact fun h => absurd hover (not_lt.2 h)
  · refine iff_of_false (not_sound_of_accounted_lt counter budget
      (fit_history_long counter budget hb hover hsteps hshort)) fun h => hshort h.1

/-- From clipped steps over the budget the newest are kept, or the last resort is left. -/
theorem sound_selectStepTurns_iff (hb : 0 < budget) (tokensRaw itemsTruncated : ℕ)
    (hsteps : budget < sumTokens counter steps)
    (hover : budget < sumTokens counter (steps.map (shrinkOversized counter budget))) :
    (selectStepTurns counter budget history steps tokensRaw itemsTruncated []
        (steps.map (shrinkOversized counter budget)) (asU32 history.length)).Sound counter budget
        history steps ↔
      history.length < 2 ^ 32 ∧ steps.length - max 1 (recentTurns counter budget
        (steps.map (shrinkOversized counter budget))).length < 2 ^ 32 := by
  have hlower (rung : FitRung) (hrung : rung.stage < FitRung.stepTurnsSelected.stage) :
      ¬ rung.Fits counter budget history steps := by
    cases rung
    · exact not_le.2 (hsteps.trans_le (sumTokens_le_append counter history steps))
    · exact not_fits_history counter budget history hsteps
    · exact not_fits_tools counter budget history hover
    · simp [FitRung.stage] at hrung
    · simp [FitRung.stage] at hrung
  have hselected : FitRung.Fits counter budget history steps .stepTurnsSelected ↔
      recentTurns counter budget (steps.map (shrinkOversized counter budget)) ≠ [] := by
    rw [Ne, recentTurns_eq_nil_iff counter hb, not_not]
    rfl
  have hcounts := sumCounts_keepBeside counter budget (Nat.zero_le budget)
    (show budget - 0 < _ from hover)
  have hwithin := sumTokens_recentTurns_le counter budget
    (steps.map (shrinkOversized counter budget))
  have hpaired (dropped : List τ)
      (h : recentTurns counter budget (steps.map (shrinkOversized counter budget)) ≠ []) :
      ¬ Orphaned dropped (recentTurns counter budget
        (steps.map (shrinkOversized counter budget)) ++ []) :=
    not_orphaned_recentTurns counter budget h
  obtain ⟨front, hfront⟩ := recentTurns_suffix counter budget
    (steps.map (shrinkOversized counter budget))
  have hlen : steps.length = front.length + (recentTurns counter budget
      (steps.map (shrinkOversized counter budget))).length := by
    simpa using (congrArg List.length hfront).symm
  rw [selectStepTurns_nil counter budget _ _ _ hover]
  dsimp only
  rw [Nat.sub_zero] at hcounts
  rw [List.length_map] at hcounts ⊢
  generalize recentTurns counter budget (steps.map (shrinkOversized counter budget)) = kept at *
  by_cases hkept : kept = []
  · -- nothing is left: the last resort starts again from the original newest turn
    subst hkept
    obtain rfl | ⟨older, newest, rfl⟩ := List.eq_nil_or_concat steps
    · simp at hsteps
    rw [if_neg (by simp), List.concat_eq_append,
      sound_emergencyPlan_iff counter budget _ _ _ _ ?_]
    · simp
    · intro rung hrung
      rw [List.concat_eq_append] at hlower hselected
      cases hrungs : rung with
      | emergency => exact absurd hrungs hrung
      | stepTurnsSelected => simpa using hselected
      | verbatim | historyTurnSelected | toolTruncated => exact hlower _ (by decide)
  have hpos : 0 < kept.length := List.length_pos_iff.2 hkept
  rw [max_eq_right hpos]
  by_cases hshort : steps.length - kept.length < 2 ^ 32
  · have hkeep : (steps.drop front.length).map (shrinkOversized counter budget) = kept := by
      rw [List.map_drop, ← hfront, List.drop_left]
    have hinput : history ++ steps =
        (history ++ steps.take front.length) ++ steps.drop front.length := by
      rw [List.append_assoc, List.take_append_drop]
    have hclip : List.Forall₂ (Clipped budget) (steps.drop front.length) ([] ++ kept) := by
      rw [← hkeep]
      exact clipped_shrinkOversized counter budget (steps.drop front.length)
    rw [if_pos ⟨(hcounts hshort).trans_le hwithin, hkept⟩,
      sound_planOk_iff counter budget _ _ _ _ hinput hclip (by decide) hwithin hlower]
    have hfrontlen : (history ++ steps.take front.length).length =
        history.length + (steps.length - kept.length) := by
      rw [List.length_append, List.length_take]
      omega
    have horphan := hpaired (history ++ steps.take front.length) hkept
    rw [List.append_nil] at horphan
    rw [hfrontlen, asU32_add_eq_iff, List.nil_append]
    tauto
  · have hcut : asU32 (steps.length - kept.length) < steps.length - kept.length :=
      lt_of_le_of_ne (asU32_le _) fun h => hshort ((asU32_eq_iff _).1 h)
    have hhistory := asU32_le history.length
    refine iff_of_false (not_sound_of_accounted_lt counter budget ?_) fun h => hshort h.2
    split
    · rw [planOk_accounted, List.length_nil]
      omega
    · refine (emergencyPlan_accounted_le counter budget history steps tokensRaw itemsTruncated
        _ _ (by simpa using hkept)).trans_lt ?_
      rw [List.length_nil]
      omega

theorem sound_steps_iff (hb : 0 < budget) (hsteps : budget < sumTokens counter steps) :
    (fitTurnsForSummarizer counter budget history steps).Sound counter budget history steps ↔
      history.length < 2 ^ 32 ∧
        if sumTokens counter (steps.map (shrinkOversized counter budget)) ≤ budget then
          ¬ Orphaned history (steps.map (shrinkOversized counter budget))
        else steps.length - max 1 (recentTurns counter budget
          (steps.map (shrinkOversized counter budget))).length < 2 ^ 32 := by
  have hne : steps.map (shrinkOversized counter budget) ≠ [] := by
    rintro h
    rw [List.map_eq_nil_iff.1 h] at hsteps
    simp at hsteps
  obtain ⟨itemsTruncated, htools⟩ := truncateTools_nil counter budget history steps
    (sumTokens counter (history ++ steps)) (asU32 history.length)
  rw [fit_steps counter budget hb hsteps, htools]
  split
  · rename_i hfits
    rw [sound_planOk_iff counter budget _ _ _ _ rfl
      (clipped_shrinkOversized counter budget steps) (by decide) hfits ?_]
    · rw [Nat.add_zero, asU32_eq_iff, List.nil_append]
      tauto
    · intro rung hrung
      cases rung
      · exact not_le.2 (hsteps.trans_le (sumTokens_le_append counter history steps))
      · exact not_fits_history counter budget history hsteps
      all_goals simp [FitRung.stage] at hrung
  · rename_i hover
    exact sound_selectStepTurns_iff counter budget hb _ itemsTruncated hsteps (not_le.1 hover)

/-- **Fitting a summarizer input**: the plan is sound exactly when the ladder does not stop
at an empty side, does not part a first step from its request and can count what it drops. -/
theorem fitTurnsForSummarizer_sound_iff (history steps : List τ) (hb : 0 < budget)
    (hne : history ++ steps ≠ []) :
    (fitTurnsForSummarizer counter budget history steps).Sound counter budget history steps ↔
      Fittable counter budget history steps := by
  unfold Fittable
  split
  · rename_i hall
    rw [fit_verbatim counter budget hb hall, sound_planOk_iff counter budget _ 0 0 0
      (List.nil_append _).symm (clipped_refl budget _) (by decide) hall ?_]
    · simpa using ⟨by simpa using hne, not_orphaned_nil _⟩
    · intro rung hrung
      simp [FitRung.stage] at hrung
  · rename_i hover
    split
    · exact sound_history_iff counter budget hb (not_le.1 hover) ‹_›
    · rename_i hsteps
      exact sound_steps_iff counter budget hb (not_le.1 hsteps)

end Plans

/-! ### Plain turns -/

/-- A turn with a role and a text, whose payload is never cut. -/
structure PlainTurn where
  role : CompactionRole
  body : Text
  tools : Bool
  deriving DecidableEq

instance : FitItem PlainTurn where
  role := PlainTurn.role
  text turn := some turn.body
  isToolResult turn := turn.role = .tool
  isCompactionSummary _ := false
  attachmentRefs _ := []
  hasToolRequests := PlainTurn.tools
  truncatePayloadForCompaction turn _ := turn

/-- A token for every four characters, and one at least. -/
def charCounter (turn : PlainTurn) : ℕ := max (turn.body.length / 4) 1

/-- Beside its steps, the newer of two history turns is handed over. -/
theorem plain_sound :
    (fitTurnsForSummarizer charCounter 2
      [⟨.user, "an old and long query".toList, false⟩, ⟨.user, "hello".toList, false⟩]
      [⟨.assistant, "world".toList, false⟩]).Sound charCounter 2
        [⟨.user, "an old and long query".toList, false⟩, ⟨.user, "hello".toList, false⟩]
        [⟨.assistant, "world".toList, false⟩] := by
  refine (fitTurnsForSummarizer_sound_iff charCounter 2 _ _ (by decide) (by decide)).2 ?_
  unfold Fittable
  rw [if_neg (by decide), if_pos (by decide)]
  exact ⟨by decide, by decide, fun h => absurd h (by decide)⟩

/-- A history whose newest turn alone is over the budget leaves nothing to hand over, and a
result can be handed over without its request. -/
theorem not_sound_plain :
    ¬ (fitTurnsForSummarizer charCounter 1 [⟨.user, "a long query".toList, false⟩] []).Sound
        charCounter 1 [⟨.user, "a long query".toList, false⟩] [] ∧
      ¬ (fitTurnsForSummarizer charCounter 1 [⟨.assistant, "read".toList, true⟩]
          [⟨.tool, "text".toList, false⟩]).Sound charCounter 1
            [⟨.assistant, "read".toList, true⟩] [⟨.tool, "text".toList, false⟩] := by
  constructor
  · intro h
    exact h.nonempty (by decide)
  · intro h
    exact h.paired (by decide) ⟨[], ⟨.assistant, "read".toList, true⟩, [],
      ⟨.tool, "text".toList, false⟩, [], by decide, by decide, rfl, by simp, rfl⟩

end Ezer.Compaction
