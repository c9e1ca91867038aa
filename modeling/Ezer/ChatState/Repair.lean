import Ezer.ChatState.Items

/-!
# Repairing the pairing of tool calls and results

A provider wants every tool result in the contiguous run behind the assistant
item that declares its call, and one result for every call. Three passes bring
a conversation into that shape: duplicates inside a run are removed, displaced
results are stripped and unanswered calls get synthetic results.
-/

namespace Ezer.ChatState

open Ezer.Lib

/-- Why a tool call was left without a result. -/
inductive DanglingToolCallReason where
  | userCancelled
  | harnessHalted (tag : String)

/-- The body of a synthetic tool result. -/
def syntheticDanglingResultText (name : String) : DanglingToolCallReason → String
  | .userCancelled =>
    "Tool execution was cancelled by the user (tool `" ++ name ++ "` was not executed)."
  | .harnessHalted tag =>
    "Tool execution was halted by the harness (" ++ tag ++ "); the tool `" ++ name ++
      "` was not executed."

/-- The last result of every id in a run. -/
def keepLast : List ToolResultItem → List ToolResultItem
  | [] => []
  | t :: rest =>
    if t.toolCallId ∈ rest.map ToolResultItem.toolCallId then keepLast rest else t :: keepLast rest

/-- Remove earlier duplicates from the run behind every assistant item with tool calls. -/
def dedupDuplicateToolResults : List ConversationItem → List ConversationItem × Nat
  | [] => ([], 0)
  | item :: rest =>
    if item.toolCalls.isEmpty then
      let deduped := dedupDuplicateToolResults rest
      (item :: deduped.1, deduped.2)
    else
      let run := leading results rest
      let kept := keepLast run
      let deduped := dedupDuplicateToolResults (behind results rest)
      (item :: (kept.map results.embed ++ deduped.1), run.length - kept.length + deduped.2)
termination_by items => items.length
decreasing_by
  · simp
  · have h := length_behind_le results rest
    simp only [List.length_cons]
    omega

/-- Strip the results whose id the current run does not declare. -/
def stripFrom (runIds : List String) : List ConversationItem → List ConversationItem × List String
  | [] => ([], [])
  | .assistant a :: rest =>
    let stripped := stripFrom (a.toolCalls.map ToolCall.id) rest
    (.assistant a :: stripped.1, stripped.2)
  | .toolResult t :: rest =>
    let stripped := stripFrom runIds rest
    if t.toolCallId ∈ runIds then (.toolResult t :: stripped.1, stripped.2)
    else (stripped.1, t.toolCallId :: stripped.2)
  | item :: rest =>
    let stripped := stripFrom [] rest
    (item :: stripped.1, stripped.2)

/-- Strip the results outside the run of the assistant item that declares their id. -/
def stripDisplacedToolResults (items : List ConversationItem) :
    List ConversationItem × List String :=
  stripFrom [] items

section

variable {σ : Type*} (resolve : σ → String → String → String × σ)

/-- Synthetic results for the calls that have no answer, in call order. -/
def answerCalls (answered : List String) : σ → List ToolCall → List ToolResultItem × σ
  | s, [] => ([], s)
  | s, call :: calls =>
    if call.id ∈ answered then answerCalls answered s calls
    else
      let text := resolve s call.id call.name
      let others := answerCalls answered text.2 calls
      (toolResultItem call.id text.1 :: others.1, others.2)

/-- Insert synthetic results behind the run of every assistant item with unanswered calls. -/
def repairDanglingToolCallsWith :
    σ → List ConversationItem → List ConversationItem × Nat × σ
  | s, [] => ([], 0, s)
  | s, item :: rest =>
    if item.toolCalls.isEmpty then
      let repaired := repairDanglingToolCallsWith s rest
      (item :: repaired.1, repaired.2)
    else
      let run := leading results rest
      let synthetic := answerCalls resolve (run.map ToolResultItem.toolCallId) s item.toolCalls
      let repaired := repairDanglingToolCallsWith synthetic.2 (behind results rest)
      (item :: ((run ++ synthetic.1).map results.embed ++ repaired.1),
        synthetic.1.length + repaired.2.1, repaired.2.2)
termination_by _ items => items.length
decreasing_by
  · simp
  · have h := length_behind_le results rest
    simp only [List.length_cons]
    omega

end

/-- Resolve every unanswered call with the text of a reason. -/
def resolveReason (reason : DanglingToolCallReason) (s : Unit) (_id name : String) :
    String × Unit :=
  (syntheticDanglingResultText name reason, s)

/-- Insert synthetic results for every tool call that lacks one. -/
def repairDanglingToolCalls (reason : DanglingToolCallReason) (items : List ConversationItem) :
    List ConversationItem × Nat :=
  let repaired := repairDanglingToolCallsWith (resolveReason reason) () items
  (repaired.1, repaired.2.1)

/-- Whether a repair would insert a result. -/
def hasDanglingToolCalls : List ConversationItem → Bool
  | [] => false
  | item :: rest =>
    if item.toolCalls.isEmpty then hasDanglingToolCalls rest
    else
      let answered := (leading results rest).map ToolResultItem.toolCallId
      item.toolCalls.any (fun call => call.id ∉ answered) ||
        hasDanglingToolCalls (behind results rest)
termination_by items => items.length
decreasing_by
  · simp
  · have h := length_behind_le results rest
    simp only [List.length_cons]
    omega

/-- What a history repair changed. -/
structure HistoryRepairReport where
  duplicatesRemoved : Nat
  strippedToolResultIds : List String
  syntheticResultsInserted : Nat

/-- Whether the repair modified the conversation. -/
def HistoryRepairReport.changed (report : HistoryRepairReport) : Bool :=
  decide (0 < report.duplicatesRemoved) || !report.strippedToolResultIds.isEmpty ||
    decide (0 < report.syntheticResultsInserted)

/-- Dedup, strip displaced results, then answer the calls left without a result. -/
def repairHistory (items : List ConversationItem) : List ConversationItem × HistoryRepairReport :=
  let deduped := dedupDuplicateToolResults items
  let stripped := stripDisplacedToolResults deduped.1
  let repaired := repairDanglingToolCalls (.harnessHalted "history_repair") stripped.1
  (repaired.1, ⟨deduped.2, stripped.2, repaired.2⟩)

/-! ## The passes on the runs of a conversation -/

/-- What removing duplicates does to the run behind an item. -/
def dedupRun (head : ConversationItem) (run : List ToolResultItem) : List ToolResultItem :=
  if head.toolCalls.isEmpty then run else keepLast run

/-- The results of a run whose id the head declares. -/
def declaredRun (head : ConversationItem) (run : List ToolResultItem) : List ToolResultItem :=
  run.filter fun t => decide (t.toolCallId ∈ head.toolCalls.map ToolCall.id)

/-- The calls of an item without an answer among some ids. -/
def unanswered (head : ConversationItem) (answered : List String) : List ToolCall :=
  head.toolCalls.filter fun call => decide (call.id ∉ answered)

/-- The synthetic results for the calls of an item that a run leaves open. -/
def syntheticRun (reason : DanglingToolCallReason) (head : ConversationItem)
    (run : List ToolResultItem) : List ToolResultItem :=
  (unanswered head (run.map ToolResultItem.toolCallId)).map fun call =>
    toolResultItem call.id (syntheticDanglingResultText call.name reason)

variable {item : ConversationItem}

/-- An item that declares calls starts a run. -/
theorem read_of_toolCalls (h : ¬item.toolCalls.isEmpty = true) :
    results.read item = none := by
  cases item with
  | toolResult t => exact absurd rfl h
  | _ => rfl

theorem dedup_cons_of_isEmpty (h : item.toolCalls.isEmpty = true) (rest : List ConversationItem) :
    dedupDuplicateToolResults (item :: rest) =
      (item :: (dedupDuplicateToolResults rest).1, (dedupDuplicateToolResults rest).2) := by
  rw [dedupDuplicateToolResults, if_pos h]

theorem dedup_cons (h : ¬item.toolCalls.isEmpty = true) (rest : List ConversationItem) :
    dedupDuplicateToolResults (item :: rest) =
      (item :: ((keepLast (leading results rest)).map results.embed ++
          (dedupDuplicateToolResults (behind results rest)).1),
        (leading results rest).length - (keepLast (leading results rest)).length +
          (dedupDuplicateToolResults (behind results rest)).2) := by
  rw [dedupDuplicateToolResults, if_neg h]

theorem stripFrom_cons (h : results.read item = none)
    (ids : List String) (rest : List ConversationItem) :
    stripFrom ids (item :: rest) =
      (item :: (stripFrom (item.toolCalls.map ToolCall.id) rest).1,
        (stripFrom (item.toolCalls.map ToolCall.id) rest).2) := by
  cases item with
  | toolResult t => cases h
  | _ => rfl

variable {σ : Type*}

theorem repair_cons_of_isEmpty (resolve : σ → String → String → String × σ) (s : σ)
    (h : item.toolCalls.isEmpty = true)
    (rest : List ConversationItem) :
    repairDanglingToolCallsWith resolve s (item :: rest) =
      (item :: (repairDanglingToolCallsWith resolve s rest).1,
        (repairDanglingToolCallsWith resolve s rest).2) := by
  rw [repairDanglingToolCallsWith, if_pos h]

theorem repair_cons (resolve : σ → String → String → String × σ) (s : σ)
    (h : ¬item.toolCalls.isEmpty = true)
    (rest : List ConversationItem) :
    repairDanglingToolCallsWith resolve s (item :: rest) =
      let run := leading results rest
      let synthetic := answerCalls resolve (run.map ToolResultItem.toolCallId) s item.toolCalls
      let repaired := repairDanglingToolCallsWith resolve synthetic.2 (behind results rest)
      (item :: ((run ++ synthetic.1).map results.embed ++ repaired.1),
        synthetic.1.length + repaired.2.1, repaired.2.2) := by
  rw [repairDanglingToolCallsWith, if_neg h]

theorem keepLast_sublist (run : List ToolResultItem) : (keepLast run).Sublist run := by
  induction run with
  | nil => exact .slnil
  | cons t rest ih =>
    rw [keepLast]
    split
    · exact ih.cons t
    · exact ih.cons_cons t

/-- Every result is kept or counted as a removed duplicate. -/
theorem length_dedup (items : List ConversationItem) :
    (dedupDuplicateToolResults items).1.length + (dedupDuplicateToolResults items).2 =
      items.length := by
  induction items using dedupDuplicateToolResults.induct with
  | case1 =>
    rw [dedupDuplicateToolResults]
    rfl
  | case2 item rest h ih =>
    rw [dedup_cons_of_isEmpty h, List.length_cons, List.length_cons]
    omega
  | case3 item rest h ih =>
    have hle := (keepLast_sublist (leading results rest)).length_le
    have hrest := congrArg List.length (leading_append_behind results rest)
    rw [List.length_append, List.length_map] at hrest
    rw [dedup_cons h]
    simp only [List.length_cons, List.length_append, List.length_map]
    omega

/-- Every item is kept or reported as stripped. -/
theorem length_stripFrom (ids : List String) (items : List ConversationItem) :
    (stripFrom ids items).1.length + (stripFrom ids items).2.length = items.length := by
  induction items generalizing ids with
  | nil => rfl
  | cons item rest ih =>
    obtain ⟨t, rfl⟩ | hread := results.cases item
    · have hrest := ih ids
      rw [results_embed, stripFrom]
      split
      all_goals
        simp only [List.length_cons]
        omega
    · have hrest := ih (item.toolCalls.map ToolCall.id)
      rw [stripFrom_cons hread]
      simp only [List.length_cons]
      omega

/-- The reported number of synthetic results is how much the conversation grew. -/
theorem length_repair (resolve : σ → String → String → String × σ) (s : σ)
    (items : List ConversationItem) :
    (repairDanglingToolCallsWith resolve s items).1.length =
      items.length + (repairDanglingToolCallsWith resolve s items).2.1 := by
  induction items using dedupDuplicateToolResults.induct generalizing s with
  | case1 =>
    rw [repairDanglingToolCallsWith]
    rfl
  | case2 item rest h ih =>
    have hrest := ih s
    rw [repair_cons_of_isEmpty _ _ h]
    simp only [List.length_cons]
    omega
  | case3 item rest h ih =>
    have hrest := congrArg List.length (leading_append_behind results rest)
    rw [List.length_append, List.length_map] at hrest
    rw [repair_cons _ _ h]
    simp only [List.length_cons, List.length_append, List.length_map, ih]
    omega

variable {items : List ConversationItem}

/-- A conversation without a removed duplicate is left as it is. -/
theorem dedup_eq_self (h : (dedupDuplicateToolResults items).2 = 0) :
    (dedupDuplicateToolResults items).1 = items := by
  induction items using dedupDuplicateToolResults.induct with
  | case1 => rw [dedupDuplicateToolResults]
  | case2 item rest hcalls ih =>
    rw [dedup_cons_of_isEmpty hcalls] at h ⊢
    exact congrArg (item :: ·) (ih h)
  | case3 item rest hcalls ih =>
    rw [dedup_cons hcalls] at h ⊢
    dsimp only at h ⊢
    have hkept : keepLast (leading results rest) = leading results rest :=
      (keepLast_sublist (leading results rest)).eq_of_length_le (by omega)
    rw [hkept, ih (by omega), leading_append_behind]

/-- A conversation without a stripped result is left as it is. -/
theorem stripFrom_eq_self {ids : List String}
    (h : (stripFrom ids items).2 = []) : (stripFrom ids items).1 = items := by
  induction items generalizing ids with
  | nil => rfl
  | cons item rest ih =>
    obtain ⟨t, rfl⟩ | hread := results.cases item
    · rw [results_embed, stripFrom] at h ⊢
      split at h
      · rename_i hmem
        rw [if_pos hmem]
        exact congrArg (ConversationItem.toolResult t :: ·) (ih h)
      · cases h
    · rw [stripFrom_cons hread] at h ⊢
      exact congrArg (item :: ·) (ih h)

/-- A conversation without an inserted result is left as it is. -/
theorem repair_eq_self {resolve : σ → String → String → String × σ} {s : σ}
    (h : (repairDanglingToolCallsWith resolve s items).2.1 = 0) :
    (repairDanglingToolCallsWith resolve s items).1 = items := by
  induction items using dedupDuplicateToolResults.induct generalizing s with
  | case1 => rw [repairDanglingToolCallsWith]
  | case2 item rest hcalls ih =>
    rw [repair_cons_of_isEmpty _ _ hcalls] at h ⊢
    exact congrArg (item :: ·) (ih h)
  | case3 item rest hcalls ih =>
    rw [repair_cons _ _ hcalls] at h ⊢
    dsimp only at h ⊢
    have hnone := List.eq_nil_of_length_eq_zero (Nat.eq_zero_of_add_eq_zero_right h)
    rw [hnone, List.append_nil, ih (Nat.eq_zero_of_add_eq_zero_left h), leading_append_behind]

/-- A history repair that reports no change leaves the conversation as it is. -/
theorem repairHistory_eq_self
    (h : (repairHistory items).2.changed = false) : (repairHistory items).1 = items := by
  simp only [HistoryRepairReport.changed, Bool.or_eq_false_iff, decide_eq_false_iff_not,
    Nat.not_lt, Nat.le_zero, Bool.not_eq_false', List.isEmpty_iff] at h
  obtain ⟨⟨hremoved, hstripped⟩, hinserted⟩ := h
  rw [repairHistory] at hremoved hstripped hinserted ⊢
  dsimp only at hremoved hstripped hinserted ⊢
  have hdedup := dedup_eq_self hremoved
  rw [hdedup] at hstripped hinserted ⊢
  have hstrip := stripFrom_eq_self hstripped
  rw [stripDisplacedToolResults] at hinserted ⊢
  rw [hstrip] at hinserted ⊢
  exact repair_eq_self hinserted

/-- Removing duplicates works run by run. -/
theorem cut_dedup (items : List ConversationItem) :
    cut results (dedupDuplicateToolResults items).1 = (cut results items).mapRuns dedupRun := by
  induction items using dedupDuplicateToolResults.induct with
  | case1 =>
    rw [dedupDuplicateToolResults]
    rfl
  | case2 item rest h ih =>
    rw [dedup_cons_of_isEmpty h]
    obtain ⟨t, rfl⟩ | hread := results.cases item
    · rw [cut_embed, cut_embed, ih]
      rfl
    · have hrun : ∀ run, dedupRun item run = run := fun run => if_pos h
      rw [cut_cons hread, cut_cons hread, ih]
      simp only [Cut.mapRuns, List.map_cons, hrun]
  | case3 item rest h ih =>
    have hread := read_of_toolCalls h
    have hrun : ∀ run, dedupRun item run = keepLast run := fun run => if_neg h
    rw [dedup_cons h, cut_cons hread, cut_cons_behind hread, cut_map_append, ih, cut_behind]
    simp only [Cut.mapRuns, List.map_cons, List.append_nil, hrun]

/-- Stripping displaced results works run by run. -/
theorem cut_strip (ids : List String) (items : List ConversationItem) :
    cut results (stripFrom ids items).1 =
      ⟨(cut results items).lead.filter fun t => decide (t.toolCallId ∈ ids),
        ((cut results items).mapRuns declaredRun).runs⟩ := by
  induction items generalizing ids with
  | nil => rfl
  | cons item rest ih =>
    obtain ⟨t, rfl⟩ | hread := results.cases item
    · rw [results_embed, stripFrom, cut_toolResult]
      by_cases h : t.toolCallId ∈ ids
      · rw [if_pos h, cut_toolResult, ih, List.filter_cons_of_pos (by simpa using h)]
        rfl
      · rw [if_neg h, ih, List.filter_cons_of_neg (by simpa using h)]
        rfl
    · rw [stripFrom_cons hread, cut_cons hread, cut_cons hread, ih]
      rfl

theorem answerCalls_resolveReason (reason : DanglingToolCallReason) (answered : List String)
    (calls : List ToolCall) :
    (answerCalls (resolveReason reason) answered () calls).1 =
      (calls.filter fun call => decide (call.id ∉ answered)).map fun call =>
        toolResultItem call.id (syntheticDanglingResultText call.name reason) := by
  induction calls with
  | nil => rfl
  | cons call calls ih =>
    rw [answerCalls]
    by_cases h : call.id ∈ answered
    · rw [if_pos h, ih, List.filter_cons_of_neg (by simpa using h)]
    · rw [if_neg h, List.filter_cons_of_pos (by simpa using h), List.map_cons, ← ih]
      rfl

/-- Answering the open calls works run by run. -/
theorem cut_repair (reason : DanglingToolCallReason) (items : List ConversationItem) :
    cut results (repairDanglingToolCalls reason items).1 =
      (cut results items).mapRuns fun head run => run ++ syntheticRun reason head run := by
  rw [repairDanglingToolCalls]
  induction items using dedupDuplicateToolResults.induct with
  | case1 =>
    rw [repairDanglingToolCallsWith]
    rfl
  | case2 item rest h ih =>
    rw [repair_cons_of_isEmpty _ _ h]
    obtain ⟨t, rfl⟩ | hread := results.cases item
    · rw [cut_embed, cut_embed, ih]
      rfl
    · have hrun : ∀ run, run ++ syntheticRun reason item run = run := by
        intro run
        rw [syntheticRun, unanswered, List.isEmpty_iff.mp h]
        exact List.append_nil run
      rw [cut_cons hread, cut_cons hread, ih]
      simp only [Cut.mapRuns, List.map_cons, hrun]
  | case3 item rest h ih =>
    have hread := read_of_toolCalls h
    rw [repair_cons _ _ h, cut_cons hread, cut_cons_behind hread, cut_map_append, ih,
      cut_behind, answerCalls_resolveReason]
    simp only [Cut.mapRuns, List.map_cons, List.append_nil]
    rfl

theorem any_eq_not_isEmpty {α : Type*} (p : α → Bool) (l : List α) :
    l.any p = !(l.filter p).isEmpty := by
  induction l with
  | nil => rfl
  | cons a l ih =>
    rw [List.any_cons, List.filter_cons, ih]
    cases p a <;> rfl

/-- A conversation has a dangling call when a run leaves a call of its head open. -/
theorem hasDanglingToolCalls_eq (items : List ConversationItem) :
    hasDanglingToolCalls items = (cut results items).runs.any fun r =>
      !(unanswered r.head (r.followers.map ToolResultItem.toolCallId)).isEmpty := by
  induction items using hasDanglingToolCalls.induct with
  | case1 =>
    rw [hasDanglingToolCalls]
    rfl
  | case2 item rest h ih =>
    rw [hasDanglingToolCalls, if_pos h, ih]
    obtain ⟨t, rfl⟩ | hread := results.cases item
    · rw [cut_embed]
    · rw [cut_cons hread, List.any_cons, unanswered, List.isEmpty_iff.mp h]
      rfl
  | case3 item rest h ih =>
    have hread := read_of_toolCalls h
    rw [hasDanglingToolCalls, if_neg h, cut_cons_behind hread, List.any_cons, ih, cut_behind]
    exact congrArg (· || _) (any_eq_not_isEmpty _ item.toolCalls)

/-- A conversation without a dangling call gets no synthetic result. -/
theorem repair_of_not_hasDangling (reason : DanglingToolCallReason)
    (h : hasDanglingToolCalls items = false) :
    (repairDanglingToolCalls reason items).1 = items := by
  rw [hasDanglingToolCalls_eq, List.any_eq_false] at h
  have hsame : ∀ r ∈ (cut results items).runs,
      ({ r with followers := r.followers ++ syntheticRun reason r.head r.followers } :
        Run results) = id r := by
    intro r hr
    have hnone := h r hr
    simp only [Bool.not_eq_true', Bool.not_eq_false, List.isEmpty_iff] at hnone
    rw [syntheticRun, hnone, List.map_nil, List.append_nil]
    rfl
  apply cut_injective (F := results)
  rw [cut_repair, Cut.mapRuns, List.map_congr_left hsame, List.map_id]

end Ezer.ChatState
