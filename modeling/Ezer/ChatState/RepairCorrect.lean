import Ezer.ChatState.Repair
import Mathlib.Data.List.Nodup

/-!
# What a history repair guarantees

After a repair every result stands in the run of its call and the other items
are untouched. A call id that one assistant item declares twice, and that its
run leaves open, is answered twice: exactly then the guarantee fails.
-/

namespace Ezer.ChatState

open Ezer.Lib

/-- The call ids an assistant item declares. -/
def AssistantItem.callIds (a : AssistantItem) : List String := a.toolCalls.map ToolCall.id

/-- The ids of the results that open a list. -/
def answeredIds (items : List ConversationItem) : List String :=
  (leading results items).map ToolResultItem.toolCallId

/-- The items of a conversation that are no tool results. -/
def otherItems (items : List ConversationItem) : List ConversationItem :=
  items.filter fun item => !item.isToolResult

/-- A conversation in the shape a provider accepts. -/
structure WellPaired (items : List ConversationItem) : Prop where
  /-- Every result lies in the run behind the assistant item that declares its id. -/
  placed : ∀ before t after, items = before ++ .toolResult t :: after →
    ∃ earlier a, ∃ run : List ToolResultItem,
      before = earlier ++ .assistant a :: run.map .toolResult ∧ t.toolCallId ∈ a.callIds
  /-- Every declared id has exactly one result in the run behind its item. -/
  answeredOnce : ∀ before a after, items = before ++ .assistant a :: after →
    ∀ id ∈ a.callIds, (answeredIds after).count id = 1

/-- What a history repair is for. -/
structure Repairs (items repaired : List ConversationItem) : Prop extends WellPaired repaired where
  /-- All other items are unchanged and in their order. -/
  others : otherItems repaired = otherItems items
  /-- The last correctly placed result of an id is kept behind the same item. -/
  kept : ∀ before a after early t late, items = before ++ .assistant a :: after →
    leading results after = early ++ t :: late → t.toolCallId ∈ a.callIds →
    t.toolCallId ∉ late.map ToolResultItem.toolCallId →
    ∃ before' after', repaired = before' ++ .assistant a :: after' ∧
      otherItems before' = otherItems before ∧ t ∈ leading results after'
  /-- No tool call is left dangling. -/
  noDangling : hasDanglingToolCalls repaired = false
  /-- A second repair changes nothing. -/
  stable : (repairHistory repaired).1 = repaired
  /-- A second repair reports that it changed nothing. -/
  unchanged : (repairHistory repaired).2.changed = false

/-! ## One run -/

/-- The results a repair keeps in a run. -/
def placedRun (head : ConversationItem) (run : List ToolResultItem) : List ToolResultItem :=
  declaredRun head (dedupRun head run)

/-- The run a repair leaves behind an item. -/
def repairedRun (head : ConversationItem) (run : List ToolResultItem) : List ToolResultItem :=
  placedRun head run ++
    syntheticRun (.harnessHalted "history_repair") head (placedRun head run)

theorem placedRun_eq (head : ConversationItem) (run : List ToolResultItem) :
    placedRun head run = declaredRun head (keepLast run) := by
  by_cases h : head.toolCalls.isEmpty = true
  · have hnone : ∀ results, declaredRun head results = [] := by
      intro results
      rw [declaredRun, List.isEmpty_iff.mp h]
      simp
    rw [placedRun, hnone, hnone]
  · rw [placedRun, dedupRun, if_neg h]

/-- Dropping duplicates loses no id. -/
theorem mem_keepLast_ids {run : List ToolResultItem} {id : String} :
    id ∈ (keepLast run).map ToolResultItem.toolCallId ↔
      id ∈ run.map ToolResultItem.toolCallId := by
  induction run with
  | nil => exact Iff.rfl
  | cons t rest ih =>
    rw [keepLast]
    split
    · rename_i h
      rw [ih, List.map_cons, List.mem_cons]
      constructor
      · exact Or.inr
      · rintro (rfl | hid)
        · exact h
        · exact hid
    · rw [List.map_cons, List.map_cons, List.mem_cons, List.mem_cons, ih]

theorem nodup_keepLast (run : List ToolResultItem) :
    ((keepLast run).map ToolResultItem.toolCallId).Nodup := by
  induction run with
  | nil => exact .nil
  | cons t rest ih =>
    rw [keepLast]
    split
    · exact ih
    · rename_i h
      rw [List.map_cons, List.nodup_cons, mem_keepLast_ids]
      exact ⟨h, ih⟩

theorem keepLast_of_nodup {run : List ToolResultItem}
    (h : (run.map ToolResultItem.toolCallId).Nodup) : keepLast run = run := by
  induction run with
  | nil => rfl
  | cons t rest ih =>
    rw [List.map_cons, List.nodup_cons] at h
    rw [keepLast, if_neg h.1, ih h.2]

theorem mem_keepLast_of_last {early late : List ToolResultItem} {t : ToolResultItem}
    (h : t.toolCallId ∉ late.map ToolResultItem.toolCallId) :
    t ∈ keepLast (early ++ t :: late) := by
  induction early with
  | nil =>
    rw [List.nil_append, keepLast, if_neg h]
    exact List.mem_cons_self
  | cons u early ih =>
    rw [List.cons_append, keepLast]
    split
    · exact ih
    · exact List.mem_cons_of_mem u ih

theorem mem_placedRun_ids {head : ConversationItem} {run : List ToolResultItem} {id : String} :
    id ∈ (placedRun head run).map ToolResultItem.toolCallId ↔
      id ∈ run.map ToolResultItem.toolCallId ∧ id ∈ head.toolCalls.map ToolCall.id := by
  have hkeep := @mem_keepLast_ids run id
  rw [placedRun_eq, ← hkeep, declaredRun]
  simp only [List.mem_map, List.mem_filter, decide_eq_true_eq]
  constructor
  · rintro ⟨t, ⟨ht, hcall⟩, rfl⟩
    exact ⟨⟨t, ht, rfl⟩, hcall⟩
  · rintro ⟨⟨t, ht, rfl⟩, hcall⟩
    exact ⟨t, ⟨ht, hcall⟩, rfl⟩

theorem nodup_placedRun (head : ConversationItem) (run : List ToolResultItem) :
    ((placedRun head run).map ToolResultItem.toolCallId).Nodup := by
  rw [placedRun_eq]
  exact (nodup_keepLast run).sublist (List.filter_sublist.map _)

theorem syntheticRun_ids (reason : DanglingToolCallReason) (head : ConversationItem)
    (run : List ToolResultItem) :
    (syntheticRun reason head run).map ToolResultItem.toolCallId =
      (head.toolCalls.map ToolCall.id).filter fun id =>
        decide (id ∉ run.map ToolResultItem.toolCallId) := by
  rw [syntheticRun, List.map_map, unanswered, List.filter_map]
  rfl

/-- A repaired run only holds results of its calls. -/
theorem declared_of_mem_repairedRun {head : ConversationItem} {run : List ToolResultItem}
    {t : ToolResultItem} (h : t ∈ repairedRun head run) :
    t.toolCallId ∈ head.toolCalls.map ToolCall.id := by
  have hid : t.toolCallId ∈ (repairedRun head run).map ToolResultItem.toolCallId :=
    List.mem_map_of_mem h
  rw [repairedRun, List.map_append, List.mem_append, syntheticRun_ids, mem_placedRun_ids] at hid
  obtain ⟨-, hid⟩ | hid := hid
  · exact hid
  · exact List.mem_of_mem_filter hid

/-- How often a repaired run answers a call. -/
theorem count_repairedRun {head : ConversationItem} {run : List ToolResultItem} {id : String}
    (h : id ∈ head.toolCalls.map ToolCall.id) :
    ((repairedRun head run).map ToolResultItem.toolCallId).count id =
      if id ∈ run.map ToolResultItem.toolCallId then 1
      else (head.toolCalls.map ToolCall.id).count id := by
  rw [repairedRun, List.map_append, List.count_append, syntheticRun_ids]
  have hplaced : id ∈ (placedRun head run).map ToolResultItem.toolCallId ↔
      id ∈ run.map ToolResultItem.toolCallId := by
    rw [mem_placedRun_ids]
    exact and_iff_left h
  split
  · rename_i hrun
    have hmem := hplaced.mpr hrun
    have hone := List.count_eq_one_of_mem (nodup_placedRun head run) hmem
    have hnone : id ∉ (head.toolCalls.map ToolCall.id).filter fun id =>
        decide (id ∉ (placedRun head run).map ToolResultItem.toolCallId) := by
      intro hin
      have hopen := List.of_mem_filter hin
      simp only [decide_eq_true_eq] at hopen
      exact hopen hmem
    rw [hone, List.count_eq_zero_of_not_mem hnone]
  · rename_i hrun
    have hmem : id ∉ (placedRun head run).map ToolResultItem.toolCallId := mt hplaced.mp hrun
    rw [List.count_eq_zero_of_not_mem hmem, List.count_filter (by simpa using hmem), Nat.zero_add]

/-- Every declared id has an answer in a repaired run. -/
theorem mem_repairedRun_ids {head : ConversationItem} {run : List ToolResultItem} {id : String}
    (h : id ∈ head.toolCalls.map ToolCall.id) :
    id ∈ (repairedRun head run).map ToolResultItem.toolCallId := by
  rw [← List.count_pos_iff, count_repairedRun h]
  split
  · exact Nat.one_pos
  · exact List.count_pos_iff.mpr h

/-! ## The whole conversation -/

theorem cut_repairHistory (items : List ConversationItem) :
    cut results (repairHistory items).1 =
      ⟨[], ((cut results items).mapRuns repairedRun).runs⟩ := by
  rw [repairHistory, cut_repair, stripDisplacedToolResults, cut_strip, cut_dedup]
  have hlead : ∀ lead : List ToolResultItem,
      (lead.filter fun t => decide (t.toolCallId ∈ ([] : List String))) = [] := by
    intro lead
    rw [List.filter_eq_nil_iff]
    simp
  rw [hlead, mapRuns_mapRuns]
  simp only [Cut.mapRuns, List.map_map]
  rfl

/-- The other items are the heads of the runs. -/
theorem otherItems_eq (items : List ConversationItem) :
    otherItems items = (cut results items).runs.map Run.head := by
  rw [heads_cut, otherItems]
  simp only [results_read_isNone]

theorem eq_assistant_of_toolCalls {item : ConversationItem} {id : String}
    (h : id ∈ item.toolCalls.map ToolCall.id) :
    ∃ a, item = .assistant a ∧ id ∈ a.callIds := by
  cases item with
  | assistant a => exact ⟨a, rfl, h⟩
  | _ => cases h

variable {items : List ConversationItem}

theorem mem_runs_of_assistant {before after : List ConversationItem} {a : AssistantItem}
    (h : items = before ++ .assistant a :: after) :
    ⟨.assistant a, rfl, leading results after⟩ ∈ (cut results items).runs := by
  rw [h, cut_append_cons (results_read_assistant a)]
  exact List.mem_append_right _ List.mem_cons_self

theorem exists_run_of_result {before after : List ConversationItem} {t : ToolResultItem}
    (hlead : (cut results items).lead = []) (h : items = before ++ .toolResult t :: after) :
    ∃ earlier head, ∃ run : List ToolResultItem, before = earlier ++ head :: run.map .toolResult ∧
      ∃ r ∈ (cut results items).runs, r.head = head ∧ t ∈ r.followers := by
  obtain ⟨followers, rfl⟩ | ⟨earlier, head, run, hread, rfl⟩ :=
    exists_last_head (F := results) before
  · exfalso
    rw [h, ← results_embed, cut_map_append, cut_embed] at hlead
    exact List.append_ne_nil_of_right_ne_nil _ (List.cons_ne_nil _ _) hlead
  · refine ⟨earlier, head, run, rfl, ⟨head, hread, run ++ t :: leading results after⟩, ?_, rfl, ?_⟩
    · rw [h, List.append_assoc, List.cons_append, cut_append_cons hread, ← results_embed,
        leading_map_append, leading_embed]
      exact List.mem_append_right _ List.mem_cons_self
    · exact List.mem_append_right _ List.mem_cons_self

theorem wellPaired_of_runs (hlead : (cut results items).lead = [])
    (hdeclared : ∀ r ∈ (cut results items).runs, ∀ t ∈ r.followers,
      t.toolCallId ∈ r.head.toolCalls.map ToolCall.id)
    (honce : ∀ r ∈ (cut results items).runs, ∀ id ∈ r.head.toolCalls.map ToolCall.id,
      (r.followers.map ToolResultItem.toolCallId).count id = 1) : WellPaired items where
  placed before t after h := by
    obtain ⟨earlier, head, run, hbefore, r, hr, rfl, ht⟩ := exists_run_of_result hlead h
    obtain ⟨a, ha, hid⟩ := eq_assistant_of_toolCalls (hdeclared r hr t ht)
    rw [ha] at hbefore
    exact ⟨earlier, a, run, hbefore, hid⟩
  answeredOnce before a after h id hid := honce _ (mem_runs_of_assistant h) id hid

/-- The runs of a well paired conversation: declared results, one for every call. -/
def PairedRun (r : Run results) : Prop :=
  (∀ t ∈ r.followers, t.toolCallId ∈ r.head.toolCalls.map ToolCall.id) ∧
    ∀ id ∈ r.head.toolCalls.map ToolCall.id,
      (r.followers.map ToolResultItem.toolCallId).count id = 1

variable {r : Run results}

theorem PairedRun.nodup (h : PairedRun r) : (r.followers.map ToolResultItem.toolCallId).Nodup := by
  rw [List.nodup_iff_count_le_one]
  intro id
  by_cases hid : id ∈ r.followers.map ToolResultItem.toolCallId
  · obtain ⟨t, ht, rfl⟩ := List.mem_map.mp hid
    exact Nat.le_of_eq (h.2 t.toolCallId (h.1 t ht))
  · rw [List.count_eq_zero_of_not_mem hid]
    exact Nat.zero_le 1

theorem PairedRun.answered (h : PairedRun r) {id : String}
    (hid : id ∈ r.head.toolCalls.map ToolCall.id) :
    id ∈ r.followers.map ToolResultItem.toolCallId := by
  apply List.count_pos_iff.mp
  rw [h.2 id hid]
  exact Nat.one_pos

theorem PairedRun.dedupRun (h : PairedRun r) :
    dedupRun r.head r.followers = r.followers := by
  rw [ChatState.dedupRun]
  split
  · rfl
  · exact keepLast_of_nodup h.nodup

theorem PairedRun.declaredRun (h : PairedRun r) :
    declaredRun r.head r.followers = r.followers := by
  apply List.filter_eq_self.mpr
  intro t ht
  exact decide_eq_true (h.1 t ht)

theorem PairedRun.unanswered (h : PairedRun r) :
    unanswered r.head (r.followers.map ToolResultItem.toolCallId) = [] := by
  apply List.filter_eq_nil_iff.mpr
  intro call hcall
  simp only [decide_eq_true_eq, not_not]
  exact h.answered (List.mem_map_of_mem hcall)

/-- A pass that leaves every run as it is leaves the conversation as it is. -/
theorem eq_of_cut_mapRuns {items' : List ConversationItem}
    {f : ConversationItem → List ToolResultItem → List ToolResultItem}
    (hf : ∀ r ∈ (cut results items).runs, f r.head r.followers = r.followers)
    (h : cut results items' = (cut results items).mapRuns f) : items' = items := by
  apply cut_injective (F := results)
  have hsame : ∀ r ∈ (cut results items).runs,
      ({ r with followers := f r.head r.followers } : Run results) = id r := by
    intro r hr
    rw [hf r hr]
    rfl
  rw [h, Cut.mapRuns, List.map_congr_left hsame, List.map_id]

theorem repairHistory_of_runs (hlead : (cut results items).lead = [])
    (hruns : ∀ r ∈ (cut results items).runs, PairedRun r) :
    repairHistory items = (items, ⟨0, [], 0⟩) := by
  have hdedup : (dedupDuplicateToolResults items).1 = items :=
    eq_of_cut_mapRuns (fun r hr => (hruns r hr).dedupRun) (cut_dedup items)
  have hstrip : (stripDisplacedToolResults items).1 = items := by
    apply eq_of_cut_mapRuns (fun r hr => (hruns r hr).declaredRun)
    rw [stripDisplacedToolResults, cut_strip, hlead]
    exact congrArg₂ Cut.mk hlead.symm rfl
  have hrepair : (repairDanglingToolCalls (.harnessHalted "history_repair") items).1 = items := by
    apply eq_of_cut_mapRuns _ (cut_repair _ items)
    intro r hr
    rw [syntheticRun, (hruns r hr).unanswered]
    exact List.append_nil _
  have hremoved : (dedupDuplicateToolResults items).2 = 0 := by
    have h := length_dedup items
    rw [hdedup] at h
    omega
  have hstripped : (stripDisplacedToolResults items).2 = [] := by
    have h := length_stripFrom [] items
    rw [stripDisplacedToolResults] at hstrip
    rw [hstrip] at h
    apply List.eq_nil_of_length_eq_zero
    rw [stripDisplacedToolResults]
    omega
  have hinserted :
      (repairDanglingToolCalls (.harnessHalted "history_repair") items).2 = 0 := by
    have h := length_repair (resolveReason (.harnessHalted "history_repair")) () items
    rw [repairDanglingToolCalls] at hrepair ⊢
    dsimp only at hrepair ⊢
    rw [hrepair] at h
    omega
  rw [repairHistory]
  simp only [hdedup, hremoved, hstrip, hstripped, hrepair, hinserted]

/-- No call id that an assistant item declares more than once is left open by its run. -/
def OpenCallsDistinct (items : List ConversationItem) : Prop :=
  ∀ before a after, items = before ++ .assistant a :: after →
    ∀ id, id ∉ answeredIds after → a.callIds.count id ≤ 1

theorem pairedRun_repairedRun (h : ∀ id, id ∉ r.followers.map ToolResultItem.toolCallId →
      (r.head.toolCalls.map ToolCall.id).count id ≤ 1) :
    PairedRun { r with followers := repairedRun r.head r.followers } := by
  refine ⟨fun t ht => declared_of_mem_repairedRun ht, ?_⟩
  intro id hid
  rw [count_repairedRun hid]
  split
  · rfl
  · rename_i hopen
    have hpos := List.count_pos_iff.mpr hid
    have hle := h id hopen
    change (r.head.toolCalls.map ToolCall.id).count id = 1
    change 0 < (r.head.toolCalls.map ToolCall.id).count id at hpos
    omega

/-- The runs a repair leaves, one for each run of the conversation. -/
theorem mem_runs_repairHistory (h : r ∈ (cut results (repairHistory items).1).runs) :
    ∃ r₀ ∈ (cut results items).runs,
      r = { r₀ with followers := repairedRun r₀.head r₀.followers } := by
  rw [cut_repairHistory] at h
  obtain ⟨r₀, hr₀, rfl⟩ := List.mem_map.mp h
  exact ⟨r₀, hr₀, rfl⟩

theorem OpenCallsDistinct.run (h : OpenCallsDistinct items) (hr : r ∈ (cut results items).runs) :
    ∀ id, id ∉ r.followers.map ToolResultItem.toolCallId →
      (r.head.toolCalls.map ToolCall.id).count id ≤ 1 := by
  intro id hopen
  obtain ⟨early, late, hsplit⟩ := List.append_of_mem hr
  obtain ⟨before, after, hitems, hfollowers, -⟩ := exists_of_runs hsplit
  by_cases hid : id ∈ r.head.toolCalls.map ToolCall.id
  · obtain ⟨a, ha, -⟩ := eq_assistant_of_toolCalls hid
    rw [ha] at hitems ⊢
    apply h before a after hitems id
    rw [answeredIds, hfollowers]
    exact hopen
  · rw [List.count_eq_zero_of_not_mem hid]
    exact Nat.zero_le 1

theorem otherItems_repairHistory (items : List ConversationItem) :
    otherItems (repairHistory items).1 = otherItems items := by
  rw [otherItems_eq, otherItems_eq, cut_repairHistory]
  exact heads_mapRuns repairedRun (cut results items)

/-- The run behind an assistant item is repaired in its place. -/
theorem repairHistory_run (before after : List ConversationItem) (a : AssistantItem) :
    ∃ before' after',
      (repairHistory (before ++ .assistant a :: after)).1 = before' ++ .assistant a :: after' ∧
        otherItems before' = otherItems before ∧
        leading results after' = repairedRun (.assistant a) (leading results after) := by
  have hruns := congrArg Cut.runs (cut_repairHistory (before ++ .assistant a :: after))
  rw [cut_append_cons (results_read_assistant a)] at hruns
  simp only [Cut.mapRuns, List.map_append, List.map_cons] at hruns
  obtain ⟨before', after', hitems, hfollowers, hbefore⟩ := exists_of_runs hruns
  refine ⟨before', after', hitems, ?_, hfollowers⟩
  rw [otherItems_eq, otherItems_eq, hbefore, List.map_map]
  rfl

theorem hasDanglingToolCalls_repairHistory (items : List ConversationItem) :
    hasDanglingToolCalls (repairHistory items).1 = false := by
  rw [hasDanglingToolCalls_eq, List.any_eq_false]
  intro r hr
  obtain ⟨r₀, -, rfl⟩ := mem_runs_repairHistory hr
  have hnone : unanswered r₀.head
      ((repairedRun r₀.head r₀.followers).map ToolResultItem.toolCallId) = [] := by
    apply List.filter_eq_nil_iff.mpr
    intro call hcall
    simp only [decide_eq_true_eq, not_not]
    exact mem_repairedRun_ids (List.mem_map_of_mem hcall)
  rw [hnone]
  exact Bool.false_ne_true

/-- A repair reaches its purpose exactly when no open call is declared twice by one item. -/
theorem repairHistory_repairs_iff (items : List ConversationItem) :
    Repairs items (repairHistory items).1 ↔ OpenCallsDistinct items := by
  constructor
  · intro h before a after hitems id hopen
    by_cases hid : id ∈ a.callIds
    · obtain ⟨before', after', hrepaired, -, hrun⟩ := repairHistory_run before after a
      rw [← hitems] at hrepaired
      have honce := h.answeredOnce before' a after' hrepaired id hid
      rw [answeredIds] at hopen honce
      rw [hrun, count_repairedRun hid, if_neg hopen] at honce
      exact Nat.le_of_eq honce
    · rw [List.count_eq_zero_of_not_mem hid]
      exact Nat.zero_le 1
  · intro h
    have hlead : (cut results (repairHistory items).1).lead = [] := by
      rw [cut_repairHistory]
    have hpaired : ∀ r ∈ (cut results (repairHistory items).1).runs, PairedRun r := by
      intro r hr
      obtain ⟨r₀, hr₀, rfl⟩ := mem_runs_repairHistory hr
      exact pairedRun_repairedRun (h.run hr₀)
    have hfixed := repairHistory_of_runs hlead hpaired
    have hwell := wellPaired_of_runs hlead (fun r hr => (hpaired r hr).1)
      (fun r hr => (hpaired r hr).2)
    refine ⟨hwell, otherItems_repairHistory items, ?_, hasDanglingToolCalls_repairHistory items,
      by rw [hfixed], ?_⟩
    · intro before a after early t late hitems hrun hid hlast
      obtain ⟨before', after', hrepaired, hothers, hleading⟩ := repairHistory_run before after a
      rw [← hitems] at hrepaired
      refine ⟨before', after', hrepaired, hothers, ?_⟩
      rw [hleading, hrun, repairedRun, placedRun_eq]
      apply List.mem_append_left
      exact List.mem_filter.mpr ⟨mem_keepLast_of_last hlast, decide_eq_true hid⟩
    · rw [hfixed]
      rfl

/-- One response that declares a call twice: the repair answers it twice and repairs itself. -/
theorem repeated_call_not_repaired :
    ¬Repairs
      [.assistant ⟨"", [⟨"c1", "bash", "{}"⟩, ⟨"c1", "bash", "{}"⟩], none, none⟩]
      (repairHistory
        [.assistant ⟨"", [⟨"c1", "bash", "{}"⟩, ⟨"c1", "bash", "{}"⟩], none,
          none⟩]).1 := by
  intro h
  have hchanged := h.unchanged
  revert hchanged
  decide +kernel

end Ezer.ChatState
