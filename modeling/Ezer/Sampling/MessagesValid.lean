import Ezer.ChatState.RepairCorrect
import Ezer.Sampling.MessagesTurns
import Mathlib.Algebra.BigOperators.Group.List.Basic

/-!
# Requests of repaired conversations

A conversation that a repair leaves unchanged becomes a request in which the
calls of every message are answered in the next one. The ids stay apart exactly
when their replacement characters keep them apart.
-/

namespace Ezer.Sampling

open Ezer.Lib Ezer.ChatState

section

variable {J : Type*} (codec : Codec J)

/-- The ids of the tool calls in a message. -/
def Message.toolUseIds (m : Message J) : List String :=
  m.blocks.filterMap fun
    | .toolUse id _ _ _ => some id
    | _ => none

/-- The ids of the tool results in a message. -/
def Message.toolResultIds (m : Message J) : List String :=
  m.blocks.filterMap fun
    | .toolResult id _ _ => some id
    | _ => none

/-- Whether a block is one of thinking. -/
def ContentBlock.isThinking : ContentBlock J → Bool
  | .thinking _ _ => true
  | .redactedThinking _ => true
  | _ => false

/-- A request for a conversation that the provider accepts and that says all of it. -/
structure ValidRequest (items : List ConversationItem) (req : MessagesRequest J) : Prop where
  /-- Every tool call has exactly one result, in the very next user message. -/
  calls_answered : ∀ (i : ℕ) (m : Message J), req.messages[i]? = some m → ∀ id ∈ m.toolUseIds,
    m.role = .assistant ∧ ∃ n, req.messages[i + 1]? = some n ∧ n.role = .user ∧
      n.toolResultIds.count id = 1
  /-- Every tool result answers a call of the assistant message before it. -/
  results_answer : ∀ (i : ℕ) (n : Message J), req.messages[i]? = some n → ∀ id ∈ n.toolResultIds,
    ∃ j m, i = j + 1 ∧ req.messages[j]? = some m ∧ m.role = .assistant ∧ id ∈ m.toolUseIds
  /-- The ids of the calls of one message are distinct. -/
  calls_distinct : ∀ m ∈ req.messages, m.toolUseIds.Nodup
  /-- No two assistant messages are adjacent. -/
  alternating : Alternating req.messages
  /-- At most three breakpoints are set. -/
  breakpoints_le : req.breakpoints ≤ 3
  /-- No block of thinking carries one. -/
  thinking_unmarked : ∀ m ∈ req.messages, ∀ b ∈ m.blocks, b.isThinking = true → b.breakpoints = 0
  /-- The items say in order what the messages say. -/
  said : messagesSaid req.messages = items.flatMap (itemSaid codec)
  /-- The texts of the system items come in order in the system prompt. -/
  system_said : (req.system.map SystemParam.texts).getD [] = items.filterMap systemText

/-- The ids that an item declares, as they are sent. -/
def sentIds (item : ConversationItem) : List String :=
  item.toolCalls.map fun call => sanitizeToolCallId codec call.id

/-! ## What a repair leaves -/

theorem eq_of_map_eq_self {α : Type*} {f : α → α} {l : List α} (h : l = l.map f) :
    ∀ x ∈ l, x = f x := by
  induction l with
  | nil => exact fun x hx => (List.not_mem_nil hx).elim
  | cons a l ih =>
    obtain ⟨ha, hl⟩ := List.cons.inj h
    exact List.forall_mem_cons.mpr ⟨ha, ih hl⟩

variable {items : List ConversationItem}

/-- A conversation that a repair leaves unchanged consists of paired runs. -/
theorem pairedRuns_of_unchanged (h : (repairHistory items).1 = items) :
    (cut results items).lead = [] ∧ ∀ r ∈ (cut results items).runs, PairedRun r := by
  have hcut := cut_repairHistory items
  rw [h] at hcut
  refine ⟨congrArg Cut.lead hcut, fun r hr => ?_⟩
  have hself := eq_of_map_eq_self (congrArg Cut.runs hcut) r hr
  have hfollowers : r.followers = repairedRun r.head r.followers := congrArg Run.followers hself
  constructor
  · intro t ht
    rw [hfollowers] at ht
    exact declared_of_mem_repairedRun ht
  · intro id hid
    have hmem : id ∈ r.followers.map ToolResultItem.toolCallId := by
      have hmem := @mem_repairedRun_ids r.head r.followers id hid
      rwa [← hfollowers] at hmem
    have hcount := @count_repairedRun r.head r.followers id hid
    rwa [← hfollowers, if_pos hmem] at hcount

variable {r : Run results}

theorem followers_eq_nil (h : PairedRun r) (hcalls : r.head.toolCalls = []) :
    r.followers = [] := by
  cases hfollowers : r.followers with
  | nil => rfl
  | cons t rest =>
    have hdeclared := h.1 t (hfollowers ▸ List.mem_cons_self ..)
    rw [hcalls] at hdeclared
    cases hdeclared

theorem followers_ne_nil (h : PairedRun r) (hcalls : r.head.toolCalls ≠ []) :
    r.followers ≠ [] := by
  obtain ⟨call, rest, hcons⟩ := List.exists_cons_of_ne_nil hcalls
  have hdeclared : call.id ∈ r.head.toolCalls.map ToolCall.id := by
    rw [hcons]
    exact List.mem_cons_self ..
  have hanswered := h.answered hdeclared
  intro hnil
  rw [hnil] at hanswered
  cases hanswered

/-! ## Calls and results in messages -/

/-- The ids of the calls among some blocks. -/
def useIdsOf (blocks : List (ContentBlock J)) : List String :=
  blocks.filterMap fun
    | .toolUse id _ _ _ => some id
    | _ => none

/-- The ids of the results among some blocks. -/
def resultIdsOf (blocks : List (ContentBlock J)) : List String :=
  blocks.filterMap fun
    | .toolResult id _ _ => some id
    | _ => none

theorem toolUseIds_bare (m : Message J) : m.toolUseIds = useIdsOf m.bare.2 := by
  unfold Message.toolUseIds useIdsOf Message.bare
  rw [List.filterMap_map]
  congr 1
  funext b
  cases b <;> rfl

theorem toolResultIds_bare (m : Message J) : m.toolResultIds = resultIdsOf m.bare.2 := by
  unfold Message.toolResultIds resultIdsOf Message.bare
  rw [List.filterMap_map]
  congr 1
  funext b
  cases b <;> rfl

theorem ids_userBlocks (parts : List ContentPart) :
    useIdsOf (contentPartsToAnthropicBlocks parts : List (ContentBlock J)) = [] ∧
      resultIdsOf (contentPartsToAnthropicBlocks parts : List (ContentBlock J)) = [] := by
  have hpart : ∀ b ∈ (contentPartsToAnthropicBlocks parts : List (ContentBlock J)),
      (∃ content control, b = .text content control) ∨
        ∃ source control, b = .image source control := by
    intro b hb
    obtain ⟨part, -, rfl⟩ := List.mem_map.mp hb
    cases part with
    | text content => exact .inl ⟨_, _, rfl⟩
    | image url =>
      simp only [imageBlock]
      split
      · split
        · exact .inr ⟨_, _, rfl⟩
        · exact .inl ⟨_, _, rfl⟩
      · split
        · exact .inr ⟨_, _, rfl⟩
        · exact .inl ⟨_, _, rfl⟩
  constructor
  · apply List.filterMap_eq_nil_iff.mpr
    intro b hb
    rcases hpart b hb with ⟨_, _, rfl⟩ | ⟨_, _, rfl⟩ <;> rfl
  · apply List.filterMap_eq_nil_iff.mpr
    intro b hb
    rcases hpart b hb with ⟨_, _, rfl⟩ | ⟨_, _, rfl⟩ <;> rfl

theorem ids_assistantBlocks (item : ConversationItem) :
    useIdsOf (assistantBlocks codec item) = sentIds codec item ∧
      resultIdsOf (assistantBlocks codec item) = [] := by
  cases item with
  | assistant a =>
    have hcalls : useIdsOf (a.toolCalls.map (toolUseBlock codec)) =
        a.toolCalls.map (fun call => sanitizeToolCallId codec call.id) ∧
          resultIdsOf (a.toolCalls.map (toolUseBlock codec)) = [] := by
      induction a.toolCalls with
      | nil => exact ⟨rfl, rfl⟩
      | cons call calls ih =>
        obtain ⟨huses, hresults⟩ := ih
        exact ⟨congrArg _ huses, hresults⟩
    unfold assistantBlocks sentIds
    rw [useIdsOf, resultIdsOf, List.filterMap_append, List.filterMap_append]
    split
    · exact hcalls
    · exact hcalls
  | reasoning r =>
    unfold assistantBlocks
    dsimp only
    split <;> exact ⟨rfl, rfl⟩
  | _ => exact ⟨rfl, rfl⟩

/-- A message without calls and results. -/
def Plain (m : Message J) : Prop := m.toolUseIds = [] ∧ m.toolResultIds = []

/-- The message with the calls of a run, and the message with their results. -/
structure Exchange (r : Run results) (asked answered : Message J) : Prop where
  asked_role : asked.role = .assistant
  answered_role : answered.role = .user
  asks : asked.toolUseIds = sentIds codec r.head
  asks_only : asked.toolResultIds = []
  answers : answered.toolResultIds =
    r.followers.map fun t => sanitizeToolCallId codec t.toolCallId
  answers_only : answered.toolUseIds = []

/-- Messages made of plain ones and of one exchange for each run that has calls. -/
def Exchanges (runs : List (Run results)) (messages : List (Message J)) : Prop :=
  ∃ groups : List (List (Message J)), messages = groups.flatten ∧
    (∀ g ∈ groups, (∃ m, g = [m] ∧ Plain m) ∨ ∃ r ∈ runs, r.head.toolCalls ≠ [] ∧
      ∃ asked answered, g = [asked, answered] ∧ Exchange codec r asked answered) ∧
    ∀ r ∈ runs, r.head.toolCalls ≠ [] →
      ∃ asked answered, [asked, answered] ∈ groups ∧ Exchange codec r asked answered

variable {codec}

theorem Exchanges.nil : Exchanges codec [] ([] : List (Message J)) :=
  ⟨[], rfl, fun _ hg => (List.not_mem_nil hg).elim, fun _ hr => (List.not_mem_nil hr).elim⟩

variable {runs : List (Run results)} {messages ms ms' : List (Message J)} {m : Message J}

theorem Exchanges.plain (h : Exchanges codec runs messages) (hm : Plain m) :
    Exchanges codec runs (messages ++ [m]) := by
  obtain ⟨groups, rfl, hgroups, hruns⟩ := h
  refine ⟨groups ++ [[m]], by simp, fun g hg => ?_, fun r hr hcalls => ?_⟩
  · rcases List.mem_append.mp hg with hg | hg
    · exact hgroups g hg
    · exact .inl ⟨m, List.mem_singleton.mp hg, hm⟩
  · obtain ⟨asked, answered, hmem, hexchange⟩ := hruns r hr hcalls
    exact ⟨asked, answered, List.mem_append_left _ hmem, hexchange⟩

theorem Exchanges.silent (h : Exchanges codec runs messages) (hr : r.head.toolCalls = []) :
    Exchanges codec (runs ++ [r]) messages := by
  obtain ⟨groups, rfl, hgroups, hruns⟩ := h
  refine ⟨groups, rfl, fun g hg => ?_, fun r' hr' hcalls => ?_⟩
  · rcases hgroups g hg with hplain | ⟨r', hr', hexchange⟩
    · exact .inl hplain
    · exact .inr ⟨r', List.mem_append_left _ hr', hexchange⟩
  · rcases List.mem_append.mp hr' with hr' | hr'
    · exact hruns r' hr' hcalls
    · rw [List.mem_singleton.mp hr'] at hcalls
      exact (hcalls hr).elim

theorem Exchanges.exchange (h : Exchanges codec runs messages) (hcalls : r.head.toolCalls ≠ [])
    {asked answered : Message J} (hexchange : Exchange codec r asked answered) :
    Exchanges codec (runs ++ [r]) (messages ++ [asked, answered]) := by
  obtain ⟨groups, rfl, hgroups, hruns⟩ := h
  refine ⟨groups ++ [[asked, answered]], by simp, fun g hg => ?_, fun r' hr' hcalls' => ?_⟩
  · rcases List.mem_append.mp hg with hg | hg
    · rcases hgroups g hg with hplain | ⟨r', hr', hexchange'⟩
      · exact .inl hplain
      · exact .inr ⟨r', List.mem_append_left _ hr', hexchange'⟩
    · exact .inr ⟨r, by simp, hcalls, asked, answered, List.mem_singleton.mp hg, hexchange⟩
  · rcases List.mem_append.mp hr' with hr' | hr'
    · obtain ⟨asked', answered', hmem, hexchange'⟩ := hruns r' hr' hcalls'
      exact ⟨asked', answered', List.mem_append_left _ hmem, hexchange'⟩
    · obtain rfl := List.mem_singleton.mp hr'
      exact ⟨asked, answered, by simp, hexchange⟩

variable (codec)

/-- Between two runs the messages are exchanges, and what is pending has no calls. -/
structure Between (runs : List (Run results)) (b : Building J) : Prop where
  one_side : b.OneSide
  exchanges : Exchanges codec runs b.flushToolResults.messages
  pending_uses : useIdsOf b.pendingAssistant = []
  pending_results : resultIdsOf b.pendingAssistant = []

theorem foldl_followers (b : Building J) (followers : List ToolResultItem) :
    (followers.map results.embed).foldl (Building.push codec) b =
      if followers = [] then b
      else
        { b.flushAssistant with
          pendingToolResults := b.pendingToolResults ++ followers.map (toolResultBlock codec) } := by
  induction followers generalizing b with
  | nil => rfl
  | cons t followers ih =>
    rw [List.map_cons, List.foldl_cons, ih, if_neg (List.cons_ne_nil t followers)]
    have hflush : (b.push codec (results.embed t)).flushAssistant = b.push codec (results.embed t) :=
      flushAssistant_of_nil (pendingAssistant_flushAssistant b)
    by_cases hnil : followers = []
    · rw [if_pos hnil, hnil]
      simp [Building.push]
    · rw [if_neg hnil, hflush]
      simp [Building.push]

variable {codec}

variable {b : Building J}

theorem Between.flushed (h : Between codec runs b) : Exchanges codec runs b.flushed.messages := by
  unfold Building.flushed
  rcases h.one_side with hnil | hnil
  · rw [flushAssistant_of_nil hnil]
    exact h.exchanges
  · have hexchanges := h.exchanges
    rw [flushToolResults_of_nil hnil] at hexchanges
    rw [flushToolResults_of_nil ((pendingToolResults_flushAssistant b).trans hnil)]
    by_cases hpending : b.pendingAssistant = []
    · rwa [flushAssistant_of_nil hpending]
    · rw [flushAssistant_of_ne_nil hpending]
      exact hexchanges.plain ⟨h.pending_uses, h.pending_results⟩

/-- Reading a paired run keeps the messages exchanges. -/
theorem Between.run (h : Between codec runs b) (hr : PairedRun r) :
    Between codec (runs ++ [r]) (r.items.foldl (Building.push codec) b) := by
  have hflushed := h.flushed
  have hpending : b.flushed.pendingAssistant = [] := by simp [Building.flushed]
  have hresults : b.flushed.pendingToolResults = [] := by simp [Building.flushed]
  obtain ⟨head, hread, followers⟩ := r
  rw [Run.items, List.foldl_cons, foldl_followers]
  by_cases hcalls : head.toolCalls = []
  · rw [if_pos (followers_eq_nil hr hcalls)]
    cases hassistant : ofAssistant head with
    | true =>
      have hids := ids_assistantBlocks codec head
      rw [push_of_assistant codec hassistant]
      refine ⟨.inr (pendingToolResults_flushToolResults b), ?_, ?_, ?_⟩
      · rw [flushToolResults_of_nil]
        · exact h.exchanges.silent hcalls
        · exact pendingToolResults_flushToolResults b
      · rw [useIdsOf, List.filterMap_append, pendingAssistant_flushToolResults, ← useIdsOf,
          h.pending_uses, ← useIdsOf, hids.1, sentIds, hcalls]
        rfl
      · rw [resultIdsOf, List.filterMap_append, pendingAssistant_flushToolResults, ← resultIdsOf,
          h.pending_results, ← resultIdsOf, hids.2]
        rfl
    | false =>
      cases head with
      | system s =>
        refine ⟨.inl hpending, ?_, ?_, ?_⟩
        · rw [flushToolResults_of_nil]
          · exact hflushed.silent hcalls
          · exact hresults
        · exact congrArg useIdsOf hpending
        · exact congrArg resultIdsOf hpending
      | user u =>
        refine ⟨.inl hpending, ?_, ?_, ?_⟩
        · rw [flushToolResults_of_nil]
          · have hplain : Plain (⟨.user, .blocks (contentPartsToAnthropicBlocks u.content)⟩ :
                Message J) := ids_userBlocks u.content
            exact (hflushed.plain hplain).silent hcalls
          · exact hresults
        · exact congrArg useIdsOf hpending
        · exact congrArg resultIdsOf hpending
      | toolResult t => cases hread
      | assistant | backendToolCall | reasoning => cases hassistant
  · have hne := followers_ne_nil hr hcalls
    have hassistant : ofAssistant head = true := by
      cases head with
      | assistant a => rfl
      | _ => exact (hcalls rfl).elim
    have hids := ids_assistantBlocks codec head
    have hblocks : b.flushToolResults.pendingAssistant ++ assistantBlocks codec head ≠ [] := by
      intro hnil
      have hsent := hids.1
      rw [(List.append_eq_nil_iff.mp hnil).2] at hsent
      exact hcalls (List.map_eq_nil_iff.mp hsent.symm)
    rw [if_neg hne, push_of_assistant codec hassistant]
    have hsent : followers.map (toolResultBlock codec) ≠ [] := by simpa using hne
    have hexchange : Exchange codec ⟨head, hread, followers⟩
        ⟨.assistant, .blocks (b.flushToolResults.pendingAssistant ++ assistantBlocks codec head)⟩
        ⟨.user, .blocks (followers.map (toolResultBlock codec))⟩ := by
      rw [pendingAssistant_flushToolResults]
      refine ⟨rfl, rfl, ?_, ?_, ?_, ?_⟩
      · refine (List.filterMap_append).trans ?_
        rw [← useIdsOf, ← useIdsOf, h.pending_uses, hids.1]
        rfl
      · refine (List.filterMap_append).trans ?_
        rw [← resultIdsOf, ← resultIdsOf, h.pending_results, hids.2]
        rfl
      · refine List.filterMap_map.trans ?_
        exact congrFun List.filterMap_eq_map' followers
      · refine List.filterMap_map.trans ?_
        exact List.filterMap_eq_nil_iff.mpr fun t _ => rfl
    refine ⟨.inl (pendingAssistant_flushAssistant _), ?_, ?_, ?_⟩
    · have hexchanges := h.exchanges.exchange hcalls hexchange
      rw [flushAssistant_of_ne_nil hblocks, flushToolResults_of_ne_nil]
      · dsimp only
        rw [pendingToolResults_flushToolResults, List.nil_append, List.append_assoc]
        exact hexchanges
      · dsimp only
        rw [pendingToolResults_flushToolResults, List.nil_append]
        exact hsent
    · exact congrArg useIdsOf (pendingAssistant_flushAssistant _)
    · exact congrArg resultIdsOf (pendingAssistant_flushAssistant _)

theorem between_foldl (hruns : ∀ r ∈ runs, PairedRun r)
    {done : List (Run results)} (h : Between codec done b) :
    Between codec (done ++ runs)
      ((runs.flatMap Run.items).foldl (Building.push codec) b) := by
  induction runs generalizing done b with
  | nil => simpa using h
  | cons r runs ih =>
    obtain ⟨hr, hrest⟩ := List.forall_mem_cons.mp hruns
    have hnext := ih hrest (h.run hr)
    rwa [List.append_assoc, List.singleton_append, ← List.foldl_append,
      ← List.flatMap_cons] at hnext

variable {i : ℕ}

/-- A message is plain, asks what the next one answers, or answers the one before it. -/
theorem Exchanges.at (h : Exchanges codec runs messages) (hm : messages[i]? = some m) :
    Plain m ∨
      (∃ r ∈ runs, ∃ n, messages[i + 1]? = some n ∧ Exchange codec r m n) ∨
      ∃ r ∈ runs, ∃ j asked, i = j + 1 ∧ messages[j]? = some asked ∧ Exchange codec r asked m := by
  obtain ⟨groups, rfl, hgroups, -⟩ := h
  induction groups generalizing i with
  | nil => simp at hm
  | cons g groups ih =>
    obtain ⟨hg, hrest⟩ := List.forall_mem_cons.mp hgroups
    have hshift : ∀ k, ((g :: groups).flatten)[g.length + k]? = groups.flatten[k]? := by
      intro k
      rw [List.flatten_cons, List.getElem?_append_right (Nat.le_add_right _ _),
        Nat.add_sub_cancel_left]
    have hbehind : ∀ k, i = g.length + k → Plain m ∨
        (∃ r ∈ runs, ∃ n, ((g :: groups).flatten)[i + 1]? = some n ∧ Exchange codec r m n) ∨
        ∃ r ∈ runs, ∃ j asked, i = j + 1 ∧ ((g :: groups).flatten)[j]? = some asked ∧
          Exchange codec r asked m := by
      rintro k rfl
      rw [hshift] at hm
      rcases ih hm hrest with hplain | ⟨r, hr, n, hn, hexchange⟩ |
        ⟨r, hr, j, asked, rfl, hj, hexchange⟩
      · exact .inl hplain
      · exact .inr (.inl ⟨r, hr, n, by rw [Nat.add_assoc, hshift, hn], hexchange⟩)
      · exact .inr (.inr ⟨r, hr, g.length + j, asked, rfl, by rw [hshift, hj], hexchange⟩)
    rcases hg with ⟨m₀, rfl, hplain⟩ | ⟨r, hr, -, asked, answered, rfl, hexchange⟩
    · cases i with
      | zero =>
        obtain rfl : m₀ = m := by simpa using hm
        exact .inl hplain
      | succ k => exact hbehind k (Nat.add_comm k 1)
    · match i, hm, hbehind with
      | 0, hm, _ =>
        obtain rfl : asked = m := by simpa using hm
        exact .inr (.inl ⟨r, hr, answered, by simp, hexchange⟩)
      | 1, hm, _ =>
        obtain rfl : answered = m := by simpa using hm
        exact .inr (.inr ⟨r, hr, 0, asked, rfl, by simp, hexchange⟩)
      | k + 2, _, hbehind => exact hbehind k (Nat.add_comm k 2)

variable {id : String}

theorem count_sent_followers (hr : PairedRun r)
    (hdistinct : (sentIds codec r.head).Nodup) (hid : id ∈ sentIds codec r.head) :
    (r.followers.map fun t => sanitizeToolCallId codec t.toolCallId).count id = 1 := by
  have hinj := List.inj_on_of_nodup_map hdistinct
  have hids : (r.followers.map fun t => sanitizeToolCallId codec t.toolCallId) =
      (r.followers.map ToolResultItem.toolCallId).map (sanitizeToolCallId codec) := by simp
  rw [hids]
  apply List.count_eq_one_of_mem
  · refine hr.nodup.map_on fun x hx y hy hxy => ?_
    obtain ⟨t, ht, rfl⟩ := List.mem_map.mp hx
    obtain ⟨u, hu, rfl⟩ := List.mem_map.mp hy
    obtain ⟨c, hc, hct⟩ := List.mem_map.mp (hr.1 t ht)
    obtain ⟨d, hd, hdu⟩ := List.mem_map.mp (hr.1 u hu)
    have heq := hinj hc hd (by rw [hct, hdu]; exact hxy)
    rw [← hct, ← hdu, heq]
  · obtain ⟨call, hcall, rfl⟩ := List.mem_map.mp hid
    exact List.mem_map_of_mem (hr.answered (List.mem_map_of_mem hcall))

theorem mem_sent_of_followers (hr : PairedRun r)
    (hid : id ∈ r.followers.map fun t => sanitizeToolCallId codec t.toolCallId) :
    id ∈ sentIds codec r.head := by
  obtain ⟨t, ht, rfl⟩ := List.mem_map.mp hid
  obtain ⟨call, hcall, heq⟩ := List.mem_map.mp (hr.1 t ht)
  exact List.mem_map.mpr ⟨call, hcall, by rw [heq]⟩

/-! ## Breakpoints of a request -/

/-- Nothing read so far carries a breakpoint. -/
structure Unmarked (b : Building J) : Prop where
  system : ∀ s ∈ b.systemBlocks, s.cacheControl = none
  messages : breakpointsOf b.messages = 0
  assistant : ∀ x ∈ b.pendingAssistant, x.breakpoints = 0
  results : ∀ x ∈ b.pendingToolResults, x.breakpoints = 0

theorem breakpointsOf_concat (h : breakpointsOf messages = 0)
    {role : MessageRole} {blocks : List (ContentBlock J)} (hblocks : ∀ x ∈ blocks, x.breakpoints = 0) :
    breakpointsOf (messages ++ [⟨role, .blocks blocks⟩]) = 0 := by
  have hsum : (blocks.map ContentBlock.breakpoints).sum = 0 := by
    apply List.sum_eq_zero
    intro n hn
    obtain ⟨x, hx, rfl⟩ := List.mem_map.mp hn
    exact hblocks x hx
  unfold breakpointsOf at h ⊢
  rw [List.map_append, List.sum_append, h]
  simp [Message.breakpoints, Message.blocks, hsum]

theorem Unmarked.flushAssistant (h : Unmarked b) : Unmarked b.flushAssistant := by
  by_cases hnil : b.pendingAssistant = []
  · rwa [flushAssistant_of_nil hnil]
  · rw [flushAssistant_of_ne_nil hnil]
    exact ⟨h.system, breakpointsOf_concat h.messages h.assistant,
      fun x hx => (List.not_mem_nil hx).elim, h.results⟩

theorem Unmarked.flushToolResults (h : Unmarked b) :
    Unmarked b.flushToolResults := by
  by_cases hnil : b.pendingToolResults = []
  · rwa [flushToolResults_of_nil hnil]
  · rw [flushToolResults_of_ne_nil hnil]
    exact ⟨h.system, breakpointsOf_concat h.messages h.results, h.assistant,
      fun x hx => (List.not_mem_nil hx).elim⟩

theorem unmarked_userBlocks (parts : List ContentPart) :
    ∀ x ∈ (contentPartsToAnthropicBlocks parts : List (ContentBlock J)), x.breakpoints = 0 := by
  intro x hx
  obtain ⟨part, -, rfl⟩ := List.mem_map.mp hx
  cases part with
  | text content => rfl
  | image url =>
    simp only [imageBlock]
    split
    · split <;> rfl
    · split <;> rfl

theorem unmarked_toolResultBlock (t : ToolResultItem) :
    (toolResultBlock codec t).breakpoints = 0 := by
  unfold toolResultBlock toolResultContent
  split
  · rfl
  · simp only [ContentBlock.breakpoints, ContentBlock.cacheControl, ContentBlock.innerBreakpoints,
      Option.isSome_none, Bool.false_eq_true, if_false, Nat.zero_add]
    rw [List.countP_cons_of_neg (by simp [ResultBlock.cacheControl]), List.countP_eq_zero]
    intro x hx
    obtain ⟨part, -, hpart⟩ := List.mem_filterMap.mp hx
    cases part with
    | text content => cases hpart
    | image url =>
      cases hpart
      simp [ResultBlock.cacheControl]

theorem unmarked_assistantBlocks (item : ConversationItem) :
    ∀ x ∈ assistantBlocks codec item, x.breakpoints = 0 := by
  intro x hx
  cases item with
  | assistant a =>
    rcases List.mem_append.mp hx with hx | hx
    · split at hx
      · cases hx
      · rw [List.mem_singleton.mp hx]
        rfl
    · obtain ⟨call, -, rfl⟩ := List.mem_map.mp hx
      rfl
  | backendToolCall kind =>
    rw [List.mem_singleton.mp hx]
    rfl
  | reasoning r =>
    unfold assistantBlocks at hx
    dsimp only at hx
    split at hx
    · rw [List.mem_singleton.mp hx]
      rfl
    · cases hx
  | _ => cases hx

variable (codec)

theorem Unmarked.push (h : Unmarked b) (item : ConversationItem) :
    Unmarked (b.push codec item) := by
  have hflushed := h.flushAssistant.flushToolResults
  cases item with
  | system s =>
    refine ⟨fun x hx => ?_, hflushed.messages, hflushed.assistant, hflushed.results⟩
    rcases List.mem_append.mp hx with hx | hx
    · exact hflushed.system x hx
    · rw [List.mem_singleton.mp hx]
  | user u =>
    exact ⟨hflushed.system, breakpointsOf_concat hflushed.messages (unmarked_userBlocks u.content),
      hflushed.assistant, hflushed.results⟩
  | toolResult t =>
    have hsent := h.flushAssistant
    refine ⟨hsent.system, hsent.messages, hsent.assistant, fun x hx => ?_⟩
    rcases List.mem_append.mp hx with hx | hx
    · exact hsent.results x hx
    · rw [List.mem_singleton.mp hx]
      exact unmarked_toolResultBlock t
  | _ =>
    have hsent := h.flushToolResults
    refine ⟨hsent.system, hsent.messages, fun x hx => ?_, hsent.results⟩
    rcases List.mem_append.mp hx with hx | hx
    · exact hsent.assistant x hx
    · exact unmarked_assistantBlocks _ x hx

theorem Unmarked.foldl (h : Unmarked b) (items : List ConversationItem) :
    Unmarked (items.foldl (Building.push codec) b) := by
  induction items generalizing b with
  | nil => exact h
  | cons item items ih => exact ih (h.push codec item)

theorem exchanges_of_unchanged (h : (repairHistory items).1 = items) :
    Exchanges codec (cut results items).runs
      (items.foldl (Building.push codec) ⟨[], [], [], []⟩).flushed.messages := by
  obtain ⟨hlead, hruns⟩ := pairedRuns_of_unchanged h
  have hitems : items = (cut results items).runs.flatMap Run.items := by
    have hjoin := join_cut (F := results) items
    rw [Cut.join, hlead, List.map_nil, List.nil_append] at hjoin
    exact hjoin.symm
  have hstart : Between codec [] (⟨[], [], [], []⟩ : Building J) :=
    ⟨.inl rfl, Exchanges.nil, rfl, rfl⟩
  have hbetween := between_foldl hruns hstart
  rw [← hitems, List.nil_append] at hbetween
  exact hbetween.flushed

theorem exists_run_of_calls {item : ConversationItem}
    (hitem : item ∈ items) (hcalls : item.toolCalls ≠ []) :
    ∃ r ∈ (cut results items).runs, r.head = item := by
  have hhead : item ∈ (cut results items).runs.map Run.head := by
    rw [heads_cut, List.mem_filter]
    refine ⟨hitem, ?_⟩
    cases item with
    | toolResult t => exact (hcalls rfl).elim
    | _ => rfl
  exact List.mem_map.mp hhead

/-- Messages that differ in their breakpoints stand at the same places. -/
theorem getElem?_of_bare (h : ms'.map Message.bare = ms.map Message.bare) {m' : Message J}
    (hm : ms'[i]? = some m') : ∃ m, ms[i]? = some m ∧ m.bare = m'.bare := by
  have hbare : (ms.map Message.bare)[i]? = some m'.bare := by
    rw [← h, List.getElem?_map, hm]
    rfl
  rw [List.getElem?_map] at hbare
  exact Option.map_eq_some_iff.mp hbare

theorem alternating_bare
    (h : ms'.map Message.bare = ms.map Message.bare) : Alternating ms' ↔ Alternating ms := by
  have hroles : ms'.map Message.role = ms.map Message.role := by
    have hfst := congrArg (List.map Prod.fst) h
    simpa [Message.bare, Function.comp_def] using hfst
  unfold Alternating
  rw [hroles]

theorem head_mem_of_run (hr : r ∈ (cut results items).runs) : r.head ∈ items := by
  have hhead := List.mem_map_of_mem (f := Run.head) hr
  rw [heads_cut] at hhead
  exact List.mem_of_mem_filter hhead

theorem toolUseIds_eq_of_bare {m' : Message J} (h : m.bare = m'.bare) :
    m.toolUseIds = m'.toolUseIds := by
  rw [toolUseIds_bare, toolUseIds_bare, h]

theorem toolResultIds_eq_of_bare {m' : Message J} (h : m.bare = m'.bare) :
    m.toolResultIds = m'.toolResultIds := by
  rw [toolResultIds_bare, toolResultIds_bare, h]

/-- Calls and results of a repaired conversation in messages with or without breakpoints. -/
theorem Exchanges.calls_at
    (h : Exchanges codec runs ms) (hbare : ms'.map Message.bare = ms.map Message.bare)
    (hm : ms'[i]? = some m) (hid : id ∈ m.toolUseIds) :
    ∃ r ∈ runs, m.role = .assistant ∧ m.toolUseIds = sentIds codec r.head ∧
      ∃ n, ms'[i + 1]? = some n ∧ n.role = .user ∧
        n.toolResultIds = r.followers.map fun t => sanitizeToolCallId codec t.toolCallId := by
  obtain ⟨m₀, hm₀, hsame⟩ := getElem?_of_bare hbare hm
  have huses := toolUseIds_eq_of_bare hsame
  rcases h.at hm₀ with hplain | ⟨r, hr, n₀, hn₀, hexchange⟩ | ⟨r, -, j, asked, -, -, hexchange⟩
  · rw [← huses, hplain.1] at hid
    cases hid
  · obtain ⟨n, hn, hsame'⟩ := getElem?_of_bare hbare.symm hn₀
    refine ⟨r, hr, ?_, huses.symm.trans hexchange.asks, n, hn, ?_, ?_⟩
    · exact (congrArg Prod.fst hsame).symm.trans hexchange.asked_role
    · exact (congrArg Prod.fst hsame').trans hexchange.answered_role
    · exact (toolResultIds_eq_of_bare hsame').trans hexchange.answers
  · rw [← huses, hexchange.answers_only] at hid
    cases hid

theorem Exchanges.results_at
    (h : Exchanges codec runs ms) (hbare : ms'.map Message.bare = ms.map Message.bare)
    {n : Message J} (hn : ms'[i]? = some n) (hid : id ∈ n.toolResultIds) :
    ∃ r ∈ runs, (id ∈ r.followers.map fun t => sanitizeToolCallId codec t.toolCallId) ∧
      ∃ j m, i = j + 1 ∧ ms'[j]? = some m ∧ m.role = .assistant ∧
        m.toolUseIds = sentIds codec r.head := by
  obtain ⟨n₀, hn₀, hsame⟩ := getElem?_of_bare hbare hn
  have hresults := toolResultIds_eq_of_bare hsame
  rcases h.at hn₀ with hplain | ⟨r, -, _, -, hexchange⟩ | ⟨r, hr, j, m₀, hij, hm₀, hexchange⟩
  · rw [← hresults, hplain.2] at hid
    cases hid
  · rw [← hresults, hexchange.asks_only] at hid
    cases hid
  · obtain ⟨m, hm, hsame'⟩ := getElem?_of_bare hbare.symm hm₀
    rw [← hresults, hexchange.answers] at hid
    refine ⟨r, hr, hid, j, m, hij, hm, ?_, ?_⟩
    · exact (congrArg Prod.fst hsame').trans hexchange.asked_role
    · exact (toolUseIds_eq_of_bare hsame').trans hexchange.asks

theorem Exchanges.exists_calls (h : Exchanges codec (cut results items).runs ms)
    (hbare : ms'.map Message.bare = ms.map Message.bare) {item : ConversationItem}
    (hitem : item ∈ items) (hcalls : item.toolCalls ≠ []) :
    ∃ m ∈ ms', m.toolUseIds = sentIds codec item := by
  obtain ⟨r, hr, rfl⟩ := exists_run_of_calls hitem hcalls
  obtain ⟨groups, rfl, -, hruns⟩ := h
  obtain ⟨asked, answered, hmem, hexchange⟩ := hruns r hr hcalls
  have hasked : asked ∈ groups.flatten :=
    List.mem_flatten.mpr ⟨[asked, answered], hmem, List.mem_cons_self ..⟩
  obtain ⟨i, hi⟩ := List.getElem?_of_mem hasked
  obtain ⟨m, hm, hsame⟩ := getElem?_of_bare hbare.symm hi
  exact ⟨m, List.mem_of_getElem? hm, (toolUseIds_eq_of_bare hsame).trans hexchange.asks⟩

/-- The request for a repaired conversation is valid exactly if the ids of the calls of every
item are sent as distinct ids, and no system item interrupts the assistant. -/
theorem messagesRequest_valid_iff {items : List ConversationItem}
    (h : (repairHistory items).1 = items) :
    ValidRequest codec items (buildMessagesRequest codec items) ↔
      (∀ item ∈ items, (sentIds codec item).Nodup) ∧ Uninterrupted items := by
  obtain ⟨-, hpaired⟩ := pairedRuns_of_unchanged h
  have hexchanges : Exchanges codec _ _ := exchanges_of_unchanged codec h
  have halternating := alternating_iff codec items
  have hempty : Unmarked (⟨[], [], [], []⟩ : Building J) :=
    ⟨fun _ hx => (List.not_mem_nil hx).elim, rfl, fun _ hx => (List.not_mem_nil hx).elim,
      fun _ hx => (List.not_mem_nil hx).elim⟩
  have hunmarked := (hempty.foldl codec items).flushAssistant.flushToolResults
  obtain ⟨hside, hsaid⟩ := said_foldl codec
    (show (⟨[], [], [], []⟩ : Building J).OneSide from .inl rfl) items
  have hsystem := systemTexts_foldl codec ⟨[], [], [], []⟩ items
  have hflushed := said_flushed hside
  have hrequest : buildMessagesRequest codec items =
      { messages := applyCacheBreakpoints
          (items.foldl (Building.push codec) ⟨[], [], [], []⟩).flushed.messages
        system := systemParam (markSystemBlocks
          (items.foldl (Building.push codec) ⟨[], [], [], []⟩).flushed.systemBlocks) } := rfl
  rw [← Building.flushed] at hunmarked
  rw [hrequest]
  generalize items.foldl (Building.push codec) ⟨[], [], [], []⟩ = b at *
  obtain ⟨hbare, hcount⟩ := applyCacheBreakpoints_cases b.flushed.messages
  constructor
  · intro hvalid
    refine ⟨fun item hitem => ?_, ?_⟩
    · by_cases hcalls : item.toolCalls = []
      · rw [sentIds, hcalls]
        exact List.nodup_nil
      · obtain ⟨m, hm, huses⟩ := hexchanges.exists_calls codec hbare hitem hcalls
        rw [← huses]
        exact hvalid.calls_distinct m hm
    · exact halternating.mp ((alternating_bare hbare).mp hvalid.alternating)
  · rintro ⟨hdistinct, huninterrupted⟩
    refine ⟨?_, ?_, ?_, ?_, ?_, ?_, ?_, ?_⟩
    · intro i m hm id hid
      obtain ⟨r, hr, hrole, huses, n, hn, hrole', hanswers⟩ := hexchanges.calls_at codec hbare hm hid
      refine ⟨hrole, n, hn, hrole', ?_⟩
      rw [hanswers]
      rw [huses] at hid
      exact count_sent_followers (hpaired r hr) (hdistinct r.head (head_mem_of_run hr)) hid
    · intro i n hn id hid
      obtain ⟨r, hr, hmem, j, m, hij, hm, hrole, huses⟩ := hexchanges.results_at codec hbare hn hid
      refine ⟨j, m, hij, hm, hrole, ?_⟩
      rw [huses]
      exact mem_sent_of_followers (hpaired r hr) hmem
    · intro m hmem
      obtain ⟨i, hm⟩ := List.getElem?_of_mem hmem
      by_cases hnil : m.toolUseIds = []
      · rw [hnil]
        exact List.nodup_nil
      · obtain ⟨id, hid⟩ := List.exists_mem_of_ne_nil _ hnil
        obtain ⟨r, hr, -, huses, -⟩ := hexchanges.calls_at codec hbare hm hid
        rw [huses]
        exact hdistinct r.head (head_mem_of_run hr)
    · exact (alternating_bare hbare).mpr (halternating.mpr huninterrupted)
    · have hsystemCount := (breakpoints_systemParam_le (markSystemBlocks b.flushed.systemBlocks)).trans
        (countP_markSystemBlocks hunmarked.system)
      have hmessages := hunmarked.messages
      unfold MessagesRequest.breakpoints
      dsimp only
      omega
    · intro m _ x _ hthinking
      cases x with
      | thinking => rfl
      | redactedThinking => rfl
      | _ => cases hthinking
    · rw [messagesSaid_eq_of_bare hbare]
      have hnothing : messagesSaid b.flushed.messages = b.flushed.said := by
        simp [Building.said, Building.flushed]
      rw [hnothing, hflushed, hsaid]
      rfl
    · rw [texts_systemParam, texts_markSystemBlocks]
      have hblocks : b.flushed.systemBlocks = b.systemBlocks := by simp [Building.flushed]
      rw [hblocks, hsystem]
      rfl

end

/-- A codec that keeps the texts of inputs. -/
def textCodec : Codec String := ⟨fun _ => false, some, "\x7b\x7d"⟩

/-- A question, a tool call with its result, and the answer. -/
def plainConversation : List ConversationItem :=
  [systemItem "Be brief.", .user ⟨[.text "Read it."], .human, none, none, none⟩,
    .assistant ⟨"", [⟨"call_1", "read", "\x7b\x7d"⟩], none, none⟩,
    .toolResult (toolResultItem "call_1" "text"), .assistant ⟨"Done.", [], none, none⟩]

/-- The request for a plain conversation is valid. -/
theorem messagesRequest_valid_plain :
    ValidRequest textCodec plainConversation (buildMessagesRequest textCodec plainConversation) := by
  refine (messagesRequest_valid_iff textCodec (by decide +kernel)).mpr ⟨by decide +kernel, ?_⟩
  rw [uninterrupted_iff]
  decide +kernel

/-- Two calls whose ids differ in a replaced character. -/
def collidingCalls : List ConversationItem :=
  [.assistant ⟨"", [⟨"a.b", "read", "\x7b\x7d"⟩, ⟨"a_b", "read", "\x7b\x7d"⟩], none, none⟩,
    .toolResult (toolResultItem "a.b" "one"), .toolResult (toolResultItem "a_b" "two")]

/-- A system item between two answers. -/
def interruptedAnswers : List ConversationItem :=
  [.assistant ⟨"One.", [], none, none⟩, systemItem "Be brief.",
    .assistant ⟨"Two.", [], none, none⟩]

/-- Calls may be sent under one id, and an interruption puts two assistant messages in a row. -/
theorem not_valid_request :
    (repairHistory collidingCalls).1 = collidingCalls ∧
    ¬ ValidRequest textCodec collidingCalls (buildMessagesRequest textCodec collidingCalls) ∧
    (repairHistory interruptedAnswers).1 = interruptedAnswers ∧
    ¬ ValidRequest textCodec interruptedAnswers
      (buildMessagesRequest textCodec interruptedAnswers) := by
  refine ⟨by decide +kernel, fun h => ?_, by decide +kernel, fun h => ?_⟩
  · have hdistinct : ∀ m ∈ (buildMessagesRequest textCodec collidingCalls).messages,
        m.toolUseIds.Nodup := h.calls_distinct
    revert hdistinct
    decide +kernel
  · have hroles : (buildMessagesRequest textCodec interruptedAnswers).messages.map Message.role =
        [.assistant, .assistant] := by decide +kernel
    have halternating := h.alternating
    unfold Alternating at halternating
    rw [hroles] at halternating
    simp [Apart] at halternating

end Ezer.Sampling
