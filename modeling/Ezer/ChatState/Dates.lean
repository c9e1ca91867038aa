import Ezer.ChatState.Chronicle
import Ezer.ChatState.RepairCorrect

/-!
# Dates that pruning respects

A date is good for a tool result when the prompt index exceeds the user items
before the result by no more than the prompt turns begun since. Results that
keep their places and repairs of their runs keep good dates.
-/

namespace Ezer.ChatState

open Ezer.Lib

/-! ## User items before the results -/

/-- Two items of one shape: both results or neither, and both users or neither. -/
def SameShape (a b : ConversationItem) : Prop :=
  a.isToolResult = b.isToolResult ∧ a.isUser = b.isUser

theorem SameShape.refl (item : ConversationItem) : SameShape item item := ⟨rfl, rfl⟩

theorem length_usersBefore (users : Nat) (items : List ConversationItem) :
    (usersBefore users items).length = resultCount items := by
  induction items generalizing users with
  | nil => rfl
  | cons item rest ih =>
    rw [usersBefore, resultCount, List.countP_cons]
    split
    · rw [List.length_cons, ih]
      rfl
    · exact ih _

theorem usersBefore_append (users : Nat) (first rest : List ConversationItem) :
    usersBefore users (first ++ rest) =
      usersBefore users first ++
        usersBefore (users + first.countP ConversationItem.isUser) rest := by
  induction first generalizing users with
  | nil => rfl
  | cons item first ih =>
    rw [List.cons_append, usersBefore, usersBefore, ih, ih, List.countP_cons]
    cases item with
    | user u =>
      have hsum : users + 1 + first.countP ConversationItem.isUser =
          users + (first.countP ConversationItem.isUser + 1) := by
        omega
      exact congrArg (fun n => usersBefore (users + 1) first ++ usersBefore n rest) hsum
    | _ => rfl

theorem usersBefore_congr {users : Nat} {old new : List ConversationItem}
    (h : List.Forall₂ SameShape old new) : usersBefore users old = usersBefore users new := by
  induction h generalizing users with
  | nil => rfl
  | cons hitem _ ih => rw [usersBefore, usersBefore, hitem.1, hitem.2, ih, ih]

/-- Items that are no results have none before which user items stand. -/
theorem usersBefore_of_no_results {users : Nat} {items : List ConversationItem}
    (h : ∀ item ∈ items, item.isToolResult = false) : usersBefore users items = [] := by
  apply List.eq_nil_of_length_eq_zero
  rw [length_usersBefore, resultCount, List.countP_eq_zero]
  intro item hitem
  rw [h item hitem]
  exact Bool.false_ne_true

/-- The user items before the results of each run. -/
def runsBefore (users : Nat) : List (Run results) → List Nat
  | [] => []
  | r :: rest =>
    let users := if r.head.isUser then users + 1 else users
    List.replicate r.followers.length users ++ runsBefore users rest

theorem usersBefore_cut (users : Nat) (items : List ConversationItem) :
    usersBefore users items =
      List.replicate (cut results items).lead.length users ++
        runsBefore users (cut results items).runs := by
  induction items generalizing users with
  | nil => rfl
  | cons item rest ih =>
    obtain ⟨t, rfl⟩ | hread := results.cases item
    · have hresult : (ConversationItem.toolResult t).isToolResult = true := rfl
      rw [results_embed, usersBefore, cut_toolResult, if_pos hresult, ih]
      rfl
    · have hresult : item.isToolResult = false := by
        have h := results_read_isNone item
        rw [hread] at h
        simpa using h.symm
      rw [usersBefore, hresult, if_neg Bool.false_ne_true, cut_cons hread, ih]
      rfl

/-! ## Dates -/

/-- Dates that pruning respects: none is in the future, and every result entered behind
enough user items for the prompt index since. -/
def Dated (promptIndex now : Nat) : List Nat → List Nat → Prop :=
  List.Forall₂ fun users date => date ≤ now ∧ promptIndex + date ≤ users + 1 + now

section

variable {promptIndex now : Nat}

/-- Results that came in at present are dated when they are grounded. -/
theorem dated_replicate {users : List Nat}
    (h : ((users.zip (List.replicate users.length now)).all fun entry =>
      decide (entry.2 ≠ now) || decide (promptIndex ≤ entry.1 + 1)) = true) :
    Dated promptIndex now users (List.replicate users.length now) := by
  induction users with
  | nil => exact .nil
  | cons n users ih =>
    rw [List.length_cons, List.replicate_succ, List.zip_cons_cons, List.all_cons,
      Bool.and_eq_true] at h
    refine .cons ⟨Nat.le_refl now, ?_⟩ (ih h.2)
    simp only [ne_eq, not_true_eq_false, decide_false, Bool.false_or, decide_eq_true_eq] at h
    omega

variable {dates : List Nat}

/-- Dates stay good when the prompt index does not grow. -/
theorem Dated.mono {lower : Nat} (hle : lower ≤ promptIndex) {users : List Nat}
    (h : Dated promptIndex now users dates) : Dated lower now users dates := by
  apply h.imp
  rintro n date ⟨hpast, hbound⟩
  exact ⟨hpast, by omega⟩

/-- Beginning a prompt turn keeps all dates good. -/
theorem Dated.increment {users : List Nat} (h : Dated promptIndex now users dates) :
    Dated (promptIndex + 1) (now + 1) users dates := by
  apply h.imp
  rintro n date ⟨hpast, hbound⟩
  constructor <;> omega

/-- Results that keep their places stay dated, those behind them are dated when grounded. -/
theorem Dated.extended {old new : List ConversationItem}
    (h : Dated promptIndex now (usersBefore 0 old) dates)
    (hplaces : usersBefore 0 new <+: usersBefore 0 old ∨
      usersBefore 0 old <+: usersBefore 0 new)
    (hgrounded : grounded promptIndex now new (dateExtended now old new dates) = true) :
    Dated promptIndex now (usersBefore 0 new) (dateExtended now old new dates) := by
  have hlength := h.length_eq
  obtain ⟨rest, hrest⟩ | ⟨more, hmore⟩ := hplaces
  · have hle : (usersBefore 0 new).length ≤ dates.length := by
      rw [← hlength, ← hrest, List.length_append]
      omega
    have htake := List.forall₂_take (usersBefore 0 new).length h
    rw [← hrest, List.take_left] at htake
    rw [dateExtended, ← length_usersBefore 0 new, Nat.sub_eq_zero_of_le hle, List.replicate_zero,
      List.append_nil]
    exact htake
  · have hcount : (usersBefore 0 new).length = dates.length + more.length := by
      rw [← hlength, ← hmore, List.length_append]
    have hdates : dateExtended now old new dates = dates ++ List.replicate more.length now := by
      rw [dateExtended, ← length_usersBefore 0 new, hcount, Nat.add_sub_cancel_left,
        List.take_of_length_le (Nat.le_add_right _ _)]
    rw [grounded, hdates, ← hmore, List.zip_append hlength, List.all_append,
      Bool.and_eq_true] at hgrounded
    rw [hdates, ← hmore]
    exact List.rel_append h (dated_replicate hgrounded.2)

variable {users : Nat}

theorem dated_run {count : Nat} (hlength : dates.length = count)
    (h : ∀ date ∈ dates, date ≤ now ∧ promptIndex + date ≤ users + 1 + now) :
    Dated promptIndex now (List.replicate count users) dates := by
  subst hlength
  induction dates with
  | nil => exact .nil
  | cons date dates ih =>
    rw [List.forall_mem_cons] at h
    exact .cons h.1 (ih h.2)

theorem Dated.of_run {count : Nat} (h : Dated promptIndex now (List.replicate count users) dates) :
    dates.length = count ∧ ∀ date ∈ dates, date ≤ now ∧ promptIndex + date ≤ users + 1 + now := by
  induction count generalizing dates with
  | zero =>
    cases h
    exact ⟨rfl, fun _ hdate => by cases hdate⟩
  | succ count ih =>
    cases h with
    | cons hdate hrest =>
      obtain ⟨hlength, hall⟩ := ih hrest
      exact ⟨congrArg (· + 1) hlength, List.forall_mem_cons.mpr ⟨hdate, hall⟩⟩

/-- A repaired run has one date for each result. -/
theorem length_dateRun {old new : List ToolResultItem} {dates : List Nat}
    (hlength : dates.length = old.length) : (dateRun now old new dates).length = new.length := by
  rw [dateRun]
  split
  · rename_i hsame
    rw [hsame, hlength]
  · rw [List.length_map]

theorem mem_dateRun {old new : List ToolResultItem} {date : Nat}
    (h : date ∈ dateRun now old new dates) : date ∈ dates ∨ date = now := by
  rw [dateRun] at h
  split at h
  · exact Or.inl h
  · obtain ⟨t, -, rfl⟩ := List.mem_map.mp h
    cases hfind : (old.zip dates).reverse.find? fun entry =>
        decide (entry.1.toolCallId = t.toolCallId) with
    | none => exact Or.inr rfl
    | some entry =>
      have hmem := List.mem_reverse.mp (List.mem_of_find?_eq_some hfind)
      exact Or.inl (List.of_mem_zip hmem).2

/-- A repaired run stays dated. -/
theorem Dated.run {old new : List ToolResultItem}
    (h : Dated promptIndex now (List.replicate old.length users) dates)
    (hgrounded : ((List.replicate new.length users).zip (dateRun now old new dates)).all
      (fun entry => decide (entry.2 ≠ now) || decide (promptIndex ≤ entry.1 + 1)) = true) :
    Dated promptIndex now (List.replicate new.length users) (dateRun now old new dates) := by
  obtain ⟨hlength, hall⟩ := h.of_run
  have hnew := @length_dateRun now old new dates hlength
  apply dated_run hnew
  intro date hdate
  obtain hold | rfl := mem_dateRun hdate
  · exact hall date hold
  · refine ⟨Nat.le_refl _, ?_⟩
    rw [List.all_eq_true] at hgrounded
    obtain ⟨i, hi, hget⟩ := List.getElem_of_mem hdate
    have hzip : (users, date) ∈ (List.replicate new.length users).zip
        (dateRun date old new dates) := by
      rw [List.mem_iff_getElem]
      refine ⟨i, ?_, ?_⟩
      · rw [List.length_zip, List.length_replicate]
        omega
      · rw [List.getElem_zip, List.getElem_replicate, hget]
    have hentry := hgrounded (users, date) hzip
    simp only [ne_eq, not_true_eq_false, decide_false, Bool.false_or, decide_eq_true_eq] at hentry
    omega

/-- Repaired runs behind the same heads stay dated. -/
theorem Dated.runs {olds news : List (Run results)} (hheads : olds.map Run.head = news.map Run.head)
    (h : Dated promptIndex now (runsBefore users olds) dates)
    (hgrounded : ((runsBefore users news).zip (dateRuns now olds news dates)).all
      (fun entry => decide (entry.2 ≠ now) || decide (promptIndex ≤ entry.1 + 1)) = true) :
    Dated promptIndex now (runsBefore users news) (dateRuns now olds news dates) := by
  induction olds generalizing users news dates with
  | nil =>
    rw [List.map_nil, eq_comm, List.map_eq_nil_iff] at hheads
    subst hheads
    exact .nil
  | cons old olds ih =>
    cases news with
    | nil => cases hheads
    | cons new news =>
      rw [List.map_cons, List.map_cons, List.cons.injEq] at hheads
      rw [runsBefore, hheads.1] at h
      rw [runsBefore, dateRuns] at hgrounded ⊢
      generalize (if new.head.isUser = true then users + 1 else users) = after at *
      have hrun := List.forall₂_take old.followers.length h
      have hrest := List.forall₂_drop old.followers.length h
      rw [List.take_left' List.length_replicate] at hrun
      rw [List.drop_left' List.length_replicate] at hrest
      have hlength : (List.replicate new.followers.length after).length =
          (dateRun now old.followers new.followers
            (dates.take old.followers.length)).length := by
        rw [length_dateRun (Dated.of_run hrun).1, List.length_replicate]
      rw [List.zip_append hlength, List.all_append, Bool.and_eq_true] at hgrounded
      exact List.rel_append (Dated.run hrun hgrounded.1) (ih hheads.2 hrest hgrounded.2)

/-- A repair that leaves the other items in place leaves the results dated. -/
theorem Dated.repaired {old new : List ConversationItem} (hothers : otherItems new = otherItems old)
    (h : Dated promptIndex now (usersBefore 0 old) dates)
    (hgrounded : grounded promptIndex now new (dateRepaired now old new dates) = true) :
    Dated promptIndex now (usersBefore 0 new) (dateRepaired now old new dates) := by
  rw [otherItems_eq, otherItems_eq] at hothers
  rw [usersBefore_cut] at h
  rw [grounded, usersBefore_cut, dateRepaired] at hgrounded
  rw [usersBefore_cut, dateRepaired]
  have hlead := List.forall₂_take (cut results old).lead.length h
  have hruns := List.forall₂_drop (cut results old).lead.length h
  rw [List.take_left' List.length_replicate] at hlead
  rw [List.drop_left' List.length_replicate] at hruns
  have hlength : (List.replicate (cut results new).lead.length 0).length =
      (dateRun now (cut results old).lead (cut results new).lead
        (dates.take (cut results old).lead.length)).length := by
    rw [length_dateRun (Dated.of_run hlead).1, List.length_replicate]
  rw [List.zip_append hlength, List.all_append, Bool.and_eq_true] at hgrounded
  exact List.rel_append (Dated.run hlead hgrounded.1)
    (Dated.runs hothers.symm hruns hgrounded.2)

/-- Results that all came in at present are dated when grounded. -/
theorem dated_renewed {old new : List ConversationItem}
    (hgrounded : grounded promptIndex now new (dateRenewed now old new dates) = true) :
    Dated promptIndex now (usersBefore 0 new) (dateRenewed now old new dates) := by
  rw [grounded, dateRenewed, ← length_usersBefore 0 new] at hgrounded
  rw [dateRenewed, ← length_usersBefore 0 new]
  exact dated_replicate hgrounded

end

/-! ## What the repairs keep -/

theorem otherItems_append (first rest : List ConversationItem) :
    otherItems (first ++ rest) = otherItems first ++ otherItems rest :=
  List.filter_append first rest

theorem otherItems_results (run : List ToolResultItem) :
    otherItems (run.map results.embed) = [] := by
  rw [otherItems, List.filter_eq_nil_iff]
  intro item hitem
  obtain ⟨t, -, rfl⟩ := List.mem_map.mp hitem
  exact Bool.false_ne_true

theorem otherItems_dedup (items : List ConversationItem) :
    otherItems (dedupDuplicateToolResults items).1 = otherItems items := by
  rw [otherItems_eq, otherItems_eq, cut_dedup]
  exact heads_mapRuns dedupRun (cut results items)

theorem otherItems_cons (item : ConversationItem) (rest : List ConversationItem) :
    otherItems (item :: rest) = otherItems [item] ++ otherItems rest :=
  otherItems_append [item] rest

theorem otherItems_repair {σ : Type*} (resolve : σ → String → String → String × σ) (s : σ)
    (items : List ConversationItem) :
    otherItems (repairDanglingToolCallsWith resolve s items).1 = otherItems items := by
  induction items using dedupDuplicateToolResults.induct generalizing s with
  | case1 => rw [repairDanglingToolCallsWith]
  | case2 item rest h ih =>
    rw [repair_cons_of_isEmpty _ _ h, otherItems_cons item rest, ← ih s]
    exact otherItems_cons item _
  | case3 item rest h ih =>
    have hrest := congrArg otherItems (leading_append_behind results rest)
    rw [otherItems_append, otherItems_results, List.nil_append] at hrest
    rw [repair_cons _ _ h, otherItems_cons item rest]
    dsimp only
    rw [otherItems_cons, otherItems_append, otherItems_results, List.nil_append, ih, hrest]

theorem otherItems_repairIntegrity (reason : DanglingToolCallReason)
    (answers : List (String × String)) (items : List ConversationItem) :
    otherItems (ChatStateActor.repairIntegrity reason answers items).1 = otherItems items :=
  (otherItems_repair _ _ _).trans (otherItems_dedup items)

end Ezer.ChatState
