import Ezer.ChatState.RewindCuts
import Mathlib.Data.List.Infix
import Mathlib.Data.List.ReduceOption

/-!
# Rewinding twice

Every cut is before the first item that opens a turn at or behind the target,
where the strategy says which turn an item opens. A rewind that drops every
marker leaves a conversation whose turns are counted, and that changes the next
cut when the turns before the first marker had not been counted.
-/

namespace Ezer.ChatState

/-- An item opens a turn at or behind the target. -/
def opensFrom (target : Nat) (turn : Option Nat) : Bool := turn.any fun idx => decide (target ≤ idx)

theorem opensFrom_mono {target target' : Nat} (h : target ≤ target') {turn : Option Nat}
    (hopens : opensFrom target' turn = true) : opensFrom target turn = true := by
  cases turn with
  | none => cases hopens
  | some idx => exact decide_eq_true (h.trans (of_decide_eq_true hopens))

theorem opensFrom_eq_false_iff {target : Nat} {turn : Option Nat} :
    opensFrom target turn = false ↔ ∀ idx, turn = some idx → idx < target := by
  cases turn with
  | none => exact iff_of_true rfl nofun
  | some idx => simp [opensFrom]

/-- What is in front of the first hit has the same first hit of anything that it hits too. -/
theorem findIdx_take_findIdx {α : Type*} {p q : α → Bool} (h : ∀ a, q a = true → p a = true)
    (l : List α) : (l.take (l.findIdx q)).findIdx p = l.findIdx p := by
  induction l with
  | nil => rfl
  | cons a l ih =>
    rw [List.findIdx_cons, List.findIdx_cons]
    cases hq : q a with
    | true =>
      rw [h a hq]
      rfl
    | false =>
      rw [cond_false, List.take_succ_cons, List.findIdx_cons, ih]

/-- The turn that an unmarked item opens, and whether the preamble was seen. -/
def legacyOpens (seenPreamble : Bool) (next : Nat) : ConversationItem → Option Nat × Bool
  | .user u => legacyIndex u.syntheticReason seenPreamble next
  | _ => (none, seenPreamble)

/-- The turns that the items open by the older rules. -/
def legacyTurns (next : Nat) (seenPreamble : Bool) : List ConversationItem → List (Option Nat)
  | [] => []
  | item :: rest =>
    match legacyOpens seenPreamble next item with
    | (some idx, seen) => some idx :: legacyTurns (idx + 1) seen rest
    | (none, seen) => none :: legacyTurns next seen rest

/-- The turns that the items open. -/
def turns (items : List ConversationItem) : List (Option Nat) :=
  match items.findSome? ConversationItem.promptIndex with
  | none => legacyTurns 0 false items
  | some first =>
    if countLegacyTurnsUntilMarker false items ≠ first then
      items.map ConversationItem.promptIndex
    else
      legacyTurns 0 false (items.takeWhile fun item => item.promptIndex.isNone) ++
        (items.dropWhile fun item => item.promptIndex.isNone).map ConversationItem.promptIndex

section Strategies

variable {target next : Nat} {seenPreamble seen : Bool} {item opener : ConversationItem}
  {before after rest : List ConversationItem}

theorem legacyOpens_some {idx : Nat} (h : legacyOpens seenPreamble next item = (some idx, seen))
    (next' : Nat) : legacyOpens seenPreamble next' item = (some next', seen) := by
  cases item with
  | user u =>
    revert h
    simp only [legacyOpens]
    cases u.syntheticReason <;> cases seenPreamble <;>
      simp [legacyIndex, SyntheticReason.startsPromptTurn]
  | _ => cases h

theorem legacyOpens_none (h : legacyOpens seenPreamble next item = (none, seen)) (next' : Nat) :
    legacyOpens seenPreamble next' item = (none, seen) := by
  cases item with
  | user u => exact legacyIndex_none h next'
  | _ => exact h

theorem truncateLegacy_cons :
    truncateLegacy target next seenPreamble (item :: rest) =
      match legacyOpens seenPreamble next item with
      | (some idx, seen) =>
        if target ≤ idx then 0 else 1 + truncateLegacy target (idx + 1) seen rest
      | (none, seen) => 1 + truncateLegacy target next seen rest := by
  cases item <;> rfl

theorem truncateMarkersOnly_cons :
    truncateMarkersOnly target (item :: rest) =
      match item.promptIndex with
      | some idx => if target ≤ idx then 0 else 1 + truncateMarkersOnly target rest
      | none => 1 + truncateMarkersOnly target rest := by
  cases item <;> rfl

theorem countLegacyTurnsUntilMarker_cons (h : item.promptIndex = none) :
    countLegacyTurnsUntilMarker seenPreamble (item :: rest) =
      match legacyOpens seenPreamble 0 item with
      | (some _, seen) => 1 + countLegacyTurnsUntilMarker seen rest
      | (none, seen) => countLegacyTurnsUntilMarker seen rest := by
  cases item with
  | user u =>
    rw [countLegacyTurnsUntilMarker, show u.promptIndex = none from h]
    rfl
  | _ => rfl

theorem truncateProgressive_cons (h : item.promptIndex = none) :
    truncateProgressive target next seenPreamble false (item :: rest) =
      match legacyOpens seenPreamble next item with
      | (some idx, seen) =>
        if target ≤ idx then 0 else 1 + truncateProgressive target (idx + 1) seen false rest
      | (none, seen) => 1 + truncateProgressive target next seen false rest := by
  cases item with
  | user u =>
    rw [truncateProgressive, show u.promptIndex = none from h]
    rfl
  | _ => rfl

theorem findIdx_opensFrom_some {idx : Nat} {rest : List (Option Nat)} :
    (some idx :: rest).findIdx (opensFrom target) =
      if target ≤ idx then 0 else 1 + rest.findIdx (opensFrom target) := by
  rw [List.findIdx_cons, opensFrom, Option.any_some, cond_eq_ite, Nat.add_comm]
  simp only [decide_eq_true_eq]

theorem findIdx_opensFrom_none {rest : List (Option Nat)} :
    (none :: rest).findIdx (opensFrom target) = 1 + rest.findIdx (opensFrom target) := by
  rw [List.findIdx_cons, Nat.add_comm]
  rfl

theorem truncateMarkersOnly_eq_findIdx (target : Nat) (items : List ConversationItem) :
    truncateMarkersOnly target items =
      (items.map ConversationItem.promptIndex).findIdx (opensFrom target) := by
  induction items with
  | nil => rfl
  | cons item rest ih =>
    rw [truncateMarkersOnly_cons, List.map_cons]
    cases item.promptIndex with
    | none =>
      dsimp only
      rw [findIdx_opensFrom_none, ih]
    | some idx =>
      dsimp only
      rw [findIdx_opensFrom_some, ih]

theorem truncateLegacy_eq_findIdx (target next : Nat) (seenPreamble : Bool)
    (items : List ConversationItem) :
    truncateLegacy target next seenPreamble items =
      (legacyTurns next seenPreamble items).findIdx (opensFrom target) := by
  induction items generalizing next seenPreamble with
  | nil => rfl
  | cons item rest ih =>
    rw [truncateLegacy_cons, legacyTurns]
    obtain ⟨effective, seen⟩ := legacyOpens seenPreamble next item
    cases effective with
    | none =>
      dsimp only
      rw [findIdx_opensFrom_none, ih]
    | some idx =>
      dsimp only
      rw [findIdx_opensFrom_some, ih]

/-- Behind unmarked items the markers decide. -/
theorem truncateProgressive_eq_findIdx (target next : Nat) (seenPreamble : Bool)
    (hbefore : ∀ item ∈ before, item.promptIndex = none) (hopener : opener.promptIndex.isSome) :
    truncateProgressive target next seenPreamble false (before ++ opener :: after) =
      (legacyTurns next seenPreamble before ++
        (opener :: after).map ConversationItem.promptIndex).findIdx (opensFrom target) := by
  induction before generalizing next seenPreamble with
  | nil =>
    obtain ⟨first, hfirst⟩ := Option.isSome_iff_exists.mp hopener
    cases opener with
    | user u =>
      rw [List.nil_append, truncateProgressive, show u.promptIndex = some first from hfirst,
        legacyTurns, List.nil_append, List.map_cons, hfirst, findIdx_opensFrom_some,
        ← truncateMarkersOnly_eq_findIdx]
      dsimp only
      rw [truncateProgressive_eq target next (Or.inl rfl)]
    | _ => cases hfirst
  | cons item before ih =>
    rw [List.forall_mem_cons] at hbefore
    rw [List.cons_append, truncateProgressive_cons hbefore.1, legacyTurns]
    obtain ⟨effective, seen⟩ := legacyOpens seenPreamble next item
    cases effective with
    | none =>
      dsimp only
      rw [List.cons_append, findIdx_opensFrom_none, ih _ _ hbefore.2]
    | some idx =>
      dsimp only
      rw [List.cons_append, findIdx_opensFrom_some, ih _ _ hbefore.2]

theorem length_legacyTurns (next : Nat) (seenPreamble : Bool) (items : List ConversationItem) :
    (legacyTurns next seenPreamble items).length = items.length := by
  induction items generalizing next seenPreamble with
  | nil => rfl
  | cons item rest ih =>
    rw [legacyTurns]
    obtain ⟨effective, seen⟩ := legacyOpens seenPreamble next item
    cases effective with
    | none | some => exact congrArg Nat.succ (ih _ _)

theorem take_legacyTurns (n next : Nat) (seenPreamble : Bool) (items : List ConversationItem) :
    (legacyTurns next seenPreamble items).take n = legacyTurns next seenPreamble (items.take n) := by
  induction items generalizing n next seenPreamble with
  | nil => rw [List.take_nil, legacyTurns, List.take_nil]
  | cons item rest ih =>
    cases n with
    | zero => rfl
    | succ n =>
      rw [List.take_succ_cons, legacyTurns, legacyTurns]
      obtain ⟨effective, seen⟩ := legacyOpens seenPreamble next item
      cases effective with
      | none => exact congrArg (List.cons none) (ih _ _ _)
      | some idx => exact congrArg (List.cons (some idx)) (ih _ _ _)

/-- Unmarked items open so many turns, one behind the other. -/
theorem mem_legacyTurns_iff (after : List ConversationItem)
    (hbefore : ∀ item ∈ before, item.promptIndex = none)
    (hopener : opener.promptIndex.isSome) {idx : Nat} :
    some idx ∈ legacyTurns next seenPreamble before ↔ next ≤ idx ∧
      idx < next + countLegacyTurnsUntilMarker seenPreamble (before ++ opener :: after) := by
  induction before generalizing next seenPreamble with
  | nil =>
    have hzero : countLegacyTurnsUntilMarker seenPreamble (opener :: after) = 0 := by
      obtain ⟨first, hfirst⟩ := Option.isSome_iff_exists.mp hopener
      cases opener with
      | user u => rw [countLegacyTurnsUntilMarker, show u.promptIndex = some first from hfirst]
      | _ => cases hfirst
    rw [List.nil_append, hzero, legacyTurns]
    refine iff_of_false (List.not_mem_nil) ?_
    omega
  | cons item before ih =>
    rw [List.forall_mem_cons] at hbefore
    rw [List.cons_append, countLegacyTurnsUntilMarker_cons hbefore.1, legacyTurns]
    cases hopens : legacyOpens seenPreamble 0 item with
    | mk effective seen =>
      cases effective with
      | none =>
        rw [legacyOpens_none hopens next]
        dsimp only
        rw [List.mem_cons, ih hbefore.2]
        exact or_iff_right (by simp)
      | some _ =>
        rw [legacyOpens_some hopens next]
        dsimp only
        rw [List.mem_cons, ih hbefore.2, Option.some.injEq, ← Nat.add_assoc]
        omega

theorem countLegacyTurnsUntilMarker_append (after' : List ConversationItem)
    (hbefore : ∀ item ∈ before, item.promptIndex = none) (hopener : opener.promptIndex.isSome) :
    countLegacyTurnsUntilMarker seenPreamble (before ++ opener :: after) =
      countLegacyTurnsUntilMarker seenPreamble (before ++ opener :: after') := by
  induction before generalizing seenPreamble with
  | nil =>
    obtain ⟨first, hfirst⟩ := Option.isSome_iff_exists.mp hopener
    cases opener with
    | user u =>
      rw [List.nil_append, List.nil_append, countLegacyTurnsUntilMarker,
        countLegacyTurnsUntilMarker, show u.promptIndex = some first from hfirst]
    | _ => cases hfirst
  | cons item before ih =>
    rw [List.forall_mem_cons] at hbefore
    rw [List.cons_append, List.cons_append, countLegacyTurnsUntilMarker_cons hbefore.1,
      countLegacyTurnsUntilMarker_cons hbefore.1]
    obtain ⟨effective, seen⟩ := legacyOpens seenPreamble 0 item
    cases effective with
    | none => exact ih hbefore.2
    | some idx => exact congrArg (1 + ·) (ih hbefore.2)

end Strategies

section Cuts

variable {first : Nat} {opener : ConversationItem} {before after items : List ConversationItem}

/-- The turns that the items in front of the first marker open. -/
def turnsBefore (first count : Nat) (before : List ConversationItem) : List (Option Nat) :=
  if count = first then legacyTurns 0 false before else before.map fun _ => none

theorem length_turnsBefore (first count : Nat) (before : List ConversationItem) :
    (turnsBefore first count before).length = before.length := by
  unfold turnsBefore
  split
  · exact length_legacyTurns 0 false before
  · exact List.length_map _

theorem turns_unmarked (h : ∀ item ∈ items, item.promptIndex = none) :
    turns items = legacyTurns 0 false items := by
  rw [turns, List.findSome?_eq_none_iff.mpr h]

/-- The turns of a conversation with its first marker. -/
theorem turns_append (hbefore : ∀ item ∈ before, item.promptIndex = none)
    (hopener : opener.promptIndex = some first) :
    turns (before ++ opener :: after) =
      turnsBefore first (countLegacyTurnsUntilMarker false (before ++ opener :: after)) before ++
        some first :: after.map ConversationItem.promptIndex := by
  have hfirst : (before ++ opener :: after).findSome? ConversationItem.promptIndex =
      some first :=
    List.findSome?_eq_some_iff.mpr ⟨before, opener, after, rfl, hopener, hbefore⟩
  have hunmarked : ∀ item ∈ before, item.promptIndex.isNone = true := fun item hitem => by
    rw [hbefore item hitem]
    rfl
  have hstop : ¬opener.promptIndex.isNone = true := by
    rw [hopener]
    exact Bool.false_ne_true
  have htake : (opener :: after).takeWhile (fun item => item.promptIndex.isNone) = [] :=
    List.takeWhile_cons_of_neg hstop
  have hdrop : (opener :: after).dropWhile (fun item => item.promptIndex.isNone) =
      opener :: after := List.dropWhile_cons_of_neg hstop
  rw [turns, hfirst, turnsBefore]
  dsimp only
  by_cases hcount : countLegacyTurnsUntilMarker false (before ++ opener :: after) = first
  · rw [if_neg (not_not.mpr hcount), if_pos hcount, List.takeWhile_append_of_pos hunmarked,
      List.dropWhile_append_of_pos hunmarked, htake, hdrop, List.append_nil, List.map_cons, hopener]
  · rw [if_pos hcount, if_neg hcount, List.map_append, List.map_cons, hopener,
      List.map_congr_left hbefore]

theorem conversationTruncateForPrompt_eq_findIdx (items : List ConversationItem) (target : Nat) :
    conversationTruncateForPrompt items target = (turns items).findIdx (opensFrom target) := by
  rw [conversationTruncateForPrompt]
  cases hfirst : items.findSome? ConversationItem.promptIndex with
  | none =>
    rw [turns, hfirst]
    exact truncateLegacy_eq_findIdx target 0 false items
  | some first =>
    obtain ⟨before, opener, after, rfl, hopener, hbefore⟩ := List.findSome?_eq_some_iff.mp hfirst
    have hsome : opener.promptIndex.isSome = true := by
      rw [hopener]
      rfl
    rw [turns_append hbefore hopener, turnsBefore]
    dsimp only
    by_cases hcount : countLegacyTurnsUntilMarker false (before ++ opener :: after) = first
    · rw [if_neg (not_not.mpr hcount), if_pos hcount,
        truncateProgressive_eq_findIdx target 0 false hbefore hsome, List.map_cons, hopener]
    · rw [if_pos hcount, if_neg hcount, truncateMarkersOnly_eq_findIdx, List.map_append,
        List.map_cons, hopener, List.map_congr_left hbefore]

theorem getElem?_turns {i idx : Nat} {item : ConversationItem} (hitem : items[i]? = some item)
    (hindex : item.promptIndex = some idx) : (turns items)[i]? = some (some idx) := by
  cases hfirst : items.findSome? ConversationItem.promptIndex with
  | none =>
    have hnone := List.findSome?_eq_none_iff.mp hfirst item (List.mem_of_getElem? hitem)
    rw [hnone] at hindex
    cases hindex
  | some first =>
    obtain ⟨before, opener, after, rfl, hopener, hbefore⟩ := List.findSome?_eq_some_iff.mp hfirst
    have hle : before.length ≤ i := by
      by_contra hlt
      rw [List.getElem?_append_left (not_le.mp hlt)] at hitem
      rw [hbefore item (List.mem_of_getElem? hitem)] at hindex
      cases hindex
    have hlength := length_turnsBefore first
      (countLegacyTurnsUntilMarker false (before ++ opener :: after)) before
    rw [List.getElem?_append_right hle] at hitem
    rw [turns_append hbefore hopener, List.getElem?_append_right (hlength.trans_le hle), hlength,
      ← hopener, ← List.map_cons, List.getElem?_map, hitem, Option.map_some, hindex]

theorem promptIndex_lt_of_mem_take {target idx : Nat} {item : ConversationItem}
    (hitem : item ∈ items.take (conversationTruncateForPrompt items target))
    (hindex : item.promptIndex = some idx) : idx < target := by
  obtain ⟨i, hi⟩ := List.getElem?_of_mem hitem
  rw [List.getElem?_take, Option.ite_none_right_eq_some,
    conversationTruncateForPrompt_eq_findIdx] at hi
  obtain ⟨hlt, hitem⟩ := hi
  obtain ⟨hlength, hturn⟩ := List.getElem?_eq_some_iff.mp (getElem?_turns hitem hindex)
  have hfalse := List.not_of_lt_findIdx hlt
  rw [hturn] at hfalse
  exact opensFrom_eq_false_iff.mp hfalse idx rfl

theorem conversationTruncateForPrompt_mono {target target' : Nat} (h : target ≤ target')
    (items : List ConversationItem) :
    conversationTruncateForPrompt items target ≤ conversationTruncateForPrompt items target' := by
  rw [conversationTruncateForPrompt_eq_findIdx, conversationTruncateForPrompt_eq_findIdx]
  exact List.findIdx_le_findIdx fun _ _ => opensFrom_mono h

/-- Kept items that open the turns that they opened before are cut as before. -/
theorem twice_of_turns_take {target target' : Nat} (h : target ≤ target')
    (hturns : turns (items.take (conversationTruncateForPrompt items target')) =
      (turns items).take (conversationTruncateForPrompt items target')) :
    conversationTruncateForPrompt
        (items.take (conversationTruncateForPrompt items target')) target =
      conversationTruncateForPrompt items target := by
  rw [conversationTruncateForPrompt_eq_findIdx, hturns, conversationTruncateForPrompt_eq_findIdx,
    conversationTruncateForPrompt_eq_findIdx]
  exact findIdx_take_findIdx (fun _ => opensFrom_mono h) _

/-- What a cut keeps up to a first marker behind the target. -/
theorem truncate_before_marker {target : Nat} (htarget : target ≤ first)
    (hbefore : ∀ item ∈ before, item.promptIndex = none)
    (hopener : opener.promptIndex = some first) :
    conversationTruncateForPrompt (before ++ opener :: after) target =
      (turnsBefore first (countLegacyTurnsUntilMarker false (before ++ opener :: after))
        before).findIdx (opensFrom target) := by
  rw [conversationTruncateForPrompt_eq_findIdx, turns_append hbefore hopener, List.findIdx_append]
  split
  · rfl
  · rename_i hno
    have hle := @List.findIdx_le_length _ (opensFrom target) (turnsBefore first
      (countLegacyTurnsUntilMarker false (before ++ opener :: after)) before)
    have hhit : opensFrom target (some first) = true := decide_eq_true htarget
    rw [List.findIdx_cons, hhit, cond_true, Nat.zero_add]
    omega

theorem opensFrom_turnsBefore {target : Nat} (htarget : first < target)
    (hbefore : ∀ item ∈ before, item.promptIndex = none)
    (hopener : opener.promptIndex = some first) :
    ∀ turn ∈ turnsBefore first (countLegacyTurnsUntilMarker false (before ++ opener :: after))
      before, opensFrom target turn = false := by
  have hsome : opener.promptIndex.isSome = true := by
    rw [hopener]
    rfl
  intro turn hturn
  unfold turnsBefore at hturn
  split at hturn
  · rename_i hcount
    rw [opensFrom_eq_false_iff]
    rintro idx rfl
    have hbounds := (mem_legacyTurns_iff after hbefore hsome).mp hturn
    rw [hcount] at hbounds
    omega
  · obtain ⟨-, -, rfl⟩ := List.mem_map.mp hturn
    rfl

/-- A cut behind the first marker keeps the strategy. -/
theorem turns_take_of_lt {target : Nat} (htarget : first < target)
    (hbefore : ∀ item ∈ before, item.promptIndex = none)
    (hopener : opener.promptIndex = some first) :
    turns ((before ++ opener :: after).take
        (conversationTruncateForPrompt (before ++ opener :: after) target)) =
      (turns (before ++ opener :: after)).take
        (conversationTruncateForPrompt (before ++ opener :: after) target) := by
  have hsome : opener.promptIndex.isSome = true := by
    rw [hopener]
    rfl
  have hlength := length_turnsBefore first
    (countLegacyTurnsUntilMarker false (before ++ opener :: after)) before
  have hfalse : opensFrom target (some first) = false :=
    opensFrom_eq_false_iff.mpr fun idx hidx => (Option.some.inj hidx) ▸ htarget
  obtain ⟨kept, hkept⟩ : ∃ kept, conversationTruncateForPrompt (before ++ opener :: after) target =
      before.length + (kept + 1) := by
    rw [conversationTruncateForPrompt_eq_findIdx, turns_append hbefore hopener,
      List.findIdx_append, List.findIdx_eq_length_of_false
        (opensFrom_turnsBefore htarget hbefore hopener), if_neg (lt_irrefl _), hlength,
      List.findIdx_cons, hfalse, cond_false]
    exact ⟨_, Nat.add_comm _ _⟩
  rw [hkept, List.take_length_add_append, List.take_succ_cons, turns_append hbefore hopener,
    turns_append hbefore hopener, countLegacyTurnsUntilMarker_append after hbefore hsome, ← hlength,
    List.take_length_add_append, List.take_succ_cons, List.map_take]

theorem turns_take_of_counted {n : Nat} (hn : n ≤ before.length)
    (hbefore : ∀ item ∈ before, item.promptIndex = none)
    (hopener : opener.promptIndex = some first)
    (hcount : countLegacyTurnsUntilMarker false (before ++ opener :: after) = first) :
    turns ((before ++ opener :: after).take n) = (turns (before ++ opener :: after)).take n := by
  have hlength := length_legacyTurns 0 false before
  rw [List.take_append_of_le_length hn, turns_append hbefore hopener, turnsBefore, if_pos hcount,
    List.take_append_of_le_length (hn.trans_eq hlength.symm), take_legacyTurns,
    turns_unmarked fun item hitem => hbefore item (List.mem_of_mem_take hitem)]

/-- The turns in front of the first marker are cut when they had not been counted and are too
many. -/
theorem truncate_uncounted_iff {target : Nat}
    (hbefore : ∀ item ∈ before, item.promptIndex = none) (hopener : opener.promptIndex.isSome) :
    conversationTruncateForPrompt before target = before.length ↔
      countLegacyTurnsUntilMarker false (before ++ opener :: after) ≤ target := by
  rw [conversationTruncateForPrompt_eq_findIdx, turns_unmarked hbefore,
    ← length_legacyTurns 0 false before, List.findIdx_eq_length]
  constructor
  · intro hall
    by_contra hlt
    have hmem := (mem_legacyTurns_iff after hbefore hopener).mpr
      ⟨Nat.zero_le target, by rw [Nat.zero_add]; exact not_le.mp hlt⟩
    exact lt_irrefl target (opensFrom_eq_false_iff.mp (hall _ hmem) target rfl)
  · intro hle turn hturn
    rw [opensFrom_eq_false_iff]
    rintro idx rfl
    have hbounds := (mem_legacyTurns_iff after hbefore hopener).mp hturn
    omega

end Cuts

/-- The second rewind cuts where it would have cut at first, except where the first rewind drops
every marker of a conversation whose first marker does not count the turns in front of it, and
there are more of these turns than the second rewind is to keep. -/
theorem conversationTruncateForPrompt_twice (items : List ConversationItem) {target target' : Nat}
    (h : target ≤ target') :
    conversationTruncateForPrompt items target ≤ conversationTruncateForPrompt items target' ∧
      (∀ item ∈ items.take (conversationTruncateForPrompt items target'), ∀ idx,
        item.promptIndex = some idx → idx < target') ∧
      (conversationTruncateForPrompt
          (items.take (conversationTruncateForPrompt items target')) target =
        conversationTruncateForPrompt items target ↔
        ∀ first, items.findSome? ConversationItem.promptIndex = some first → target' ≤ first →
          countLegacyTurnsUntilMarker false items = first ∨
            countLegacyTurnsUntilMarker false items ≤ target) := by
  refine ⟨conversationTruncateForPrompt_mono h items,
    fun item hitem idx hidx => promptIndex_lt_of_mem_take hitem hidx, ?_⟩
  cases hfirst : items.findSome? ConversationItem.promptIndex with
  | none =>
    have hunmarked := List.findSome?_eq_none_iff.mp hfirst
    refine iff_of_true (twice_of_turns_take h ?_) nofun
    rw [turns_unmarked hunmarked, take_legacyTurns,
      turns_unmarked fun item hitem => hunmarked item (List.mem_of_mem_take hitem)]
  | some first =>
    obtain ⟨before, opener, after, rfl, hopener, hbefore⟩ := List.findSome?_eq_some_iff.mp hfirst
    have hsome : opener.promptIndex.isSome = true := by
      rw [hopener]
      rfl
    by_cases hlt : first < target'
    · refine iff_of_true (twice_of_turns_take h (turns_take_of_lt hlt hbefore hopener)) ?_
      intro first' hfirst' hle
      cases hfirst'
      exact absurd hlt (not_lt.mpr hle)
    · rw [not_lt] at hlt
      have hkept := @truncate_before_marker _ _ _ after _ hlt hbefore hopener
      have hkept' := @truncate_before_marker _ _ _ after _ (h.trans hlt) hbefore hopener
      have hle : conversationTruncateForPrompt (before ++ opener :: after) target' ≤
          before.length := by
        rw [hkept, ← length_turnsBefore first _ before]
        exact List.findIdx_le_length
      by_cases hcount : countLegacyTurnsUntilMarker false (before ++ opener :: after) = first
      · refine iff_of_true
          (twice_of_turns_take h (turns_take_of_counted hle hbefore hopener hcount)) ?_
        intro first' hfirst' _
        cases hfirst'
        exact Or.inl hcount
      · have hnone : ∀ target, (turnsBefore first
            (countLegacyTurnsUntilMarker false (before ++ opener :: after)) before).findIdx
              (opensFrom target) = before.length := by
          intro target
          rw [turnsBefore, if_neg hcount, ← @List.length_map _ _ before fun _ => (none : Option Nat)]
          refine List.findIdx_eq_length_of_false fun turn hturn => ?_
          obtain ⟨-, -, rfl⟩ := List.mem_map.mp hturn
          rfl
        rw [hkept, hkept', hnone, hnone, List.take_left, truncate_uncounted_iff hbefore hsome]
        constructor
        · intro hcut first' _ _
          exact Or.inr hcut
        · intro hcut
          exact (hcut first rfl hlt).resolve_left hcount

/-- An item of a user that opens no marked turn. -/
def unmarkedItem (text : String) : ConversationItem :=
  .user ⟨[.text text], .human, none, none, none⟩

/-- The turns in front of the marker are counted here. -/
theorem rewinds_counted_twice :
    conversationTruncateForPrompt [unmarkedItem "info", unmarkedItem "a", promptItem "b" 1] 0 ≤
        conversationTruncateForPrompt [unmarkedItem "info", unmarkedItem "a", promptItem "b" 1] 1 ∧
      (∀ item ∈ [unmarkedItem "info", unmarkedItem "a", promptItem "b" 1].take
          (conversationTruncateForPrompt
            [unmarkedItem "info", unmarkedItem "a", promptItem "b" 1] 1),
        ∀ idx, item.promptIndex = some idx → idx < 1) ∧
      (conversationTruncateForPrompt
          ([unmarkedItem "info", unmarkedItem "a", promptItem "b" 1].take
            (conversationTruncateForPrompt
              [unmarkedItem "info", unmarkedItem "a", promptItem "b" 1] 1)) 0 =
        conversationTruncateForPrompt
          [unmarkedItem "info", unmarkedItem "a", promptItem "b" 1] 0 ↔
        ∀ first, [unmarkedItem "info", unmarkedItem "a", promptItem "b" 1].findSome?
            ConversationItem.promptIndex = some first → 1 ≤ first →
          countLegacyTurnsUntilMarker false
              [unmarkedItem "info", unmarkedItem "a", promptItem "b" 1] = first ∨
            countLegacyTurnsUntilMarker false
              [unmarkedItem "info", unmarkedItem "a", promptItem "b" 1] ≤ 0) :=
  conversationTruncateForPrompt_twice _ (Nat.zero_le 1)

/-- A carried query in front of turn 12 is kept by the first rewind, whose result has no marker
any more, and dropped by the second one. -/
theorem not_truncate_twice :
    ¬∀ (items : List ConversationItem) (target target' : Nat), target ≤ target' →
      conversationTruncateForPrompt
          (items.take (conversationTruncateForPrompt items target')) target =
        conversationTruncateForPrompt items target := by
  intro h
  have htwice := h [unmarkedItem "info", unmarkedItem "query", promptItem "b" 12] 0 12
    (Nat.zero_le 12)
  revert htwice
  decide

end Ezer.ChatState
