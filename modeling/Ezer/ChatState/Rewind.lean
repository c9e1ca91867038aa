import Ezer.ChatState.Items

/-!
# Rewind cuts

Where a conversation is cut to drop a prompt turn and everything behind it.
Markers on user items say which turn they open; before the first marker turns
are counted by the older rules. The chat state counts user items instead.
-/

namespace Ezer.ChatState

/-- The prompt turn an item opens, if it is marked. -/
def ConversationItem.promptIndex : ConversationItem → Option Nat
  | .user u => u.promptIndex
  | _ => none

/-- The turn an unmarked user item counts as, and whether the preamble was seen. -/
def legacyIndex (reason : SyntheticReason) (seenPreamble : Bool) (next : Nat) :
    Option Nat × Bool :=
  match reason with
  | .human => if seenPreamble then (some next, true) else (none, true)
  | reason => if reason.startsPromptTurn then (some next, seenPreamble) else (none, seenPreamble)

/-- The cut by markers alone. -/
def truncateMarkersOnly (target : Nat) : List ConversationItem → Nat
  | [] => 0
  | .user u :: rest =>
    match u.promptIndex with
    | some idx => if target ≤ idx then 0 else 1 + truncateMarkersOnly target rest
    | none => 1 + truncateMarkersOnly target rest
  | _ :: rest => 1 + truncateMarkersOnly target rest

/-- The cut in a conversation without markers. -/
def truncateLegacy (target next : Nat) (seenPreamble : Bool) : List ConversationItem → Nat
  | [] => 0
  | .user u :: rest =>
    match legacyIndex u.syntheticReason seenPreamble next with
    | (some idx, seen) =>
      if target ≤ idx then 0 else 1 + truncateLegacy target (idx + 1) seen rest
    | (none, seen) => 1 + truncateLegacy target next seen rest
  | _ :: rest => 1 + truncateLegacy target next seenPreamble rest

/-- The turns counted in the unmarked items before the first marker. -/
def countLegacyTurnsUntilMarker (seenPreamble : Bool) : List ConversationItem → Nat
  | [] => 0
  | .user u :: rest =>
    match u.promptIndex with
    | some _ => 0
    | none =>
      match legacyIndex u.syntheticReason seenPreamble 0 with
      | (some _, seen) => 1 + countLegacyTurnsUntilMarker seen rest
      | (none, seen) => countLegacyTurnsUntilMarker seen rest
  | _ :: rest => countLegacyTurnsUntilMarker seenPreamble rest

/-- The cut by the older rules up to the first marker and by markers behind it. -/
def truncateProgressive (target next : Nat) (seenPreamble seenMarker : Bool) :
    List ConversationItem → Nat
  | [] => 0
  | .user u :: rest =>
    match u.promptIndex with
    | some idx =>
      if target ≤ idx then 0 else 1 + truncateProgressive target next seenPreamble true rest
    | none =>
      if seenMarker then 1 + truncateProgressive target next seenPreamble true rest
      else
        match legacyIndex u.syntheticReason seenPreamble next with
        | (some idx, seen) =>
          if target ≤ idx then 0 else 1 + truncateProgressive target (idx + 1) seen false rest
        | (none, seen) => 1 + truncateProgressive target next seen false rest
  | _ :: rest => 1 + truncateProgressive target next seenPreamble seenMarker rest

/-- How many items to keep so that everything from a prompt turn onward is dropped. -/
def conversationTruncateForPrompt (items : List ConversationItem) (target : Nat) : Nat :=
  match items.findSome? ConversationItem.promptIndex with
  | none => truncateLegacy target 0 false items
  | some first =>
    if countLegacyTurnsUntilMarker false items ≠ first then truncateMarkersOnly target items
    else truncateProgressive target 0 false false items

/-- How many items stand before the user item behind so many other user items. -/
def userCut (target count : Nat) : List ConversationItem → Nat
  | [] => 0
  | .user _ :: rest => if count = target then 0 else 1 + userCut target (count + 1) rest
  | _ :: rest => 1 + userCut target count rest

/-! ## Cuts of marked conversations -/

/-- The markers of a conversation. -/
def markers (items : List ConversationItem) : List Nat :=
  items.filterMap ConversationItem.promptIndex

/-- The items before the one that opens a turn. -/
def beforeTurn (target : Nat) (items : List ConversationItem) : List ConversationItem :=
  items.takeWhile fun item => decide (item.promptIndex ≠ some target)

variable {target : Nat}

theorem beforeTurn_cons_of_ne {item : ConversationItem}
    (h : item.promptIndex ≠ some target) (rest : List ConversationItem) :
    beforeTurn target (item :: rest) = item :: beforeTurn target rest :=
  List.takeWhile_cons_of_pos (decide_eq_true h)

theorem beforeTurn_cons_of_eq {item : ConversationItem}
    (h : item.promptIndex = some target) (rest : List ConversationItem) :
    beforeTurn target (item :: rest) = [] := by
  rw [beforeTurn, List.takeWhile_cons_of_neg]
  simpa using h

variable {items : List ConversationItem}

theorem truncateMarkersOnly_eq
    (hsorted : (markers items).Pairwise (· < ·)) (hmem : target ∈ markers items) :
    truncateMarkersOnly target items = (beforeTurn target items).length := by
  induction items with
  | nil => cases hmem
  | cons item rest ih =>
    rw [markers, List.filterMap_cons] at hsorted hmem
    cases hindex : item.promptIndex with
    | none =>
      rw [hindex] at hsorted hmem
      have hrest := ih hsorted hmem
      have hne : item.promptIndex ≠ some target := by
        rw [hindex]
        exact nofun
      rw [beforeTurn_cons_of_ne hne, List.length_cons, ← hrest, Nat.add_comm]
      cases item with
      | user u =>
        rw [truncateMarkersOnly, show u.promptIndex = none from hindex]
      | _ => rfl
    | some idx =>
      rw [hindex] at hsorted hmem
      rw [List.pairwise_cons] at hsorted
      cases item with
      | user u =>
        rw [truncateMarkersOnly, show u.promptIndex = some idx from hindex]
        obtain rfl | hmem := List.mem_cons.mp hmem
        · rw [beforeTurn_cons_of_eq hindex]
          exact if_pos (Nat.le_refl _)
        · have hlt := hsorted.1 target hmem
          have hne : (ConversationItem.user u).promptIndex ≠ some target := by
            rw [hindex]
            intro h
            have := Option.some.inj h
            omega
          rw [beforeTurn_cons_of_ne hne, List.length_cons, ← ih hsorted.2 hmem, Nat.add_comm]
          exact if_neg (by omega)
      | _ => cases hindex

/-- An unmarked item that opens no turn opens none at any count. -/
theorem legacyIndex_none {reason : SyntheticReason} {seenPreamble seen : Bool} {next : Nat}
    (h : legacyIndex reason seenPreamble next = (none, seen)) (next' : Nat) :
    legacyIndex reason seenPreamble next' = (none, seen) := by
  revert h
  cases reason <;> cases seenPreamble <;> simp [legacyIndex, SyntheticReason.startsPromptTurn]

/-- Without counted turns before the first marker the markers alone decide. -/
theorem truncateProgressive_eq (target next : Nat) {seenPreamble seenMarker : Bool}
    (h : seenMarker = true ∨ countLegacyTurnsUntilMarker seenPreamble items = 0) :
    truncateProgressive target next seenPreamble seenMarker items =
      truncateMarkersOnly target items := by
  induction items generalizing seenPreamble seenMarker with
  | nil => rfl
  | cons item rest ih =>
    cases item with
    | user u =>
      rw [truncateProgressive, truncateMarkersOnly]
      cases hindex : u.promptIndex with
      | some idx =>
        dsimp only
        rw [ih (Or.inl rfl)]
      | none =>
        dsimp only
        cases seenMarker with
        | true => rw [if_pos rfl, ih (Or.inl rfl)]
        | false =>
          rw [if_neg Bool.false_ne_true]
          obtain h | h := h
          · cases h
          · rw [countLegacyTurnsUntilMarker, hindex] at h
            cases hlegacy : legacyIndex u.syntheticReason seenPreamble 0 with
            | mk effective seen =>
              rw [hlegacy] at h
              cases effective with
              | some idx =>
                dsimp only at h
                omega
              | none =>
                rw [legacyIndex_none hlegacy next]
                dsimp only
                rw [ih (Or.inr h)]
    | _ =>
      rw [truncateProgressive, truncateMarkersOnly, ih h]
      · exact fun _ => ConversationItem.noConfusion
      · exact fun _ => ConversationItem.noConfusion

/-- In a conversation whose turns are marked from zero on, the cut is before the item that
opens the target turn. -/
theorem conversationTruncateForPrompt_eq {turns : Nat}
    (hmarkers : markers items = List.range turns) (htarget : target < turns) :
    conversationTruncateForPrompt items target = (beforeTurn target items).length := by
  have hfirst : items.findSome? ConversationItem.promptIndex = some 0 := by
    rw [← List.head?_filterMap, ← markers, hmarkers, List.head?_range, if_neg (by omega)]
  have hmarked : truncateMarkersOnly target items = (beforeTurn target items).length := by
    apply truncateMarkersOnly_eq
    · rw [hmarkers]
      exact List.pairwise_lt_range
    · rw [hmarkers]
      exact List.mem_range.mpr htarget
  rw [conversationTruncateForPrompt, hfirst]
  dsimp only
  split
  · exact hmarked
  · rename_i hcount
    rw [truncateProgressive_eq target 0 (Or.inr (not_not.mp hcount)), hmarked]

/-! ## Counting user items -/

theorem userCut_le_length (target count : Nat) (items : List ConversationItem) :
    userCut target count items ≤ items.length := by
  induction items generalizing count with
  | nil => exact Nat.le_refl 0
  | cons item rest ih =>
    cases item with
    | user u =>
      have hrest := ih (count + 1)
      rw [userCut, List.length_cons]
      split <;> omega
    | _ =>
      have hrest := ih count
      simp only [userCut, List.length_cons]
      omega

/-- Counting user items stops at a user item exactly when the target many stand before it. -/
theorem userCut_eq_length_iff {count : Nat} {u : UserItem}
    {before after : List ConversationItem} (hle : count ≤ target) :
    userCut target count (before ++ .user u :: after) = before.length ↔
      count + before.countP ConversationItem.isUser = target := by
  induction before generalizing count with
  | nil =>
    rw [List.nil_append, userCut]
    split
    · simp_all
    · simp only [List.length_nil, List.countP_nil]
      omega
  | cons item rest ih =>
    cases item with
    | user v =>
      rw [List.cons_append, userCut, List.countP_cons_of_pos rfl, List.length_cons]
      split
      · omega
      · have hrest := @ih (count + 1) (by omega)
        omega
    | _ =>
      have hrest := ih hle
      simp only [List.cons_append, userCut, List.length_cons]
      rw [List.countP_cons_of_neg Bool.false_ne_true]
      omega

/-- The item that opens a turn, with what stands before it. -/
theorem exists_opener (h : target ∈ markers items) :
    ∃ u after, u.promptIndex = some target ∧
      items = beforeTurn target items ++ .user u :: after := by
  induction items with
  | nil => cases h
  | cons item rest ih =>
    by_cases hindex : item.promptIndex = some target
    · cases item with
      | user u => exact ⟨u, rest, hindex, by rw [beforeTurn_cons_of_eq hindex]; rfl⟩
      | _ => cases hindex
    · have hrest : target ∈ markers rest := by
        obtain ⟨found, hfound, hvalue⟩ := List.mem_filterMap.mp h
        obtain rfl | hfound := List.mem_cons.mp hfound
        · exact absurd hvalue hindex
        · exact List.mem_filterMap.mpr ⟨found, hfound, hvalue⟩
      obtain ⟨u, after, hu, hitems⟩ := ih hrest
      refine ⟨u, after, hu, ?_⟩
      rw [beforeTurn_cons_of_ne hindex, List.cons_append, ← hitems]

/-- As many marked items stand before the item that opens a turn as its number says. -/
theorem length_markers_beforeTurn {turns : Nat}
    (hmarkers : markers items = List.range turns) (htarget : target < turns) :
    (markers (beforeTurn target items)).length = target := by
  have hmem : target ∈ markers items := by
    rw [hmarkers]
    exact List.mem_range.mpr htarget
  obtain ⟨u, after, hu, hitems⟩ := exists_opener hmem
  have hsplit : markers items = markers (beforeTurn target items) ++ target :: markers after := by
    have h := congrArg markers hitems
    rw [markers, markers, List.filterMap_append, List.filterMap_cons] at h
    rw [show (ConversationItem.user u).promptIndex = some target from hu] at h
    exact h
  rw [hmarkers] at hsplit
  have hlength := congrArg List.length hsplit
  rw [List.length_range, List.length_append, List.length_cons] at hlength
  have hget := congrArg (fun l => l[(markers (beforeTurn target items)).length]?) hsplit
  simp only [List.getElem?_append_right (Nat.le_refl _), Nat.sub_self,
    List.getElem?_cons_zero] at hget
  rw [List.getElem?_range (by omega)] at hget
  exact Option.some.inj hget

theorem length_markers_le (items : List ConversationItem) :
    (markers items).length ≤ items.countP ConversationItem.isUser := by
  rw [markers, List.length_filterMap_eq_countP]
  apply List.countP_mono_left
  intro item _ hitem
  cases item with
  | user u => rfl
  | _ => cases hitem

/-- All user items of a list are marked when there are as many of them as markers. -/
theorem countP_isUser_eq_iff (items : List ConversationItem) :
    items.countP ConversationItem.isUser = (markers items).length ↔
      ∀ item ∈ items, item.isUser = true → item.promptIndex.isSome = true := by
  induction items with
  | nil => exact iff_of_true rfl (fun _ h => by cases h)
  | cons item rest ih =>
    rw [List.forall_mem_cons, ← ih]
    have hle := length_markers_le rest
    cases item with
    | user u =>
      have hindex : (ConversationItem.user u).promptIndex = u.promptIndex := rfl
      rw [List.countP_cons_of_pos rfl, markers, List.filterMap_cons, ← markers, hindex]
      cases u.promptIndex with
      | none =>
        constructor
        · intro h
          dsimp only at h
          omega
        · rintro ⟨h, -⟩
          cases h rfl
      | some idx =>
        dsimp only
        rw [List.length_cons, Nat.add_right_cancel_iff]
        exact (and_iff_right fun _ => rfl).symm
    | _ =>
      rw [List.countP_cons_of_neg Bool.false_ne_true]
      exact (and_iff_right fun h => by cases h).symm

end Ezer.ChatState
