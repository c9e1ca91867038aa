import Ezer.Sampling.MessagesRequest
import Mathlib.Algebra.GroupWithZero.Nat

/-!
# Breakpoints of the prompt cache

Breakpoints are put on blocks of finished messages. They change nothing else,
and there are at most three of them, none on a thinking block.
-/

namespace Ezer.Sampling

section

variable {J : Type*}

/-- A block without its breakpoint. -/
def ContentBlock.bare : ContentBlock J → ContentBlock J
  | .text content _ => .text content none
  | .image source _ => .image source none
  | .toolUse id name input _ => .toolUse id name input none
  | .toolResult id content _ => .toolResult id content none
  | .thinking content signature => .thinking content signature
  | .redactedThinking data => .redactedThinking data

/-- The blocks of a message. -/
def Message.blocks (m : Message J) : List (ContentBlock J) :=
  match m.content with
  | .text body => [.text body none]
  | .blocks parts => parts

/-- A message without its breakpoints. -/
def Message.bare (m : Message J) : MessageRole × List (ContentBlock J) :=
  (m.role, m.blocks.map ContentBlock.bare)

/-- The breakpoint of a block. -/
def ContentBlock.cacheControl : ContentBlock J → Option CacheControl
  | .text _ control => control
  | .image _ control => control
  | .toolUse _ _ _ control => control
  | .toolResult _ _ control => control
  | .thinking _ _ => none
  | .redactedThinking _ => none

/-- The breakpoint of a block inside a tool result. -/
def ResultBlock.cacheControl : ResultBlock → Option CacheControl
  | .text _ control => control
  | .image _ control => control

/-- How many breakpoints the blocks inside a block carry. -/
def ContentBlock.innerBreakpoints : ContentBlock J → ℕ
  | .toolResult _ (.blocks parts) _ => parts.countP fun b => b.cacheControl.isSome
  | _ => 0

/-- How many breakpoints a block carries, the blocks inside it included. -/
def ContentBlock.breakpoints (b : ContentBlock J) : ℕ :=
  (if b.cacheControl.isSome then 1 else 0) + b.innerBreakpoints

/-- How many breakpoints a message carries. -/
def Message.breakpoints (m : Message J) : ℕ := (m.blocks.map ContentBlock.breakpoints).sum

/-- How many breakpoints the system prompt carries. -/
def SystemParam.breakpoints : SystemParam → ℕ
  | .text _ => 0
  | .blocks parts => parts.countP fun b => b.cacheControl.isSome

/-- How many breakpoints some messages carry. -/
def breakpointsOf (messages : List (Message J)) : ℕ := (messages.map Message.breakpoints).sum

/-- How many breakpoints a request carries. -/
def MessagesRequest.breakpoints (req : MessagesRequest J) : ℕ :=
  (req.system.map SystemParam.breakpoints).getD 0 + breakpointsOf req.messages

theorem bare_mark {b b' : ContentBlock J} (h : b.mark = some b') : b'.bare = b.bare := by
  cases b with
  | thinking => cases h
  | redactedThinking => cases h
  | _ =>
    cases h
    rfl

theorem breakpoints_mark {b b' : ContentBlock J} (h : b.mark = some b') :
    b'.breakpoints ≤ b.breakpoints + 1 := by
  have hinner : b'.innerBreakpoints = b.innerBreakpoints := by
    cases b with
    | thinking => cases h
    | redactedThinking => cases h
    | toolResult id content control =>
      cases h
      cases content <;> rfl
    | _ =>
      cases h
      rfl
  unfold ContentBlock.breakpoints
  rw [hinner]
  split <;> split <;> omega

/-- The last entry that can be changed is changed, and nothing else. -/
theorem markLast_eq_some {α : Type*} {mark : α → Option α} {l l' : List α} {i : ℕ}
    (h : markLast mark l = some (i, l')) :
    ∃ early a late a', l = early ++ a :: late ∧ mark a = some a' ∧ l' = early ++ a' :: late := by
  induction l generalizing i l' with
  | nil => cases h
  | cons a rest ih =>
    unfold markLast at h
    split at h
    · rename_i j rest' hrest
      cases h
      obtain ⟨early, b, late, b', rfl, hb, rfl⟩ := ih hrest
      exact ⟨a :: early, b, late, b', rfl, hb, rfl⟩
    · obtain ⟨a', ha, heq⟩ := Option.map_eq_some_iff.mp h
      cases heq
      exact ⟨[], a, rest, a', rfl, ha, rfl⟩

theorem markMessage_cases {m m' : Message J} (h : markMessageCacheBreakpoint m = some m') :
    m'.bare = m.bare ∧ m'.breakpoints ≤ m.breakpoints + 1 := by
  unfold markMessageCacheBreakpoint at h
  split at h
  · rename_i blocks hcontent
    obtain ⟨⟨i, blocks'⟩, hmark, heq⟩ := Option.map_eq_some_iff.mp h
    cases heq
    obtain ⟨early, b, late, b', rfl, hb, rfl⟩ := markLast_eq_some hmark
    have hcount := breakpoints_mark hb
    simp only [Message.bare, Message.breakpoints, Message.blocks, hcontent, List.map_append,
      List.map_cons, bare_mark hb, List.sum_append, List.sum_cons, true_and]
    omega
  · rename_i text hcontent
    cases h
    simp only [Message.bare, Message.breakpoints, Message.blocks, hcontent, List.map_cons,
      List.map_nil]
    exact ⟨rfl, Nat.le_refl 1⟩

theorem markedMessage_cases (m : Message J) :
    ((markMessageCacheBreakpoint m).getD m).bare = m.bare ∧
      ((markMessageCacheBreakpoint m).getD m).breakpoints ≤ m.breakpoints + 1 := by
  cases h : markMessageCacheBreakpoint m with
  | none => exact ⟨rfl, Nat.le_succ _⟩
  | some m' => exact markMessage_cases h

theorem modify_mark_cases (messages : List (Message J)) (i : ℕ) :
    (messages.modify i fun m => (markMessageCacheBreakpoint m).getD m).map Message.bare =
        messages.map Message.bare ∧
      breakpointsOf (messages.modify i fun m => (markMessageCacheBreakpoint m).getD m) ≤
        breakpointsOf messages + 1 := by
  induction messages generalizing i with
  | nil => exact ⟨by simp, by simp⟩
  | cons m messages ih =>
    cases i with
    | zero =>
      obtain ⟨hbare, hcount⟩ := markedMessage_cases m
      rw [List.modify_zero_cons, List.map_cons, List.map_cons, hbare]
      simp only [breakpointsOf, List.map_cons, List.sum_cons, true_and]
      omega
    | succ i =>
      obtain ⟨hbare, hcount⟩ := ih i
      rw [List.modify_succ_cons, List.map_cons, List.map_cons, hbare]
      simp only [breakpointsOf, List.map_cons, List.sum_cons, true_and] at hcount ⊢
      omega

/-- Breakpoints change nothing else, and the messages get at most two of them. -/
theorem applyCacheBreakpoints_cases (messages : List (Message J)) :
    (applyCacheBreakpoints messages).map Message.bare = messages.map Message.bare ∧
      breakpointsOf (applyCacheBreakpoints messages) ≤ breakpointsOf messages + 2 := by
  unfold applyCacheBreakpoints
  split
  · exact ⟨rfl, Nat.le_add_right _ _⟩
  · rename_i tip marked hmark
    obtain ⟨early, m, late, m', rfl, hm, rfl⟩ := markLast_eq_some hmark
    obtain ⟨hbare, hcount⟩ := markMessage_cases hm
    have hmarked : (early ++ m' :: late).map Message.bare =
        (early ++ m :: late).map Message.bare := by simp [hbare]
    have hone : breakpointsOf (early ++ m' :: late) ≤ breakpointsOf (early ++ m :: late) + 1 := by
      simp only [breakpointsOf, List.map_append, List.map_cons, List.sum_append, List.sum_cons]
      omega
    split
    · exact ⟨hmarked, by omega⟩
    · rename_i prev hprev
      obtain ⟨hbare', hcount'⟩ := modify_mark_cases (early ++ m' :: late) prev
      exact ⟨hbare'.trans hmarked, by omega⟩

theorem countP_markSystemBlocks {blocks : List TextBlock}
    (h : ∀ b ∈ blocks, b.cacheControl = none) :
    (markSystemBlocks blocks).countP (fun b => b.cacheControl.isSome) ≤ 1 := by
  induction blocks with
  | nil => exact Nat.zero_le _
  | cons b rest ih =>
    obtain ⟨hb, hrest⟩ := List.forall_mem_cons.mp h
    cases rest with
    | nil => exact Nat.le_of_eq rfl
    | cons c rest =>
      rw [markSystemBlocks, List.countP_cons_of_neg (by simp [hb])]
      · exact ih hrest
      · exact List.cons_ne_nil c rest

/-- The texts of the system prompt. -/
def SystemParam.texts : SystemParam → List String
  | .text body => [body]
  | .blocks parts => parts.map TextBlock.text

theorem texts_markSystemBlocks (blocks : List TextBlock) :
    (markSystemBlocks blocks).map TextBlock.text = blocks.map TextBlock.text := by
  induction blocks with
  | nil => rfl
  | cons b rest ih =>
    cases rest with
    | nil => rfl
    | cons c rest =>
      rw [markSystemBlocks, List.map_cons, List.map_cons, ih]
      exact List.cons_ne_nil c rest

theorem texts_systemParam (blocks : List TextBlock) :
    ((systemParam blocks).map SystemParam.texts).getD [] = blocks.map TextBlock.text := by
  unfold systemParam
  split
  · rfl
  · split <;> rfl
  · rfl

theorem breakpoints_systemParam_le (blocks : List TextBlock) :
    ((systemParam blocks).map SystemParam.breakpoints).getD 0 ≤
      blocks.countP fun b => b.cacheControl.isSome := by
  unfold systemParam
  split
  · exact Nat.zero_le _
  · split
    · exact Nat.zero_le _
    · exact Nat.le_refl _
  · exact Nat.le_refl _

end

end Ezer.Sampling
