import Ezer.ChatState.Fitting
import Mathlib.Data.List.Forall2

/-!
# What fits into a budget

A conversation is fitted by whole turns as long as its last turn fits. When it
does not, the last turn is what is kept, with its texts cut; what it takes then
is the bytes of the texts after the cut, with a marker behind each of them, and
all that is not text.
-/

namespace Ezer.ChatState

open Lib Sampling

/-- A text as it is, or the start of it with a marker. -/
def ShortText (s s' : String) : Prop :=
  s' = s ∨ ∃ u v, s.toList = u ++ v ∧ s' = String.ofList (u ++ truncationMarker (byteLen v))

/-- A piece of a message with its text cut. -/
inductive ShortPart : ContentPart → ContentPart → Prop
  | text {s s' : String} (h : ShortText s s') : ShortPart (.text s) (.text s')
  | image (url : String) : ShortPart (.image url) (.image url)

/-- An item with its texts cut, and everything else as it is. -/
inductive Shortened : ConversationItem → ConversationItem → Prop
  | toolResult (r : ToolResultItem) {s : String} (h : ShortText r.content s) :
    Shortened (.toolResult r) (.toolResult { r with content := s })
  | assistant (a : AssistantItem) {s : String} (h : ShortText a.content s) :
    Shortened (.assistant a) (.assistant { a with content := s })
  | user (u : UserItem) {parts : List ContentPart} (h : List.Forall₂ ShortPart u.content parts) :
    Shortened (.user u) (.user { u with content := parts })
  | same (item : ConversationItem) : Shortened item item

/-- The bytes of a text that is cut to so many bytes, with the marker behind it. -/
def cutBytes (maxBytes : ℕ) (s : String) : ℕ :=
  if len s ≤ maxBytes then len s
  else
    let kept := len (truncateBytes s (maxBytes - markerReserve))
    kept + 56 + (digits (len s - kept)).length

/-- The bytes of the texts of a message that are cut. -/
def cutPartBytes (maxBytes : ℕ) : List ContentPart → ℕ
  | [] => 0
  | .text text :: parts => cutBytes maxBytes text + cutPartBytes maxBytes parts
  | .image _ :: parts => cutPartBytes maxBytes parts

/-- The tokens of an item whose texts are cut to so many tokens each. -/
def cutItemTokens (maxTokens : ℕ) : ConversationItem → ℕ
  | .user u =>
    cutPartBytes (maxTokens * 4) u.content / bytesPerToken +
      estimateImageTokens (partCosts u.content).2
  | .assistant a =>
    (cutBytes (maxTokens * 4) a.content + (a.toolCalls.map fun call => len call.arguments).sum) /
      bytesPerToken
  | .toolResult r => cutBytes (maxTokens * 4) r.content / bytesPerToken
  | item => estimateItemTokens item

/-- The tokens of a turn that is cut: of a single item, or of an item and its results, which share
what it leaves of the budget. -/
def cutUnitTokens (budget : ℕ) : List ConversationItem → ℕ
  | [] => 0
  | [item] => cutItemTokens budget item
  | owner :: results =>
    estimateItemTokens owner + (results.map (cutItemTokens
      (max ((budget - estimateItemTokens owner) / results.length) 1))).sum

/-- The last item that is no tool result, with the tool results behind it. -/
def lastUnit (body : List ConversationItem) : List ConversationItem :=
  body.drop (body.length -
    ((body.reverse.takeWhile ConversationItem.isToolResult).length + 1))

/-- Every tool result is behind the item that calls its tool, with other results at most in
between. -/
def ResultsFollowCallers (conversation : List ConversationItem) : Prop :=
  ∀ before r after, conversation = before ++ .toolResult r :: after →
    ∃ front a results, before = front ++ .assistant a :: results ∧
      (∀ item ∈ results, item.isToolResult = true) ∧ ∃ call ∈ a.toolCalls, call.id = r.toolCallId

section Texts

theorem len_ofList (t : Text) : len (String.ofList t) = byteLen t := by
  rw [len, String.toList_ofList]

theorem go_prefix (t : Text) (n : ℕ) :
    ∃ v, t = truncateBytes.go t n ++ v ∧ byteLen (truncateBytes.go t n) ≤ n := by
  induction t generalizing n with
  | nil => exact ⟨[], rfl, Nat.zero_le n⟩
  | cons c t ih =>
    rw [truncateBytes.go]
    split
    · rename_i hle
      obtain ⟨v, ht, hbytes⟩ := ih (n - c.utf8Size)
      refine ⟨v, congrArg (List.cons c) ht, ?_⟩
      rw [byteLen_cons]
      omega
    · exact ⟨c :: t, rfl, Nat.zero_le n⟩

theorem byteLen_digits (n : ℕ) : byteLen (digits n) = (digits n).length := by
  have hone : ∀ c ∈ digits n, c.utf8Size = 1 := by
    intro c hc
    have hdigit := isDigit_of_mem_digits hc
    rw [Char.isDigit, Bool.and_eq_true, decide_eq_true_eq, decide_eq_true_eq] at hdigit
    have hle : c.val ≤ 57 := hdigit.2
    exact Char.utf8Size_eq_one_iff.mpr (UInt32.le_trans hle (by decide))
  generalize digits n = t at hone
  induction t with
  | nil => rfl
  | cons c t ih =>
    rw [List.forall_mem_cons] at hone
    rw [byteLen_cons, hone.1, ih hone.2, List.length_cons, Nat.add_comm]

theorem byteLen_truncationMarker (n : ℕ) :
    byteLen (truncationMarker n) = 56 + (digits n).length := by
  have hfront : byteLen "\n[... truncated ".toList = 16 := by decide +kernel
  have hback : byteLen " bytes to fit the compaction window ...]".toList = 40 := by decide +kernel
  unfold truncationMarker
  generalize "\n[... truncated ".toList = front at hfront ⊢
  generalize " bytes to fit the compaction window ...]".toList = back at hback ⊢
  rw [byteLen_append, byteLen_append, hfront, hback, byteLen_digits]
  omega

/-- A text is cut to its start, and takes the bytes of a cut text. -/
theorem truncateTextToBytes_spec (s : String) (maxBytes : ℕ) :
    ShortText s ((truncateTextToBytes s maxBytes).getD s) ∧
      len ((truncateTextToBytes s maxBytes).getD s) = cutBytes maxBytes s := by
  unfold truncateTextToBytes cutBytes
  by_cases hle : len s ≤ maxBytes
  · rw [if_pos hle, if_pos hle, Option.getD_none]
    exact ⟨Or.inl rfl, rfl⟩
  · have hmin : min (maxBytes - markerReserve) (len s) = maxBytes - markerReserve := by omega
    obtain ⟨v, hs, -⟩ := go_prefix s.toList (maxBytes - markerReserve)
    have hkept : truncateBytes s (maxBytes - markerReserve) =
      String.ofList (truncateBytes.go s.toList (maxBytes - markerReserve)) := rfl
    generalize truncateBytes.go s.toList (maxBytes - markerReserve) = u at hs hkept
    have hdropped : len s - len (truncateBytes s (maxBytes - markerReserve)) = byteLen v := by
      rw [hkept, len_ofList, len, hs, byteLen_append, Nat.add_sub_cancel_left]
    rw [if_neg hle, if_neg hle, Option.getD_some]
    dsimp only
    rw [hmin, hdropped, hkept, ← String.ofList_append, len_ofList, len_ofList, byteLen_append,
      byteLen_truncationMarker]
    exact ⟨Or.inr ⟨u, v, hs, rfl⟩, (Nat.add_assoc _ _ _).symm⟩

theorem truncatePart_spec (maxBytes : ℕ) (parts : List ContentPart) :
    List.Forall₂ ShortPart parts (parts.map (truncatePart maxBytes)) ∧
      (partCosts (parts.map (truncatePart maxBytes))).1 = cutPartBytes maxBytes parts ∧
      (partCosts (parts.map (truncatePart maxBytes))).2 = (partCosts parts).2 := by
  induction parts with
  | nil => exact ⟨.nil, rfl, rfl⟩
  | cons part parts ih =>
    obtain ⟨hshort, hbytes, himages⟩ := ih
    cases part with
    | text text =>
      obtain ⟨htext, hlen⟩ := truncateTextToBytes_spec text maxBytes
      refine ⟨.cons (.text htext) hshort, ?_, himages⟩
      rw [List.map_cons, truncatePart, partCosts, cutPartBytes, hlen, hbytes]
    | image url =>
      refine ⟨.cons (.image url) hshort, hbytes, ?_⟩
      rw [List.map_cons, truncatePart, partCosts, partCosts, himages]

/-- An item that is cut takes the tokens of a cut item. -/
theorem truncateItemToTokens_spec (item : ConversationItem) (maxTokens : ℕ) :
    Shortened item (truncateItemToTokens item maxTokens) ∧
      estimateItemTokens (truncateItemToTokens item maxTokens) = cutItemTokens maxTokens item := by
  cases item with
  | toolResult r =>
    obtain ⟨htext, hlen⟩ := truncateTextToBytes_spec r.content (maxTokens * 4)
    refine ⟨.toolResult r htext, ?_⟩
    rw [truncateItemToTokens, estimateItemTokens, estimateTokens, hlen, cutItemTokens]
  | assistant a =>
    obtain ⟨htext, hlen⟩ := truncateTextToBytes_spec a.content (maxTokens * 4)
    refine ⟨.assistant a htext, ?_⟩
    rw [truncateItemToTokens, estimateItemTokens, hlen, cutItemTokens]
  | user u =>
    obtain ⟨hparts, hbytes, himages⟩ := truncatePart_spec (maxTokens * 4) u.content
    refine ⟨.user u hparts, ?_⟩
    rw [truncateItemToTokens, estimateItemTokens, hbytes, himages, cutItemTokens]
  | system | backendToolCall | reasoning => exact ⟨.same _, rfl⟩

end Texts

section Turns

variable {conversation body before results : List ConversationItem} {item : ConversationItem}
  {budget maxTokens : ℕ}

theorem estimateConversationTokens_append (items items' : List ConversationItem) :
    estimateConversationTokens (items ++ items') =
      estimateConversationTokens items + estimateConversationTokens items' := by
  rw [estimateConversationTokens, List.map_append, List.sum_append]
  rfl

theorem estimateConversationTokens_reverse (items : List ConversationItem) :
    estimateConversationTokens items.reverse = estimateConversationTokens items := by
  rw [estimateConversationTokens, List.map_reverse, List.sum_reverse]
  rfl

theorem estimate_le_of_suffix {items items' : List ConversationItem} (h : items <:+ items') :
    estimateConversationTokens items ≤ estimateConversationTokens items' := by
  obtain ⟨front, rfl⟩ := h
  rw [estimateConversationTokens_append]
  exact Nat.le_add_left _ _

theorem recentCount_spec (budget : ℕ) (items : List ConversationItem) :
    estimateConversationTokens (items.take (recentCount budget items)) ≤ budget ∧
      ∀ n ≤ items.length, estimateConversationTokens (items.take n) ≤ budget →
        n ≤ recentCount budget items := by
  induction items generalizing budget with
  | nil => exact ⟨Nat.zero_le _, fun n hn _ => hn⟩
  | cons item earlier ih =>
    rw [recentCount]
    split
    · rename_i hlt
      refine ⟨Nat.zero_le _, fun n hn hfits => ?_⟩
      cases n with
      | zero => exact le_rfl
      | succ n =>
        rw [List.take_succ_cons, estimateConversationTokens, List.map_cons, List.sum_cons] at hfits
        omega
    · rename_i hle
      obtain ⟨htaken, hmost⟩ := ih (budget - estimateItemTokens item)
      constructor
      · rw [List.take_succ_cons, estimateConversationTokens, List.map_cons, List.sum_cons]
        rw [estimateConversationTokens] at htaken
        omega
      · intro n hn hfits
        cases n with
        | zero => exact Nat.zero_le _
        | succ n =>
          rw [List.take_succ_cons, estimateConversationTokens, List.map_cons, List.sum_cons]
            at hfits
          rw [List.length_cons] at hn
          have hn' := hmost n (by omega) (by rw [estimateConversationTokens]; omega)
          omega

/-- The last turn of a conversation is an item with the tool results behind it. -/
theorem trailing_results (hitem : item.isToolResult = false)
    (hresults : ∀ r ∈ results, r.isToolResult = true) :
    (before ++ item :: results).reverse.takeWhile ConversationItem.isToolResult =
        results.reverse ∧
      (before ++ item :: results).reverse.dropWhile ConversationItem.isToolResult =
        item :: before.reverse := by
  have hreverse : (before ++ item :: results).reverse =
      results.reverse ++ item :: before.reverse := by
    rw [List.reverse_append, List.reverse_cons, List.append_assoc, List.singleton_append]
  have hall : ∀ r ∈ results.reverse, r.isToolResult = true := fun r hr =>
    hresults r (List.mem_reverse.mp hr)
  have hstop : ¬item.isToolResult = true := by
    rw [hitem]
    exact Bool.false_ne_true
  rw [hreverse, List.takeWhile_append_of_pos hall, List.dropWhile_append_of_pos hall,
    List.takeWhile_cons_of_neg hstop, List.dropWhile_cons_of_neg hstop, List.append_nil]
  exact ⟨rfl, rfl⟩

theorem lastUnit_append (hitem : item.isToolResult = false)
    (hresults : ∀ r ∈ results, r.isToolResult = true) :
    lastUnit (before ++ item :: results) = item :: results := by
  have hlength : (before ++ item :: results).length - (results.reverse.length + 1) =
      before.length := by
    rw [List.length_append, List.length_cons, List.length_reverse]
    omega
  rw [lastUnit, (trailing_results hitem hresults).1, hlength, List.drop_left]

/-- What is kept is the end of a conversation whose last turn fits, and nothing otherwise. -/
theorem kept_spec (hitem : item.isToolResult = false)
    (hresults : ∀ r ∈ results, r.isToolResult = true)
    (hbody : body = before ++ item :: results) :
    (estimateConversationTokens (item :: results) ≤ budget → ∃ dropped first kept,
        body = dropped ++ first :: kept ∧ first.isToolResult = false ∧
        estimateConversationTokens (first :: kept) ≤ budget ∧
        (body.drop (body.length - recentCount budget body.reverse)).dropWhile
          ConversationItem.isToolResult = first :: kept) ∧
      (¬estimateConversationTokens (item :: results) ≤ budget →
        (body.drop (body.length - recentCount budget body.reverse)).dropWhile
          ConversationItem.isToolResult = []) := by
  obtain ⟨htaken, hmost⟩ := recentCount_spec budget body.reverse
  have hdrop : body.drop (body.length - recentCount budget body.reverse) =
      (body.reverse.take (recentCount budget body.reverse)).reverse := by
    rw [List.reverse_take, List.reverse_reverse, List.length_reverse]
  have hlength : body.length = before.length + (results.length + 1) := by
    rw [hbody, List.length_append, List.length_cons]
  have hunit : estimateConversationTokens (body.reverse.take (results.length + 1)) =
      estimateConversationTokens (item :: results) := by
    have hreverse : body.reverse = (item :: results).reverse ++ before.reverse := by
      rw [hbody, List.reverse_append]
    rw [hreverse, List.take_left' (by rw [List.length_reverse, List.length_cons]),
      estimateConversationTokens_reverse]
  have hrecent : estimateConversationTokens
      (body.drop (body.length - recentCount budget body.reverse)) ≤ budget := by
    rw [hdrop, estimateConversationTokens_reverse]
    exact htaken
  have hmost := hmost (results.length + 1) (by rw [List.length_reverse, hlength]; omega)
  rw [hunit] at hmost
  have hstart : estimateConversationTokens (item :: results) ≤ budget ↔
      body.length - recentCount budget body.reverse ≤ before.length := by
    constructor
    · intro hfits
      have hle := hmost hfits
      omega
    · intro hle
      have hsuffix : item :: results <:+
          body.drop (body.length - recentCount budget body.reverse) := by
        have hdropped := @List.drop_append_of_le_length _ before (item :: results) _ hle
        rw [← hbody] at hdropped
        rw [hdropped]
        exact List.suffix_append _ _
      exact (estimate_le_of_suffix hsuffix).trans hrecent
  generalize body.length - recentCount budget body.reverse = start at *
  rw [hstart]
  constructor
  · intro hle
    have hdropped : body.drop start = before.drop start ++ item :: results := by
      rw [hbody, List.drop_append_of_le_length hle]
    cases hkept : (body.drop start).dropWhile ConversationItem.isToolResult with
    | nil =>
      rw [List.dropWhile_eq_nil_iff] at hkept
      have hmem : item ∈ body.drop start := by
        rw [hdropped]
        exact List.mem_append_right _ (List.mem_cons_self ..)
      have hresult := hkept item hmem
      rw [hitem] at hresult
      cases hresult
    | cons first kept =>
      have hfirst := List.head?_dropWhile_not ConversationItem.isToolResult (body.drop start)
      have hsuffix := List.dropWhile_suffix (l := body.drop start) ConversationItem.isToolResult
      rw [hkept] at hfirst hsuffix
      obtain ⟨dropped, hbody'⟩ := hsuffix.trans (List.drop_suffix start body)
      exact ⟨dropped, first, kept, hbody'.symm, by simpa using hfirst,
        (estimate_le_of_suffix hsuffix).trans hrecent, rfl⟩
  · intro hgt
    rw [List.dropWhile_eq_nil_iff]
    intro r hr
    obtain ⟨rest, hrest⟩ : ∃ rest, start = before.length + (rest + 1) :=
      ⟨start - before.length - 1, by omega⟩
    rw [hbody, hrest, List.drop_length_add_append, List.drop_succ_cons] at hr
    exact hresults r (List.mem_of_mem_drop hr)

theorem recover_spec (hitem : item.isToolResult = false)
    (hresults : ∀ r ∈ results, r.isToolResult = true)
    (hcaller : results ≠ [] → item.callsTools = true) :
    ∃ item' results', recoverTruncatedTailUnit (before ++ item :: results) budget =
        item' :: results' ∧ Shortened item item' ∧ List.Forall₂ Shortened results results' ∧
      (results ≠ [] → item' = item) ∧
      estimateConversationTokens (item' :: results') =
        cutUnitTokens budget (item :: results) := by
  obtain ⟨htake, hdrop⟩ := @trailing_results before results item hitem hresults
  have hlast : (item :: before.reverse).reverse.getLast? = some item := by
    rw [List.reverse_cons, List.getLast?_concat]
  unfold recoverTruncatedTailUnit
  dsimp only
  rw [htake, hdrop, hlast, List.reverse_reverse]
  cases results with
  | nil =>
    obtain ⟨hshort, htokens⟩ := truncateItemToTokens_spec item budget
    exact ⟨truncateItemToTokens item budget, [], rfl, hshort, .nil, fun h => absurd rfl h, htokens⟩
  | cons r results =>
    have howner : Option.filter ConversationItem.callsTools (some item) = some item := by
      rw [Option.filter_some, if_pos (hcaller (List.cons_ne_nil _ _))]
    rw [howner]
    refine ⟨item, (r :: results).map fun r' => truncateItemToTokens r'
      (max ((budget - estimateItemTokens item) / (r :: results).length) 1), rfl, .same item, ?_,
      fun _ => rfl, ?_⟩
    · exact List.forall₂_map_right_iff.mpr (List.forall₂_same.mpr fun r _ =>
        (truncateItemToTokens_spec r _).1)
    · rw [estimateConversationTokens, List.map_cons, List.sum_cons, List.map_map, cutUnitTokens]
      · congr 2
        exact List.map_congr_left fun r _ => (truncateItemToTokens_spec r _).2
      · exact List.cons_ne_nil _ _

/-- Some item of a list is the last one that is no tool result. -/
theorem exists_last {items : List ConversationItem}
    (h : ∃ item ∈ items, item.isToolResult = false) :
    ∃ before item results, items = before ++ item :: results ∧ item.isToolResult = false ∧
      ∀ r ∈ results, r.isToolResult = true := by
  have hsplit := @List.takeWhile_append_dropWhile _ ConversationItem.isToolResult items.reverse
  have hall := @List.all_takeWhile _ ConversationItem.isToolResult items.reverse
  have hfirst := List.head?_dropWhile_not ConversationItem.isToolResult items.reverse
  cases hdrop : items.reverse.dropWhile ConversationItem.isToolResult with
  | nil =>
    obtain ⟨item, hmem, hitem⟩ := h
    rw [List.dropWhile_eq_nil_iff] at hdrop
    have hresult := hdrop item (List.mem_reverse.mpr hmem)
    rw [hitem] at hresult
    cases hresult
  | cons item rest =>
    rw [hdrop] at hsplit hfirst
    refine ⟨rest.reverse, item, (items.reverse.takeWhile ConversationItem.isToolResult).reverse,
      ?_, by simpa using hfirst, fun r hr => List.all_eq_true.mp hall r (List.mem_reverse.mp hr)⟩
    have hreverse := congrArg List.reverse hsplit
    rw [List.reverse_reverse, List.reverse_append, List.reverse_cons, List.append_assoc,
      List.singleton_append] at hreverse
    exact hreverse.symm

/-- There is one last item that is no tool result. -/
theorem last_unique {before' results' : List ConversationItem} {item' : ConversationItem}
    (hitem : item.isToolResult = false) (hresults : ∀ r ∈ results, r.isToolResult = true)
    (hitem' : item'.isToolResult = false) (hresults' : ∀ r ∈ results', r.isToolResult = true)
    (h : before ++ item :: results = before' ++ item' :: results') : item = item' := by
  have hdrop := (@trailing_results before results item hitem hresults).2
  rw [h, (@trailing_results before' results' item' hitem' hresults').2] at hdrop
  exact (List.cons.inj hdrop).1.symm

/-- The item that calls the tool of a result is the last one in front of it that is no result. -/
theorem exists_caller {front after : List ConversationItem} {t : ToolResultItem}
    (hfollow : ResultsFollowCallers conversation)
    (h : conversation = front ++ (before ++ .toolResult t :: after))
    (hbefore : ∃ item ∈ before, item.isToolResult = false) :
    ∃ a before' results, before = before' ++ .assistant a :: results ∧
      (∀ r ∈ results, r.isToolResult = true) ∧ ∃ call ∈ a.toolCalls, call.id = t.toolCallId := by
  obtain ⟨before', item, results, rfl, hitem, hresults⟩ := exists_last hbefore
  rw [← List.append_assoc] at h
  obtain ⟨front', a, results', hsplit, hresults', hcall⟩ := hfollow _ _ _ h
  rw [← List.append_assoc] at hsplit
  obtain rfl := last_unique hitem hresults rfl hresults' hsplit
  exact ⟨a, before', results, rfl, hresults, hcall⟩

theorem splitHead_append (conversation : List ConversationItem) :
    conversation = (splitHead conversation).1 ++ (splitHead conversation).2 ∧
      ∀ item ∈ (splitHead conversation).1, ∃ s, item = .system s := by
  unfold splitHead
  split
  · rename_i s body
    exact ⟨rfl, fun item hitem => ⟨s, List.mem_singleton.mp hitem⟩⟩
  · exact ⟨rfl, fun item hitem => by cases hitem⟩

/-- A tool result behind items that are none. -/
theorem split_at_result {head rest b c : List ConversationItem} {t : ToolResultItem}
    (hhead : ∀ item ∈ head, ∃ s, item = .system s) (hitem : item.isToolResult = false)
    (h : head ++ item :: rest = b ++ .toolResult t :: c) :
    ∃ b', b = head ++ item :: b' ∧ rest = b' ++ .toolResult t :: c := by
  rcases List.append_eq_append_iff.mp h with ⟨mid, rfl, hmid⟩ | ⟨mid, rfl, hmid⟩
  · cases mid with
    | nil =>
      obtain ⟨rfl, -⟩ := List.cons.inj hmid
      cases hitem
    | cons x mid =>
      obtain ⟨rfl, hrest⟩ := List.cons.inj hmid
      exact ⟨mid, rfl, hrest⟩
  · cases mid with
    | nil =>
      obtain ⟨rfl, -⟩ := List.cons.inj hmid
      cases hitem
    | cons x mid =>
      obtain ⟨rfl, -⟩ := List.cons.inj hmid
      obtain ⟨s, hs⟩ := hhead _ (List.mem_append_right _ (List.mem_cons_self ..))
      cases hs

theorem exists_lastTurn (hfollow : ResultsFollowCallers conversation)
    (hbody : (splitHead conversation).2 ≠ []) :
    ∃ before item results, (splitHead conversation).2 = before ++ item :: results ∧
      item.isToolResult = false ∧ (∀ r ∈ results, r.isToolResult = true) ∧
      ∀ t, .toolResult t ∈ results →
        ∃ a, item = .assistant a ∧ ∃ call ∈ a.toolCalls, call.id = t.toolCallId := by
  obtain ⟨hsplit, hhead⟩ := splitHead_append conversation
  have hsome : ∃ item ∈ (splitHead conversation).2, item.isToolResult = false := by
    obtain ⟨first, rest, hfirst⟩ := List.exists_cons_of_ne_nil hbody
    rw [hfirst]
    refine ⟨first, List.mem_cons_self .., ?_⟩
    cases first with
    | toolResult t =>
      rw [hfirst] at hsplit
      obtain ⟨front, a, results, hcaller, -⟩ := hfollow _ _ _ hsplit
      obtain ⟨s, hs⟩ := hhead (.assistant a) (by
        rw [hcaller]
        exact List.mem_append_right _ (List.mem_cons_self ..))
      cases hs
    | _ => rfl
  obtain ⟨before, item, results, hlast, hitem, hresults⟩ := exists_last hsome
  refine ⟨before, item, results, hlast, hitem, hresults, fun t ht => ?_⟩
  obtain ⟨r₁, r₂, rfl⟩ := List.append_of_mem ht
  have hconversation : conversation = ((splitHead conversation).1 ++ before) ++
      ((item :: r₁) ++ .toolResult t :: r₂) := by
    rw [List.append_assoc, List.cons_append, ← hlast]
    exact hsplit
  obtain ⟨a, before', results', hitems, hresults', hcall⟩ := exists_caller hfollow hconversation
    ⟨item, List.mem_cons_self .., hitem⟩
  have hrun : ∀ r ∈ r₁, r.isToolResult = true := fun r hr =>
    hresults r (List.mem_append_left _ hr)
  have heq := @last_unique [] r₁ item before' results' (.assistant a) hitem hrun rfl hresults'
    hitems
  exact ⟨a, heq, hcall⟩

end Turns

/-- What a conversation is shrunk to: the system message that opens it and the end of the rest, in
the budget, with a caller for every tool result; at most the last turn is cut. -/
structure Fitted (conversation : List ConversationItem) (maxTokens : ℕ)
    (out : List ConversationItem) : Prop where
  tokens : estimateConversationTokens out ≤ maxTokens
  suffix : ∃ dropped kept kept', (splitHead conversation).2 = dropped ++ kept ∧
    out = (splitHead conversation).1 ++ kept' ∧
    ((splitHead conversation).2 ≠ [] → kept' ≠ []) ∧
    (kept' = kept ∨
      kept = lastUnit (splitHead conversation).2 ∧ List.Forall₂ Shortened kept kept')
  owned : ∀ before t after, out = before ++ .toolResult t :: after →
    ∃ a, .assistant a ∈ before ∧ ∃ call ∈ a.toolCalls, call.id = t.toolCallId

/-- The last turn fits into what the system message leaves, as it is or with its texts cut. -/
def LastTurnFits (conversation : List ConversationItem) (maxTokens : ℕ) : Prop :=
  let budget := maxTokens - estimateConversationTokens (splitHead conversation).1
  estimateConversationTokens (lastUnit (splitHead conversation).2) ≤ budget ∨
    cutUnitTokens budget (lastUnit (splitHead conversation).2) ≤ budget

section Fit

variable {conversation : List ConversationItem} {maxTokens : ℕ}

theorem Shortened.isToolResult {item item' : ConversationItem} (h : Shortened item item') :
    item'.isToolResult = item.isToolResult := by
  cases h <;> rfl

theorem Shortened.of_toolResult {item : ConversationItem} {t : ToolResultItem}
    (h : Shortened item (.toolResult t)) :
    ∃ t', item = .toolResult t' ∧ t'.toolCallId = t.toolCallId := by
  cases h with
  | toolResult r h => exact ⟨r, rfl, rfl⟩
  | same => exact ⟨t, rfl, rfl⟩

theorem fitted_whole (hfollow : ResultsFollowCallers conversation)
    (hfits : estimateConversationTokens conversation ≤ maxTokens) :
    Fitted conversation maxTokens conversation ∧ LastTurnFits conversation maxTokens := by
  have hsplit := (splitHead_append conversation).1
  constructor
  · refine ⟨hfits, ⟨[], (splitHead conversation).2, (splitHead conversation).2, rfl, hsplit, id,
      Or.inl rfl⟩, ?_⟩
    intro before t after hout
    obtain ⟨front, a, results, rfl, -, hcall⟩ := hfollow _ _ _ hout
    exact ⟨a, List.mem_append_right _ (List.mem_cons_self ..), hcall⟩
  · have htokens := congrArg estimateConversationTokens hsplit
    rw [estimateConversationTokens_append] at htokens
    have hlast : estimateConversationTokens (lastUnit (splitHead conversation).2) ≤
        estimateConversationTokens (splitHead conversation).2 :=
      estimate_le_of_suffix (List.drop_suffix _ _)
    refine Or.inl (hlast.trans ?_)
    omega

theorem fitted_suffix {dropped kept : List ConversationItem} {first : ConversationItem}
    (hfollow : ResultsFollowCallers conversation)
    (hmax : estimateConversationTokens (splitHead conversation).1 ≤ maxTokens)
    (hbody : (splitHead conversation).2 = dropped ++ first :: kept)
    (hfirst : first.isToolResult = false)
    (hfits : estimateConversationTokens (first :: kept) ≤
      maxTokens - estimateConversationTokens (splitHead conversation).1) :
    Fitted conversation maxTokens ((splitHead conversation).1 ++ first :: kept) := by
  obtain ⟨hsplit, hhead⟩ := splitHead_append conversation
  refine ⟨?_, ⟨dropped, first :: kept, first :: kept, hbody, rfl,
    fun _ => List.cons_ne_nil _ _, Or.inl rfl⟩, ?_⟩
  · rw [estimateConversationTokens_append]
    omega
  · intro before t after hout
    obtain ⟨before', rfl, hkept⟩ := split_at_result hhead hfirst hout
    have hconversation : conversation = ((splitHead conversation).1 ++ dropped) ++
        ((first :: before') ++ .toolResult t :: after) := by
      rw [List.append_assoc, List.cons_append, ← hkept, ← hbody]
      exact hsplit
    obtain ⟨a, before'', results, hcaller, -, hcall⟩ := exists_caller hfollow hconversation
      ⟨first, List.mem_cons_self .., hfirst⟩
    refine ⟨a, List.mem_append_right _ ?_, hcall⟩
    rw [hcaller]
    exact List.mem_append_right _ (List.mem_cons_self ..)

theorem fitted_recovered {before results : List ConversationItem} {item : ConversationItem}
    (hmax : estimateConversationTokens (splitHead conversation).1 ≤ maxTokens)
    (hbody : (splitHead conversation).2 = before ++ item :: results)
    (hitem : item.isToolResult = false) (hresults : ∀ r ∈ results, r.isToolResult = true)
    (hcaller : ∀ t, .toolResult t ∈ results →
      ∃ a, item = .assistant a ∧ ∃ call ∈ a.toolCalls, call.id = t.toolCallId) :
    Fitted conversation maxTokens ((splitHead conversation).1 ++
        recoverTruncatedTailUnit (splitHead conversation).2
          (maxTokens - estimateConversationTokens (splitHead conversation).1)) ↔
      cutUnitTokens (maxTokens - estimateConversationTokens (splitHead conversation).1)
          (item :: results) ≤
        maxTokens - estimateConversationTokens (splitHead conversation).1 := by
  obtain ⟨-, hhead⟩ := splitHead_append conversation
  have hcalls : results ≠ [] → item.callsTools = true := by
    intro hne
    obtain ⟨r, rest, rfl⟩ := List.exists_cons_of_ne_nil hne
    cases r with
    | toolResult t =>
      obtain ⟨a, rfl, call, hcall, -⟩ := hcaller t (List.mem_cons_self ..)
      obtain ⟨c, calls, hcalls⟩ := List.exists_cons_of_ne_nil (List.ne_nil_of_mem hcall)
      rw [ConversationItem.callsTools, hcalls]
      rfl
    | _ => cases hresults _ (List.mem_cons_self ..)
  obtain ⟨item', results', hrecover, hshort, hshorts, hsame, htokens⟩ :=
    @recover_spec before results item
      (maxTokens - estimateConversationTokens (splitHead conversation).1) hitem hresults hcalls
  rw [hbody, hrecover, ← htokens]
  have hsum : estimateConversationTokens ((splitHead conversation).1 ++ item' :: results') ≤
      maxTokens ↔ estimateConversationTokens (item' :: results') ≤
        maxTokens - estimateConversationTokens (splitHead conversation).1 := by
    rw [estimateConversationTokens_append]
    omega
  rw [← hsum]
  constructor
  · exact Fitted.tokens
  · intro hfits
    refine ⟨hfits, ⟨before, item :: results, item' :: results', hbody, rfl,
      fun _ => List.cons_ne_nil _ _, Or.inr ⟨?_, .cons hshort hshorts⟩⟩, ?_⟩
    · rw [hbody, lastUnit_append hitem hresults]
    · intro front t after hout
      have hitem' : item'.isToolResult = false := hshort.isToolResult.trans hitem
      obtain ⟨front', rfl, hrest⟩ := split_at_result hhead hitem' hout
      have hmem : .toolResult t ∈ results' := by
        rw [hrest]
        exact List.mem_append_right _ (List.mem_cons_self ..)
      obtain ⟨i, hi⟩ := List.getElem?_of_mem hmem
      obtain ⟨r, hr, hcut⟩ : ∃ r ∈ results, Shortened r (.toolResult t) := by
        obtain ⟨hlength, hget⟩ := List.getElem?_eq_some_iff.mp hi
        have hlt : i < results.length := by rw [hshorts.length_eq]; exact hlength
        have hcut := hshorts.get hlt hlength
        refine ⟨results[i], List.getElem_mem hlt, ?_⟩
        rw [← hget]
        exact hcut
      obtain ⟨t', rfl, hid⟩ := hcut.of_toolResult
      obtain ⟨a, rfl, call, hcall, hcallId⟩ := hcaller t' hr
      have heq := hsame (List.ne_nil_of_mem hr)
      subst heq
      exact ⟨a, List.mem_append_right _ (List.mem_cons_self ..), call, hcall, hcallId.trans hid⟩

/-- A conversation whose last turn does not fit is the last turn, cut. -/
theorem fitted_unfit {before results : List ConversationItem} {item : ConversationItem}
    (hmax : estimateConversationTokens (splitHead conversation).1 ≤ maxTokens)
    (hturn : (splitHead conversation).2 = before ++ item :: results)
    (hitem : item.isToolResult = false) (hresults : ∀ r ∈ results, r.isToolResult = true)
    (hcaller : ∀ t, .toolResult t ∈ results →
      ∃ a, item = .assistant a ∧ ∃ call ∈ a.toolCalls, call.id = t.toolCallId)
    (hfits : ¬estimateConversationTokens (item :: results) ≤
      maxTokens - estimateConversationTokens (splitHead conversation).1) :
    Fitted conversation maxTokens (fitConversationToBudget conversation maxTokens) ↔
      cutUnitTokens (maxTokens - estimateConversationTokens (splitHead conversation).1)
          (item :: results) ≤
        maxTokens - estimateConversationTokens (splitHead conversation).1 := by
  have hwhole : ¬estimateConversationTokens conversation ≤ maxTokens := by
    intro hwhole
    have htokens := congrArg estimateConversationTokens (splitHead_append conversation).1
    rw [estimateConversationTokens_append, hturn, estimateConversationTokens_append] at htokens
    omega
  have hdrops := (@kept_spec _ _ _ _
    (maxTokens - estimateConversationTokens (splitHead conversation).1) hitem hresults hturn).2
  unfold fitConversationToBudget
  rw [if_neg hwhole]
  dsimp only
  rw [hdrops hfits]
  exact fitted_recovered hmax hturn hitem hresults hcaller

end Fit

/-- A conversation is shrunk as it should be exactly when its last turn fits. -/
theorem fitConversationToBudget_iff (conversation : List ConversationItem) (maxTokens : ℕ)
    (hfollow : ResultsFollowCallers conversation)
    (hmax : estimateConversationTokens (splitHead conversation).1 + 64 ≤ maxTokens) :
    Fitted conversation maxTokens (fitConversationToBudget conversation maxTokens) ↔
      LastTurnFits conversation maxTokens := by
  have hmax' : estimateConversationTokens (splitHead conversation).1 ≤ maxTokens := by omega
  by_cases hwhole : estimateConversationTokens conversation ≤ maxTokens
  · obtain ⟨hfitted, hlast⟩ := fitted_whole hfollow hwhole
    rw [fitConversationToBudget, if_pos hwhole]
    exact iff_of_true hfitted hlast
  · have hbody : (splitHead conversation).2 ≠ [] := by
      intro hnil
      have hsplit := (splitHead_append conversation).1
      rw [hnil, List.append_nil] at hsplit
      rw [← hsplit] at hmax'
      exact hwhole hmax'
    obtain ⟨before, item, results, hturn, hitem, hresults, hcaller⟩ :=
      exists_lastTurn hfollow hbody
    have hunit : lastUnit (splitHead conversation).2 = item :: results := by
      rw [hturn, lastUnit_append hitem hresults]
    rw [LastTurnFits, hunit]
    by_cases hfits : estimateConversationTokens (item :: results) ≤
        maxTokens - estimateConversationTokens (splitHead conversation).1
    · obtain ⟨dropped, first, kept, hsuffix, hfirst, htokens, hkept⟩ := (@kept_spec _ _ _ _
        (maxTokens - estimateConversationTokens (splitHead conversation).1) hitem hresults
        hturn).1 hfits
      rw [fitConversationToBudget, if_neg hwhole]
      dsimp only
      rw [hkept]
      exact iff_of_true (fitted_suffix hfollow hmax' hsuffix hfirst htokens) (Or.inl hfits)
    · have hunfit := fitted_unfit hmax' hturn hitem hresults hcaller hfits
      exact hunfit.trans (or_iff_right hfits).symm

section Runs

/-- A turn of a caller and results of its calls, behind system messages. -/
theorem resultsFollowCallers_turn {head : List ConversationItem} {a : AssistantItem}
    {results : List ToolResultItem} (hhead : ∀ item ∈ head, ∃ s, item = .system s)
    (h : ∀ r ∈ results, ∃ call ∈ a.toolCalls, call.id = r.toolCallId) :
    ResultsFollowCallers (head ++ .assistant a :: results.map .toolResult) := by
  intro before r after hsplit
  obtain ⟨between, rfl, hrest⟩ := split_at_result hhead rfl hsplit
  have hmem : ConversationItem.toolResult r ∈ results.map .toolResult := by
    rw [hrest]
    exact List.mem_append_right _ (List.mem_cons_self ..)
  refine ⟨head, a, between, rfl, fun item hitem => ?_, ?_⟩
  · have hitem' : item ∈ results.map ConversationItem.toolResult := by
      rw [hrest]
      exact List.mem_append_left _ hitem
    obtain ⟨t, -, rfl⟩ := List.mem_map.mp hitem'
    rfl
  · obtain ⟨t, ht, hr⟩ := List.mem_map.mp hmem
    cases hr
    exact h r ht

/-- An item that calls a tool several times. -/
def caller (ids : List String) : AssistantItem :=
  ⟨"", ids.map fun id => ⟨id, "read_file", ""⟩, none, none⟩

/-- A short conversation. -/
theorem fits_short :
    Fitted ([systemItem "sys"] ++ .assistant (caller ["a"]) ::
        [toolResultItem "a" "text"].map .toolResult) 100
        (fitConversationToBudget ([systemItem "sys"] ++ .assistant (caller ["a"]) ::
          [toolResultItem "a" "text"].map .toolResult) 100) ↔
      LastTurnFits ([systemItem "sys"] ++ .assistant (caller ["a"]) ::
        [toolResultItem "a" "text"].map .toolResult) 100 :=
  fitConversationToBudget_iff ([systemItem "sys"] ++ .assistant (caller ["a"]) ::
    [toolResultItem "a" "text"].map .toolResult) 100
    (resultsFollowCallers_turn (fun item hitem => ⟨_, List.mem_singleton.mp hitem⟩) (by decide))
    (by decide +kernel)

/-- A tool result of a hundred bytes. -/
def longResult (id : String) : ToolResultItem :=
  toolResultItem id (String.ofList (List.replicate 100 'a'))

theorem longResult_tokens (id : String) :
    estimateItemTokens (.toolResult (longResult id)) = 25 ∧
      cutItemTokens 12 (.toolResult (longResult id)) = 14 := by
  have hlen : len (longResult id).content = 100 := by
    have hbytes : byteLen (List.replicate 100 'a') = 100 := by decide +kernel
    rw [longResult, toolResultItem, len_ofList, hbytes]
  have hkept : len (truncateBytes (longResult id).content 0) = 0 := by
    obtain ⟨v, -, hbytes⟩ := go_prefix (longResult id).content.toList 0
    rw [truncateBytes, len_ofList]
    exact Nat.le_zero.mp hbytes
  have hdigits : (digits 100).length = 3 := by decide +kernel
  constructor
  · rw [estimateItemTokens, estimateTokens, hlen]
    rfl
  · rw [cutItemTokens, cutBytes, hlen, if_neg (by decide)]
    dsimp only [markerReserve]
    rw [hkept, hdigits]
    rfl

/-- The calls of five results. -/
def fiveCalls : AssistantItem := caller ["a", "b", "c", "d", "e"]

/-- The results of five calls. -/
def fiveResults : List ToolResultItem := ["a", "b", "c", "d", "e"].map longResult

theorem fiveResults_called :
    ∀ r ∈ fiveResults, ∃ call ∈ fiveCalls.toolCalls, call.id = r.toolCallId := by
  intro r hr
  obtain ⟨id, hid, rfl⟩ := List.mem_map.mp hr
  exact ⟨⟨id, "read_file", ""⟩, List.mem_map_of_mem hid, rfl⟩

theorem fiveResults_tokens :
    estimateConversationTokens (.assistant fiveCalls :: fiveResults.map .toolResult) = 125 ∧
      cutUnitTokens 64 (.assistant fiveCalls :: fiveResults.map .toolResult) = 70 := by
  have howner : estimateItemTokens (.assistant fiveCalls) = 0 := rfl
  constructor
  · simp only [estimateConversationTokens, fiveResults, List.map_cons, List.map_nil,
      List.sum_cons, List.sum_nil, howner, (longResult_tokens _).1]
    rfl
  · have hper : max ((64 - 0) / 5) 1 = 12 := by decide
    have hcosts : (fiveResults.map ConversationItem.toolResult).map (cutItemTokens 12) =
        [14, 14, 14, 14, 14] := by
      simp only [fiveResults, List.map_cons, List.map_nil, (longResult_tokens _).2]
    have hunit : cutUnitTokens 64 (.assistant fiveCalls :: fiveResults.map .toolResult) =
        estimateItemTokens (.assistant fiveCalls) +
          ((fiveResults.map ConversationItem.toolResult).map (cutItemTokens
            (max ((64 - estimateItemTokens (.assistant fiveCalls)) / 5) 1))).sum := rfl
    rw [hunit, howner, hper, hcosts]
    rfl

/-- Five results share sixty-four tokens, twelve for each, which is less than the marker takes that
stands behind every one of them. -/
theorem not_fitted :
    ¬∀ (conversation : List ConversationItem) (maxTokens : ℕ), ResultsFollowCallers conversation →
      estimateConversationTokens (splitHead conversation).1 + 64 ≤ maxTokens →
        Fitted conversation maxTokens (fitConversationToBudget conversation maxTokens) := by
  intro h
  obtain ⟨htokens, hcut⟩ := fiveResults_tokens
  have hhead : ∀ item ∈ ([] : List ConversationItem), ∃ s, item = .system s :=
    fun _ hitem => absurd hitem List.not_mem_nil
  have hfitted := h ([] ++ .assistant fiveCalls :: fiveResults.map .toolResult) 64
    (resultsFollowCallers_turn hhead fiveResults_called) le_rfl
  have hresults : ∀ r ∈ fiveResults.map ConversationItem.toolResult, r.isToolResult = true := by
    intro r hr
    obtain ⟨t, -, rfl⟩ := List.mem_map.mp hr
    rfl
  have hcaller : ∀ t, .toolResult t ∈ fiveResults.map ConversationItem.toolResult →
      ∃ a, ConversationItem.assistant fiveCalls = .assistant a ∧
        ∃ call ∈ a.toolCalls, call.id = t.toolCallId := by
    intro t ht
    obtain ⟨r, hr, hrt⟩ := List.mem_map.mp ht
    cases hrt
    exact ⟨fiveCalls, rfl, fiveResults_called t hr⟩
  have hfits : ¬estimateConversationTokens (.assistant fiveCalls :: fiveResults.map .toolResult) ≤
      64 := by
    rw [htokens]
    decide
  have hmax : estimateConversationTokens (splitHead ([] ++ .assistant fiveCalls ::
      fiveResults.map ConversationItem.toolResult)).1 ≤ 64 := Nat.zero_le 64
  have hle := (@fitted_unfit _ 64 [] _ _ hmax rfl rfl hresults hcaller hfits).mp hfitted
  change cutUnitTokens 64 _ ≤ 64 at hle
  rw [hcut] at hle
  exact absurd hle (by decide)

end Runs

end Ezer.ChatState
