import Ezer.Lib.Loop
import Ezer.Lib.Replace

/-!
# What the user asked

The text of a user message with the blocks of metadata taken out that the
runtime puts around the request, the request taken out of its wrapper, and the
wrapper put around it again when a compaction carries the request on.
-/

namespace Ezer.ChatState

open Lib

/-- The tags of blocks that the runtime adds to a user message. -/
def systemTags : List Text :=
  ["user_info".toList, "project_layout".toList, "git_status".toList, "fork-context".toList,
    "system-reminder".toList, "agent-memory".toList, "system_reminder".toList,
    "background_context".toList, "command-name".toList, "command-message".toList,
    "command-args".toList, "rules".toList]

/-- What opens the block of a tag. -/
def openTag (tag : Text) : Text := '<' :: tag ++ ['>']

/-- What closes the block of a tag. -/
def closeTag (tag : Text) : Text := '<' :: '/' :: tag ++ ['>']

/-- The byte range of the first block of a tag, tags included. -/
def tagBlockRange (text tag : Text) : Option (ℕ × ℕ) := do
  let start ← find (openTag tag) text
  let rest ← getBytesFrom text start
  let relEnd ← find (closeTag tag) rest
  some (start, start + relEnd + byteLen (closeTag tag))

/-- One round of taking out the blocks of a tag. -/
def stripTag (tag result : Text) : ForInStep Text :=
  match tagBlockRange result tag with
  | some (first, last) =>
    .yield ((getBytes result 0 first).getD [] ++ (getBytesFrom result last).getD [])
  | none => .done result

/-- A text without the blocks of a tag. -/
def withoutTag (result tag : Text) : Text :=
  (whileLoop (stripTag tag) (result.length + 1) result).getD result

/-- A text without the blocks of the runtime. -/
def withoutSystemTags (text : Text) : Text := systemTags.foldl withoutTag text

/-- A text without the blocks of the runtime, trimmed. -/
def stripSystemTags (text : Text) : Text := trim (withoutSystemTags text)

/-- What opens a user's request. -/
def queryOpen : Text := "<user_query>".toList

/-- What closes a user's request. -/
def queryClose : Text := "</user_query>".toList

/-- The request in a message that may have metadata around it. -/
def extractUserQuery (text : Text) : Text :=
  let stripped := stripSystemTags text
  match find queryOpen stripped with
  | some start =>
    let contentStart := start + byteLen queryOpen
    match (getBytesFrom stripped contentStart).bind (find queryClose) with
    | some stop => trim ((getBytes stripped contentStart (contentStart + stop)).getD [])
    | none => stripped
  | none => stripped

/-- A request in its wrapper. -/
def wrapUserQuery (text : Text) : Text := queryOpen ++ '\n' :: (text ++ '\n' :: queryClose)

section Blocks

/-- What is before the first block of a tag, and what is behind it. -/
def blockCut (tag t : Text) : Option (Text × Text) :=
  match splitOnce (openTag tag) t with
  | none => none
  | some (before, rest) =>
    (splitOnce (closeTag tag) (openTag tag ++ rest)).map fun (_, behind) => (before, behind)

/-- A block is what stands between the two parts of a text, and it is not empty. -/
theorem blockCut_eq_some {tag t before behind : Text} (h : blockCut tag t = some (before, behind)) :
    ∃ block, t = before ++ (block ++ closeTag tag) ++ behind ∧
      tagBlockRange t tag =
        some (byteLen before, byteLen (before ++ (block ++ closeTag tag))) := by
  unfold blockCut at h
  cases hopen : splitOnce (openTag tag) t with
  | none =>
    rw [hopen] at h
    cases h
  | some found =>
    obtain ⟨before', rest⟩ := found
    rw [hopen] at h
    obtain ⟨⟨block, behind'⟩, hclose, heq⟩ := Option.map_eq_some_iff.mp h
    cases heq
    have ht := eq_of_splitOnce hopen
    have hblock := eq_of_splitOnce hclose
    refine ⟨block, ?_, ?_⟩
    · rw [ht, List.append_assoc, hblock]
      simp only [List.append_assoc]
    · have hrest : getBytesFrom t (byteLen before) = some (openTag tag ++ rest) := by
        rw [ht, List.append_assoc]
        exact getBytesFrom_append _ _
      simp only [tagBlockRange, find, hopen, hclose, Option.map_some, Option.bind_eq_bind,
        Option.bind_some, hrest, byteLen_append, Nat.add_assoc]

theorem tagBlockRange_of_blockCut {tag t : Text} (h : blockCut tag t = none) :
    tagBlockRange t tag = none := by
  unfold blockCut at h
  cases hopen : splitOnce (openTag tag) t with
  | none => simp only [tagBlockRange, find, hopen, Option.map_none, Option.bind_eq_bind, Option.bind_none]
  | some found =>
    obtain ⟨before, rest⟩ := found
    rw [hopen] at h
    have hclose := Option.map_eq_none_iff.mp h
    have hrest : getBytesFrom t (byteLen before) = some (openTag tag ++ rest) := by
      rw [eq_of_splitOnce hopen, List.append_assoc]
      exact getBytesFrom_append _ _
    simp only [tagBlockRange, find, hopen, Option.map_some, Option.bind_eq_bind, Option.bind_some,
      hrest, hclose, Option.map_none, Option.bind_none]

theorem tagBlockRange_eq_none_iff {tag t : Text} :
    tagBlockRange t tag = none ↔ blockCut tag t = none := by
  refine ⟨fun h => ?_, tagBlockRange_of_blockCut⟩
  rw [Option.eq_none_iff_forall_ne_some]
  rintro ⟨before, behind⟩ hcut
  obtain ⟨block, -, hrange⟩ := blockCut_eq_some hcut
  rw [h] at hrange
  cases hrange

/-- A round takes out the first block. -/
theorem stripTag_eq (tag t : Text) :
    stripTag tag t =
      match blockCut tag t with
      | some (before, behind) => .yield (before ++ behind)
      | none => .done t := by
  cases hcut : blockCut tag t with
  | none => rw [stripTag, tagBlockRange_of_blockCut hcut]
  | some cut =>
    obtain ⟨before, behind⟩ := cut
    obtain ⟨block, ht, hrange⟩ := blockCut_eq_some hcut
    have hbefore : getBytes t 0 (byteLen before) = some before := by
      have h := getBytes_append [] before (block ++ closeTag tag ++ behind)
      rw [ht, List.append_assoc]
      simpa only [List.nil_append, byteLen_nil, Nat.zero_add] using h
    have hbehind : getBytesFrom t (byteLen (before ++ (block ++ closeTag tag))) = some behind := by
      rw [ht]
      exact getBytesFrom_append _ _
    simp only [stripTag, hrange, hbefore, hbehind, Option.getD_some]

theorem count_blockCut {tag t before behind : Text} (h : blockCut tag t = some (before, behind)) :
    (before ++ behind).count '<' < t.count '<' := by
  obtain ⟨block, ht, -⟩ := blockCut_eq_some h
  have hclose : 0 < (closeTag tag).count '<' :=
    List.count_pos_iff.mpr (List.mem_cons_self ..)
  rw [ht]
  simp only [List.count_append]
  omega

theorem stripTag_shorter (tag t next : Text) (h : stripTag tag t = .yield next) :
    next.length < t.length := by
  rw [stripTag_eq] at h
  split at h
  · rename_i before behind hcut
    cases h
    obtain ⟨block, ht, -⟩ := blockCut_eq_some hcut
    have hclose : 0 < (closeTag tag).length := Nat.succ_pos _
    rw [ht]
    simp only [List.length_append]
    omega
  · cases h

/-- The rounds suffice. -/
theorem whileLoop_stripTag {tag t : Text} {rounds : ℕ} (h : t.length < rounds) :
    whileLoop (stripTag tag) rounds t = some (withoutTag t tag) := by
  obtain ⟨last, hlast⟩ := exists_whileLoop List.length (stripTag_shorter tag) t
  rw [withoutTag, hlast _ (Nat.lt_succ_self _), hlast rounds h]
  rfl

theorem withoutTag_of_none {tag t : Text} (h : blockCut tag t = none) : withoutTag t tag = t := by
  have hdone : stripTag tag t = .done t := by
    rw [stripTag_eq, h]
  rw [withoutTag, whileLoop_of_done hdone]
  rfl

/-- Taking out blocks leaves fewer opening angles, or takes out nothing. -/
theorem count_withoutTag (tag t : Text) :
    (withoutTag t tag).count '<' < t.count '<' ∨ blockCut tag t = none := by
  cases hcut : blockCut tag t with
  | none => exact .inr rfl
  | some cut =>
    obtain ⟨before, behind⟩ := cut
    have hyield : stripTag tag t = .yield (before ++ behind) := by
      rw [stripTag_eq, hcut]
    have hloop := @whileLoop_stripTag tag t _ (Nat.lt_succ_self t.length)
    rw [whileLoop_of_yield hyield] at hloop
    obtain ⟨last, hinv, hdone⟩ := whileLoop_invariant
      (fun result => result.count '<' ≤ (before ++ behind).count '<') (fun result next hinv hnext => by
        rw [stripTag_eq] at hnext
        split at hnext
        · rename_i before' behind' hcut'
          cases hnext
          exact (count_blockCut hcut').le.trans hinv
        · cases hnext) hloop le_rfl
    rw [stripTag_eq] at hdone
    split at hdone
    · cases hdone
    · cases hdone
      exact .inl (hinv.trans_lt (count_blockCut hcut))

theorem count_foldl_withoutTag (tags : List Text) (t : Text) :
    (tags.foldl withoutTag t).count '<' < t.count '<' ∨
      (∀ tag ∈ tags, blockCut tag t = none) ∧ tags.foldl withoutTag t = t := by
  induction tags generalizing t with
  | nil => exact .inr ⟨nofun, rfl⟩
  | cons tag tags ih =>
    rw [List.foldl_cons]
    rcases count_withoutTag tag t with hlt | hnone
    · left
      rcases ih (withoutTag t tag) with hlt' | ⟨-, heq⟩
      · exact hlt'.trans hlt
      · rwa [heq]
    · rw [withoutTag_of_none hnone]
      refine (ih t).imp_right fun ⟨hall, heq⟩ => ⟨?_, heq⟩
      exact List.forall_mem_cons.mpr ⟨hnone, hall⟩

end Blocks

section Wrapped

theorem systemTags_apart : ∀ tag ∈ systemTags, '\n' ∉ openTag tag ∧ '\n' ∉ closeTag tag ∧
    splitOnce (openTag tag) queryOpen = none ∧ splitOnce (openTag tag) queryClose = none ∧
      splitOnce (closeTag tag) queryClose = none := by
  decide

/-- The blocks of a wrapped text are those of the text. -/
theorem blockCut_wrapUserQuery {tag : Text} (htag : tag ∈ systemTags) (t : Text) :
    blockCut tag (wrapUserQuery t) =
      (blockCut tag t).map fun (before, behind) =>
        (queryOpen ++ '\n' :: before, behind ++ '\n' :: queryClose) := by
  obtain ⟨hopen, hclose, hfront, hend, hend'⟩ := systemTags_apart tag htag
  have hopen' : openTag tag ≠ [] := List.cons_ne_nil _ _
  have hclose' : closeTag tag ≠ [] := List.cons_ne_nil _ _
  rw [blockCut, blockCut, wrapUserQuery, splitOnce_append_cons hopen' hopen, hfront,
    splitOnce_append_cons hopen' hopen, hend]
  cases splitOnce (openTag tag) t with
  | none => rfl
  | some found =>
    obtain ⟨before, rest⟩ := found
    dsimp only [Option.map_some]
    rw [← List.append_assoc, splitOnce_append_cons hclose' hclose, hend']
    cases splitOnce (closeTag tag) (openTag tag ++ rest) with
    | none => rfl
    | some cut => rfl

theorem length_wrapUserQuery (t : Text) : t.length ≤ (wrapUserQuery t).length := by
  rw [wrapUserQuery, List.length_append, List.length_cons, List.length_append]
  omega

theorem withoutTag_wrapUserQuery {tag : Text} (htag : tag ∈ systemTags) (t : Text) :
    withoutTag (wrapUserQuery t) tag = wrapUserQuery (withoutTag t tag) := by
  have hlen := length_wrapUserQuery t
  have hloop : whileLoop (stripTag tag) ((wrapUserQuery t).length + 1) (wrapUserQuery t) =
      (whileLoop (stripTag tag) ((wrapUserQuery t).length + 1) t).map wrapUserQuery := by
    refine whileLoop_map wrapUserQuery (fun a last h => ?_) (fun a next h => ?_) _ t
    · rw [stripTag_eq] at h ⊢
      rw [blockCut_wrapUserQuery htag]
      split at h
      · cases h
      · rename_i hcut
        cases h
        rw [hcut]
        rfl
    · rw [stripTag_eq] at h ⊢
      rw [blockCut_wrapUserQuery htag]
      split at h
      · rename_i before behind hcut
        cases h
        rw [hcut]
        dsimp only [Option.map_some, wrapUserQuery]
        simp only [List.append_assoc, List.cons_append]
      · cases h
  rw [whileLoop_stripTag (Nat.lt_succ_self _), whileLoop_stripTag (by omega)] at hloop
  exact Option.some.inj hloop

theorem withoutSystemTags_wrapUserQuery (t : Text) :
    withoutSystemTags (wrapUserQuery t) = wrapUserQuery (withoutSystemTags t) := by
  have hall : ∀ tags : List Text, (∀ tag ∈ tags, tag ∈ systemTags) → ∀ t,
      tags.foldl withoutTag (wrapUserQuery t) = wrapUserQuery (tags.foldl withoutTag t) := by
    intro tags
    induction tags with
    | nil => exact fun _ _ => rfl
    | cons tag tags ih =>
      intro htags t
      obtain ⟨htag, htags⟩ := List.forall_mem_cons.mp htags
      rw [List.foldl_cons, List.foldl_cons, withoutTag_wrapUserQuery htag, ih htags]
  exact hall systemTags (fun _ => id) t

theorem trim_wrapUserQuery (t : Text) : trim (wrapUserQuery t) = wrapUserQuery t := by
  have hhead : ∀ c ∈ (wrapUserQuery t).head?, isWhitespace c = false := by
    intro c hc
    obtain rfl : '<' = c := Option.some.inj hc
    decide
  have hlast : ∀ c ∈ (wrapUserQuery t).getLast?, isWhitespace c = false := by
    intro c hc
    have hclose : queryClose.getLast? = some '>' := by decide
    have hwrap : wrapUserQuery t = queryOpen ++ '\n' :: (t ++ ['\n']) ++ queryClose := by
      simp only [wrapUserQuery, List.append_assoc, List.cons_append, List.nil_append]
    rw [hwrap, List.getLast?_append, hclose] at hc
    obtain rfl : '>' = c := Option.some.inj hc
    decide
  have hkept := infix_trim hhead hlast List.infix_rfl
  exact (trim_isInfix _).eq_of_length_le hkept.length_le

/-- The wrapped text is opened where it starts. -/
theorem find_queryOpen (t : Text) : find queryOpen (wrapUserQuery t) = some 0 := by
  have hsplit := splitOnce_of_firstBehind (.nil queryOpen) ('\n' :: (t ++ '\n' :: queryClose))
  rw [List.nil_append] at hsplit
  rw [find, wrapUserQuery, hsplit, Option.map_some, byteLen_nil]

/-- The wrapped text is closed at the first closing tag, which the text itself may have. -/
theorem splitOnce_queryClose (t : Text) :
    splitOnce queryClose ('\n' :: (t ++ '\n' :: queryClose)) =
      match splitOnce queryClose t with
      | some (before, after) => some ('\n' :: before, after ++ '\n' :: queryClose)
      | none => some ('\n' :: (t ++ ['\n']), []) := by
  have hclose : queryClose ≠ [] := by decide
  have hnewline : '\n' ∉ queryClose := by decide
  have hnil : splitOnce queryClose [] = none := rfl
  have hself : splitOnce queryClose queryClose = some ([], []) := by decide
  have houter := splitOnce_append_cons hclose hnewline [] (t ++ '\n' :: queryClose)
  rw [hnil, List.nil_append, splitOnce_append_cons hclose hnewline, hself] at houter
  rw [houter]
  cases splitOnce queryClose t with
  | some found => rfl
  | none => rfl

/-- What is taken out of the wrapper is what is before the first closing tag in it. -/
theorem extractUserQuery_wrapped (t : Text) :
    extractUserQuery (wrapUserQuery t) =
      match splitOnce queryClose (withoutSystemTags t) with
      | some (before, _) => trim before
      | none => trim (withoutSystemTags t) := by
  have hstrip : stripSystemTags (wrapUserQuery t) = wrapUserQuery (withoutSystemTags t) := by
    rw [stripSystemTags, withoutSystemTags_wrapUserQuery, trim_wrapUserQuery]
  have hnewline : ∀ c ∈ ['\n'], isWhitespace c = true := List.forall_mem_singleton.mpr rfl
  unfold extractUserQuery
  rw [hstrip]
  generalize withoutSystemTags t = r
  have hrest : getBytesFrom (wrapUserQuery r) (byteLen queryOpen) =
      some ('\n' :: (r ++ '\n' :: queryClose)) := by
    rw [wrapUserQuery]
    exact getBytesFrom_append queryOpen ('\n' :: (r ++ '\n' :: queryClose))
  -- The part of the wrapped text up to a closing tag.
  have hcontent (u v : Text) (h : wrapUserQuery r = queryOpen ++ u ++ v) :
      getBytes (wrapUserQuery r) (byteLen queryOpen) (byteLen queryOpen + byteLen u) = some u := by
    rw [h]
    exact getBytes_append queryOpen u v
  cases hsplit : splitOnce queryClose r with
  | some found =>
    obtain ⟨before, after⟩ := found
    have hbefore := hcontent ('\n' :: before) (queryClose ++ (after ++ '\n' :: queryClose)) (by
      rw [wrapUserQuery, eq_of_splitOnce hsplit]
      simp only [List.append_assoc, List.cons_append])
    have htrim : trim ('\n' :: before) = trim before := by
      have hnil : ∀ c ∈ ([] : Text), isWhitespace c = true := nofun
      have h := trim_blank hnewline hnil before
      rwa [List.append_nil] at h
    have hfind : find queryClose ('\n' :: (r ++ '\n' :: queryClose)) =
        some (byteLen ('\n' :: before)) := by
      rw [find, splitOnce_queryClose, hsplit, Option.map_some]
    simp only [find_queryOpen, Nat.zero_add, hrest, Option.bind_some, hfind, hbefore,
      Option.getD_some, htrim]
  | none =>
    have hwhole := hcontent ('\n' :: (r ++ ['\n'])) queryClose (by
      rw [wrapUserQuery]
      simp only [List.append_assoc, List.cons_append, List.nil_append])
    have htrim : trim ('\n' :: (r ++ ['\n'])) = trim r := trim_blank hnewline hnewline r
    have hfind : find queryClose ('\n' :: (r ++ '\n' :: queryClose)) =
        some (byteLen ('\n' :: (r ++ ['\n']))) := by
      rw [find, splitOnce_queryClose, hsplit, Option.map_some]
    simp only [find_queryOpen, Nat.zero_add, hrest, Option.bind_some, hfind, hwhole,
      Option.getD_some, htrim]

theorem count_trim {c : Char} (h : isWhitespace c = false) (t : Text) :
    (trim t).count c = t.count c := by
  have hno {blank : Text} (hblank : ∀ d ∈ blank, isWhitespace d = true) : blank.count c = 0 := by
    rw [List.count_eq_zero]
    intro hmem
    rw [hblank c hmem] at h
    cases h
  obtain ⟨blank, hblank, ht, -⟩ := exists_trim t
  obtain ⟨blank', hblank', ht', -⟩ := exists_trimEnd t
  have hwhole : t = blank ++ trim t ++ blank' := by
    rw [← ht]
    exact ht'
  have hsum := congrArg (List.count c) hwhole
  rw [List.count_append, List.count_append, hno hblank, hno hblank'] at hsum
  omega

/-- The request comes back as it was exactly where there was nothing to take out of it. -/
theorem extractUserQuery_eq_trim_iff (t : Text) :
    extractUserQuery (wrapUserQuery t) = trim t ↔
      (∀ tag ∈ systemTags, tagBlockRange t tag = none) ∧ ¬ queryClose <:+: t := by
  have hangle : isWhitespace '<' = false := by decide
  have hblocks := count_foldl_withoutTag systemTags t
  rw [extractUserQuery_wrapped]
  constructor
  · intro h
    have hcount := congrArg (List.count '<') h
    rw [count_trim hangle] at hcount
    cases hsplit : splitOnce queryClose (withoutSystemTags t) with
    | some found =>
      obtain ⟨before, after⟩ := found
      have hclose : 0 < queryClose.count '<' := by decide
      have hle : (withoutSystemTags t).count '<' ≤ t.count '<' :=
        hblocks.elim Nat.le_of_lt fun h => (congrArg (List.count '<') h.2).le
      have hsum := congrArg (List.count '<') (eq_of_splitOnce hsplit)
      rw [hsplit] at hcount
      dsimp only at hcount
      rw [count_trim hangle] at hcount
      simp only [List.count_append] at hsum
      omega
    | none =>
      rw [hsplit] at hcount
      dsimp only at hcount
      rw [count_trim hangle] at hcount
      rcases hblocks with hlt | ⟨hnone, hsame⟩
      · exact absurd hcount hlt.ne
      · refine ⟨fun tag htag => tagBlockRange_of_blockCut (hnone tag htag), ?_⟩
        rw [withoutSystemTags, hsame] at hsplit
        exact splitOnce_eq_none_iff.mp hsplit
  · rintro ⟨hnone, hclose⟩
    have hsame : withoutSystemTags t = t := by
      unfold withoutSystemTags
      generalize systemTags = tags at hnone
      induction tags with
      | nil => rfl
      | cons tag tags ih =>
        obtain ⟨htag, htags⟩ := List.forall_mem_cons.mp hnone
        rw [List.foldl_cons, withoutTag_of_none (tagBlockRange_eq_none_iff.mp htag)]
        exact ih htags
    rw [hsame, splitOnce_eq_none_iff.mpr hclose]

/-- A carried request is what the user typed without the metadata blocks in it. -/
theorem extractUserQuery_wrapUserQuery (t : Text) :
    (¬ queryClose <:+: withoutSystemTags t →
        extractUserQuery (wrapUserQuery t) = trim (withoutSystemTags t)) ∧
      (extractUserQuery (wrapUserQuery t) = trim t ↔
        (∀ tag ∈ systemTags, tagBlockRange t tag = none) ∧ ¬ queryClose <:+: t) := by
  refine ⟨fun h => ?_, extractUserQuery_eq_trim_iff t⟩
  rw [extractUserQuery_wrapped, splitOnce_eq_none_iff.mpr h]

/-- A request that quotes rules loses them. -/
theorem not_extractUserQuery_eq_trim :
    ¬ ∀ t, extractUserQuery (wrapUserQuery t) = trim t := by
  intro h
  have hrules := ((extractUserQuery_eq_trim_iff "<rules>x</rules> hi".toList).mp (h _)).1
    "rules".toList (by decide)
  exact absurd hrules (by decide)

/-- A request without tags. -/
theorem plain_extractUserQuery :
    extractUserQuery (wrapUserQuery "hi".toList) = trim (withoutSystemTags "hi".toList) :=
  (extractUserQuery_wrapUserQuery "hi".toList).1 (by decide)

end Wrapped

end Ezer.ChatState
