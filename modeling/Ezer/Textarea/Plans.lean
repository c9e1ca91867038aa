import Ezer.Textarea.AtomicRanges

/-!
# Plans are sound

Every plan that is made from a text whose cursor is at a boundary passes its check, and
takes each atomic range whole or not at all.
-/

namespace Ezer.Textarea

open Lib

section Words

variable {unicode : Unicode} {t : Text} {style : WordStyle} {atomics : List ByteRange}

theorem stop_leftWhile (h : AtomicIn unicode.toGraphemes t atomics) (p : Option WordClass → Bool)
    (fuel : ℕ) {n : ℕ} (hn : Stop unicode.toGraphemes t atomics n) :
    Stop unicode.toGraphemes t atomics (leftWhile unicode t style atomics p fuel n) := by
  induction fuel generalizing n with
  | zero => exact hn
  | succ fuel ih =>
    rw [leftWhile]
    dsimp only
    split
    · exact hn
    · split
      · exact ih (stop_previousAtomicBoundary h n)
      · exact hn

theorem leftWhile_le (p : Option WordClass → Bool) (fuel n : ℕ) :
    leftWhile unicode t style atomics p fuel n ≤ n := by
  induction fuel generalizing n with
  | zero => exact le_rfl
  | succ fuel ih =>
    rw [leftWhile]
    dsimp only
    split
    · exact le_rfl
    · split
      · exact (ih _).trans (previousAtomicBoundary_le n)
      · exact le_rfl

theorem stop_rightWhile (h : AtomicIn unicode.toGraphemes t atomics) (p : Option WordClass → Bool)
    (fuel : ℕ) {n : ℕ} (hn : Stop unicode.toGraphemes t atomics n) :
    Stop unicode.toGraphemes t atomics (rightWhile unicode t style atomics p fuel n) := by
  induction fuel generalizing n with
  | zero => exact hn
  | succ fuel ih =>
    rw [rightWhile]
    dsimp only
    split
    · exact hn
    · split
      · exact ih (stop_nextAtomicBoundary h n)
      · exact hn

theorem le_rightWhile (h : AtomicIn unicode.toGraphemes t atomics) (p : Option WordClass → Bool)
    (fuel : ℕ) {n : ℕ} (hn : Stop unicode.toGraphemes t atomics n) :
    n ≤ rightWhile unicode t style atomics p fuel n := by
  induction fuel generalizing n with
  | zero => exact le_rfl
  | succ fuel ih =>
    have hle := unicode.le_of_isBoundary hn.isBoundary
    rw [rightWhile]
    dsimp only
    split
    · exact le_rfl
    · split
      · exact (le_nextAtomicBoundary hle).trans (ih (stop_nextAtomicBoundary h n))
      · exact le_rfl

theorem stop_previousWordBoundary (h : AtomicIn unicode.toGraphemes t atomics) {n : ℕ}
    (hn : Stop unicode.toGraphemes t atomics n) :
    Stop unicode.toGraphemes t atomics (previousWordBoundary unicode t style atomics n) := by
  have hfirst : Stop unicode.toGraphemes t atomics
      (leftWhile unicode t style atomics (· == some .whitespace) n n) :=
    stop_leftWhile h _ n hn
  rw [previousWordBoundary]
  dsimp only
  split
  · rename_i hzero
    rw [hzero] at hfirst
    exact hfirst
  · exact stop_leftWhile h _ _ hfirst

theorem previousWordBoundary_le (n : ℕ) :
    previousWordBoundary unicode t style atomics n ≤ n := by
  rw [previousWordBoundary]
  dsimp only
  split
  · exact Nat.zero_le n
  · exact (leftWhile_le _ _ _).trans (leftWhile_le _ _ _)

theorem stop_nextWordBoundary (h : AtomicIn unicode.toGraphemes t atomics) {n : ℕ}
    (hn : Stop unicode.toGraphemes t atomics n) :
    Stop unicode.toGraphemes t atomics (nextWordBoundary unicode t style atomics n) ∧
      n ≤ nextWordBoundary unicode t style atomics n := by
  have hfirst : Stop unicode.toGraphemes t atomics
      (rightWhile unicode t style atomics (· == some .whitespace) (byteLen t - n) n) :=
    stop_rightWhile h _ _ hn
  have hle : n ≤ rightWhile unicode t style atomics (· == some .whitespace) (byteLen t - n) n :=
    le_rightWhile h _ _ hn
  rw [nextWordBoundary]
  dsimp only
  split
  · exact ⟨hfirst, hle⟩
  · exact ⟨stop_rightWhile h _ _ hfirst, hle.trans (le_rightWhile h _ _ hfirst)⟩

end Words

section Lines

variable {g : Graphemes} {t : Text} {atomics : List ByteRange}

theorem exists_of_lineFeed {n : ℕ} (h : byteAt t n = some '\n'.toUInt8) :
    ∃ u v, t = u ++ '\n' :: v ∧ byteLen u = n :=
  exists_of_getElem?_encodeUtf8 rfl (by decide) h

theorem exists_of_return {n : ℕ} (h : byteAt t n = some '\r'.toUInt8) :
    ∃ u v, t = u ++ '\r' :: v ∧ byteLen u = n :=
  exists_of_getElem?_encodeUtf8 rfl (by decide) h

theorem isLineFeed_iff {n : ℕ} : isLineFeed t atomics n = true ↔
    byteAt t n = some '\n'.toUInt8 ∧ ∀ r ∈ atomics, n < r.start ∨ r.stop ≤ n := by
  rw [isLineFeed, Bool.and_eq_true, beq_iff_eq, Bool.not_eq_true', byteIsInsideAtomicRange,
    List.any_eq_false]
  refine and_congr_right fun _ => forall₂_congr fun r _ => ?_
  rw [decide_eq_true_iff]
  omega

theorem outside_of_isLineFeed {n : ℕ} (h : isLineFeed t atomics n = true) :
    Outside (n + 1) atomics := by
  intro r hr
  have hapart := (isLineFeed_iff.mp h).2 r hr
  omega

theorem stop_behindLineFeed (h : AtomicIn g t atomics) (n : ℕ) :
    Stop g t atomics (behindLineFeed t atomics n) := by
  induction n with
  | zero => exact ⟨g.zero t, fun r _ => Or.inl (Nat.zero_le _)⟩
  | succ n ih =>
    rw [behindLineFeed]
    split
    · rename_i hfeed
      obtain ⟨u, v, rfl, rfl⟩ := exists_of_lineFeed (isLineFeed_iff.mp hfeed).1
      exact ⟨g.behindLineFeed u v, outside_of_isLineFeed hfeed⟩
    · exact ih

theorem behindLineFeed_le (n : ℕ) : behindLineFeed t atomics n ≤ n := by
  induction n with
  | zero => exact le_rfl
  | succ n ih =>
    rw [behindLineFeed]
    split
    · exact le_rfl
    · exact Nat.le_succ_of_le ih

theorem stop_lineStartAt (h : AtomicIn g t atomics) (n : ℕ) :
    Stop g t atomics (lineStartAt t atomics n) := stop_behindLineFeed h _

theorem lineStartAt_le (n : ℕ) : lineStartAt t atomics n ≤ n :=
  (behindLineFeed_le _).trans (Nat.min_le_left _ _)

theorem isLineFeed_of_firstLineFeed {fuel n feed : ℕ}
    (h : firstLineFeed t atomics fuel n = some feed) : isLineFeed t atomics feed = true := by
  induction fuel generalizing n with
  | zero => cases h
  | succ fuel ih =>
    rw [firstLineFeed] at h
    split at h
    · cases h
      assumption
    · exact ih h

/-- A line ends at the end of the text, at a line feed, or at the return before it. -/
theorem lineEndFrom_cases (t : Text) (atomics : List ByteRange) (n : ℕ) :
    lineEndFrom t atomics n = byteLen t ∨
      (isLineFeed t atomics (lineEndFrom t atomics n) = true ∧
        ∀ m, m + 1 = lineEndFrom t atomics n → byteAt t m ≠ some '\r'.toUInt8) ∨
      (byteAt t (lineEndFrom t atomics n) = some '\r'.toUInt8 ∧
        isLineFeed t atomics (lineEndFrom t atomics n + 1) = true) := by
  rw [lineEndFrom]
  cases hfirst : firstLineFeed t atomics (byteLen t - min n (byteLen t)) (min n (byteLen t)) with
  | none => exact Or.inl rfl
  | some feed =>
    have hfeed := isLineFeed_of_firstLineFeed hfirst
    dsimp only
    split
    · rename_i hreturn
      refine Or.inr (Or.inr ⟨hreturn.2, ?_⟩)
      rw [Nat.sub_add_cancel hreturn.1]
      exact hfeed
    · rename_i hreturn
      refine Or.inr (Or.inl ⟨hfeed, ?_⟩)
      rintro m rfl hm
      exact hreturn ⟨Nat.succ_pos m, hm⟩

theorem exists_of_lineBreak {n : ℕ} (hreturn : byteAt t n = some '\r'.toUInt8)
    (hfeed : byteAt t (n + 1) = some '\n'.toUInt8) :
    ∃ u v, t = u ++ '\r' :: '\n' :: v ∧ byteLen u = n := by
  obtain ⟨u, v, ht, rfl⟩ := exists_of_return hreturn
  obtain ⟨u', v', ht', hlen⟩ := exists_of_lineFeed hfeed
  have hsize : byteLen (u ++ ['\r']) = byteLen u + 1 := by
    rw [byteLen_append]
    rfl
  have hfirst : splitBytes (byteLen u + 1) t = some (u ++ ['\r'], v) := by
    rw [splitBytes_eq_some_iff]
    exact ⟨by rw [ht, List.append_assoc, List.singleton_append], hsize⟩
  have hsecond : splitBytes (byteLen u + 1) t = some (u', '\n' :: v') :=
    splitBytes_eq_some_iff.mpr ⟨ht', hlen⟩
  rw [hfirst] at hsecond
  cases hsecond
  exact ⟨u, v', ht, rfl⟩

theorem stop_lineEndFrom (h : AtomicIn g t atomics) (n : ℕ) :
    Stop g t atomics (lineEndFrom t atomics n) := by
  rcases lineEndFrom_cases t atomics n with hend | ⟨hfeed, hreturn⟩ | ⟨hreturn, hfeed⟩
  · rw [hend]
    exact ⟨g.last t, fun r hr => Or.inr (g.le_of_isBoundary (h.valid r hr).2.2)⟩
  · obtain ⟨hbyte, hapart⟩ := isLineFeed_iff.mp hfeed
    obtain ⟨u, v, ht, hlen⟩ := exists_of_lineFeed hbyte
    refine ⟨?_, fun r hr => ?_⟩
    · rw [← hlen, ht]
      apply g.beforeLineFeed
      intro hlast
      obtain ⟨w, hw⟩ := List.getLast?_eq_some_iff.mp hlast
      have hsize : byteLen w + 1 = byteLen u := by
        rw [hw, byteLen_append]
        rfl
      apply hreturn (byteLen w) (hsize.trans hlen)
      rw [ht, hw, List.append_assoc, byteAt]
      exact getElem?_encodeUtf8 rfl w ('\n' :: v)
    · have hr := hapart r hr
      omega
  · obtain ⟨hbyte, hapart⟩ := isLineFeed_iff.mp hfeed
    obtain ⟨u, v, ht, hlen⟩ := exists_of_lineBreak hreturn hbyte
    have hinside := g.insideLineBreak u v
    rw [← ht, hlen] at hinside
    refine ⟨?_, fun r hr => ?_⟩
    · rw [← hlen, ht]
      exact g.beforeReturn u v
    · have hstop := (h.valid r hr).2.2
      have hne : r.stop ≠ lineEndFrom t atomics n + 1 := by
        intro heq
        rw [heq, hinside] at hstop
        cases hstop
      have hr := hapart r hr
      omega

theorem byteAt_of_getBytesFrom {n : ℕ} {c : Char} {b : UInt8} {w : Text}
    (hc : String.utf8EncodeChar c = [b]) (h : getBytesFrom t n = some (c :: w)) :
    ∃ u, t = u ++ c :: w ∧ byteLen u = n ∧ byteAt t n = some b := by
  obtain ⟨⟨u, rest⟩, hsplit, hrest⟩ := Option.map_eq_some_iff.mp h
  obtain ⟨ht, hlen⟩ := splitBytes_eq_some_iff.mp hsplit
  dsimp only at hrest
  rw [hrest] at ht
  refine ⟨u, ht, hlen, ?_⟩
  rw [ht, ← hlen, byteAt]
  exact getElem?_encodeUtf8 hc u w

theorem stop_lineEndingAt {n : ℕ} {r : ByteRange}
    (hr : lineEndingAt t (lineEndFrom t atomics n) = some r) :
    Stop g t atomics r.stop ∧ lineEndFrom t atomics n ≤ r.stop := by
  have hcases := lineEndFrom_cases t atomics n
  generalize lineEndFrom t atomics n = lineEnd at hr hcases ⊢
  rw [lineEndingAt] at hr
  split at hr
  · rename_i w hrest
    cases hr
    obtain ⟨u, ht, hlen, hbyte⟩ := byteAt_of_getBytesFrom rfl hrest
    refine ⟨⟨?_, ?_⟩, Nat.le_add_right _ _⟩
    · have hbehind := g.behindLineFeed (u ++ ['\r']) w
      rw [byteLen_append, List.append_assoc, List.singleton_append, ← ht, hlen] at hbehind
      exact hbehind
    · rcases hcases with hend | ⟨hfeed, -⟩ | ⟨-, hfeed⟩
      · have htotal := congrArg byteLen ht
        rw [byteLen_append, byteLen_cons, byteLen_cons] at htotal
        have hpos := Char.utf8Size_pos '\r'
        omega
      · rw [(isLineFeed_iff.mp hfeed).1] at hbyte
        exact absurd hbyte (by decide)
      · exact outside_of_isLineFeed hfeed
  · rename_i w hrest
    cases hr
    obtain ⟨u, ht, hlen, hbyte⟩ := byteAt_of_getBytesFrom rfl hrest
    refine ⟨⟨?_, ?_⟩, Nat.le_add_right _ _⟩
    · have hbehind := g.behindLineFeed u w
      rw [← ht, hlen] at hbehind
      exact hbehind
    · rcases hcases with hend | ⟨hfeed, -⟩ | ⟨hreturn, -⟩
      · have htotal := congrArg byteLen ht
        rw [byteLen_append, byteLen_cons] at htotal
        have hpos := Char.utf8Size_pos '\n'
        omega
      · exact outside_of_isLineFeed hfeed
      · rw [hreturn] at hbyte
        exact absurd hbyte (by decide)
  · cases hr

theorem stop_logicalLineStartTarget (h : AtomicIn g t atomics) (n : ℕ) :
    Stop g t atomics (logicalLineStartTarget g t atomics n) := by
  rw [logicalLineStartTarget]
  split
  · exact stop_lineStartAt h _
  · exact stop_lineStartAt h _

theorem stop_logicalLineEndTarget (h : AtomicIn g t atomics) (n : ℕ) :
    Stop g t atomics (logicalLineEndTarget t atomics n) := by
  rw [logicalLineEndTarget]
  split
  · split
    · exact stop_lineEndFrom h n
    · exact stop_lineEndFrom h _
  · exact stop_lineEndFrom h n

end Lines

section Validity

variable {unicode : Unicode} {b : EditBuffer} {atomics : List ByteRange}

/-- Where the cursor of a plan is. A cursor that is not moved right is where it may be left; any
other is behind what is inserted, or keeps its distance to what is not replaced. -/
def EditPlan.Lands (plan : EditPlan) (g : Graphemes) (t : Text) (atomics : List ByteRange) : Prop :=
  let range := plan.replacedByteRange
  match plan.cursorAffinity with
  | .exact =>
    plan.replacement = [] ∧ range.start = range.stop ∧ Stop g t atomics plan.cursorByte
  | .right =>
    plan.cursorByte = range.start + byteLen plan.replacement ∨
      (plan.cursorByte < range.start ∧ Outside plan.cursorByte atomics) ∨
      ∃ c, range.stop < c ∧ c ≤ byteLen t ∧ Outside c atomics ∧
        plan.cursorByte = c - (range.stop - range.start) + byteLen plan.replacement

/-- What holds of every plan that is made. -/
structure EditPlan.Sound (plan : EditPlan) (unicode : Unicode) (b : EditBuffer)
    (atomics : List ByteRange) : Prop where
  valid : b.validatePlan unicode plan = .ok ()
  aligned : ∀ a ∈ atomics, plan.replacedByteRange.Aligned a
  lands : plan.Lands unicode.toGraphemes b.text atomics

theorem getBytes_makePlan {range : ByteRange} (hle : range.start ≤ range.stop)
    (hstart : unicode.isBoundary b.text range.start = true)
    (hstop : unicode.isBoundary b.text range.stop = true) :
    ∃ m, getBytes b.text range.start range.stop = some m := by
  obtain ⟨u, v, hu⟩ := unicode.char _ _ hstart
  obtain ⟨w, x, hw⟩ := unicode.char _ _ hstop
  obtain ⟨m, -, -, hm⟩ := getBytes_of_splitBytes hle hu hw
  exact ⟨m, hm⟩

theorem validatePlan_makePlan {range : ByteRange} {replacement : Text} {cursor : ℕ}
    {affinity : PostEditCursorAffinity} (hle : range.start ≤ range.stop)
    (hstart : unicode.isBoundary b.text range.start = true)
    (hstop : unicode.isBoundary b.text range.stop = true)
    (hcursor : cursor ≤ byteLen b.text - (range.stop - range.start) + byteLen replacement)
    (hexact : affinity = .exact → replacement = [] ∧ range.start = range.stop ∧
      unicode.isBoundary b.text cursor = true) :
    b.validatePlan unicode (b.makePlan range replacement cursor affinity) = .ok () := by
  obtain ⟨m, hm⟩ := getBytes_makePlan hle hstart hstop
  obtain ⟨u, v, hu⟩ := unicode.char _ _ hstart
  obtain ⟨w, x, hw⟩ := unicode.char _ _ hstop
  have hlen := unicode.le_of_isBoundary hstop
  rw [EditBuffer.validatePlan, EditBuffer.makePlan]
  dsimp only
  rw [hm, if_neg (by simp), if_neg, if_neg (by simp), if_neg (Nat.not_lt.mpr hcursor), if_neg]
  · rintro ⟨haffinity, hbad⟩
    obtain ⟨rfl, hempty, hboundary⟩ := hexact haffinity
    have hnil : m = [] := by
      obtain ⟨u', v', -, hbefore, hbehind⟩ := getBytes_eq_some hm
      by_contra hne
      have hpos := byteLen_pos hne
      omega
    rw [hnil, hboundary] at hbad
    rcases hbad with hbad | hbad
    · exact hbad rfl
    · cases hbad
  · rw [hu, hw, hstart, hstop]
    simp only [Option.isNone_some, Bool.false_eq_true, or_false, reduceCtorEq, not_or]
    omega

theorem aligned_of_outside {range : ByteRange} (hstart : Outside range.start atomics)
    (hstop : Outside range.stop atomics) : ∀ a ∈ atomics, range.Aligned a := by
  intro a ha
  have hfirst := hstart a ha
  have hlast := hstop a ha
  rw [ByteRange.Aligned]
  omega

theorem sound_move {c target : ℕ} (hc : Stop unicode.toGraphemes b.text atomics c)
    (htarget : Stop unicode.toGraphemes b.text atomics target) :
    (b.makePlan ⟨c, c⟩ [] target .exact).Sound unicode b atomics := by
  have hlen := unicode.le_of_isBoundary htarget.isBoundary
  refine ⟨?_, aligned_of_outside hc.outside hc.outside, rfl, rfl, htarget⟩
  apply validatePlan_makePlan le_rfl hc.isBoundary hc.isBoundary
  · dsimp only
    rw [byteLen_nil]
    omega
  · exact fun _ => ⟨rfl, rfl, htarget.isBoundary⟩

theorem sound_delete {start stop : ℕ} (hle : start ≤ stop)
    (hstart : Stop unicode.toGraphemes b.text atomics start)
    (hstop : Stop unicode.toGraphemes b.text atomics stop) :
    (b.makePlan ⟨start, stop⟩ [] start .right).Sound unicode b atomics := by
  have hlen := unicode.le_of_isBoundary hstop.isBoundary
  refine ⟨?_, aligned_of_outside hstart.outside hstop.outside, Or.inl rfl⟩
  apply validatePlan_makePlan hle hstart.isBoundary hstop.isBoundary
  · dsimp only
    rw [byteLen_nil]
    omega
  · nofun

/-- A plan for a command is sound. -/
theorem sound_planCommand (hcursor : unicode.isBoundary b.text b.cursorByte = true)
    (command : EditCommand) (ranges : List ByteRange) :
    (b.planCommand unicode command ranges).Sound unicode b
      (normalizeAtomicRanges unicode.toGraphemes b.text ranges) := by
  have hatomics := atomicIn_normalizeAtomicRanges unicode.toGraphemes b.text ranges
  have hc := stop_normalizeCursor hatomics hcursor
  rw [EditBuffer.planCommand.eq_def]
  dsimp only
  generalize normalizeAtomicRanges unicode.toGraphemes b.text ranges = atomics at hatomics hc ⊢
  generalize normalizeCursorForAtomicRanges b.cursorByte atomics = cursor at hc ⊢
  have hlen := unicode.le_of_isBoundary hc.isBoundary
  cases command with
  | insert character =>
    refine ⟨?_, aligned_of_outside hc.outside hc.outside, Or.inl ?_⟩
    · apply validatePlan_makePlan le_rfl hc.isBoundary hc.isBoundary
      · dsimp only
        rw [byteLen_cons, byteLen_nil]
        omega
      · nofun
    · change cursor + character.utf8Size = cursor + byteLen [character]
      rw [byteLen_cons, byteLen_nil, Nat.add_zero]
  | moveGraphemeLeft => exact sound_move hc (stop_previousAtomicBoundary hatomics _)
  | moveGraphemeRight => exact sound_move hc (stop_nextAtomicBoundary hatomics _)
  | moveWordLeft style => exact sound_move hc (stop_previousWordBoundary hatomics hc)
  | moveWordRight style => exact sound_move hc (stop_nextWordBoundary hatomics hc).1
  | moveLogicalLineStart => exact sound_move hc (stop_logicalLineStartTarget hatomics _)
  | moveLogicalLineEnd => exact sound_move hc (stop_logicalLineEndTarget hatomics _)
  | deleteGraphemeBackward =>
    exact sound_delete (previousAtomicBoundary_le _) (stop_previousAtomicBoundary hatomics _) hc
  | deleteGraphemeForward =>
    exact sound_delete (le_nextAtomicBoundary hlen) hc (stop_nextAtomicBoundary hatomics _)
  | deleteWordBackward style =>
    exact sound_delete (previousWordBoundary_le _) (stop_previousWordBoundary hatomics hc) hc
  | deleteWordForward style =>
    have hword : Stop unicode.toGraphemes b.text atomics
        (nextWordBoundary unicode b.text style atomics cursor) ∧ _ :=
      stop_nextWordBoundary hatomics hc
    exact sound_delete hword.2 hc hword.1
  | deleteToLineStart =>
    dsimp only
    split
    · exact sound_delete ((previousAtomicBoundary_le _).trans (lineStartAt_le _))
        (stop_previousAtomicBoundary hatomics _) hc
    · exact sound_delete (lineStartAt_le _) (stop_lineStartAt hatomics _) hc
  | deleteToLineEnd =>
    have hend := stop_lineEndFrom hatomics cursor
    dsimp only
    have hstart : Stop unicode.toGraphemes b.text atomics
        (min cursor (lineEndFrom b.text atomics cursor)) := by
      rcases Nat.le_total cursor (lineEndFrom b.text atomics cursor) with hle | hle
      · rw [Nat.min_eq_left hle]
        exact hc
      · rw [Nat.min_eq_right hle]
        exact hend
    split
    · cases hbreak : lineEndingAt b.text (lineEndFrom b.text atomics cursor) with
      | none => exact sound_delete (Nat.min_le_right _ _) hstart hend
      | some range =>
        obtain ⟨hstop, hle⟩ := stop_lineEndingAt hbreak
        exact sound_delete ((Nat.min_le_right _ _).trans hle) hstart hstop
    · exact sound_delete (Nat.min_le_right _ _) hstart hend

/-- A plan to replace a range is sound. -/
theorem sound_planReplaceByteRange (hcursor : unicode.isBoundary b.text b.cursorByte = true)
    (range : ByteRange) (replacement : Text) (ranges : List ByteRange) :
    (b.planReplaceByteRange unicode range replacement ranges).Sound unicode b
      (normalizeAtomicRanges unicode.toGraphemes b.text ranges) := by
  have hatomics := atomicIn_normalizeAtomicRanges unicode.toGraphemes b.text ranges
  have hc := stop_normalizeCursor hatomics hcursor
  have hspec := normalizeReplacementRange_spec hatomics range
  rw [EditBuffer.planReplaceByteRange]
  generalize normalizeAtomicRanges unicode.toGraphemes b.text ranges = atomics at hatomics hc hspec ⊢
  generalize normalizeCursorForAtomicRanges b.cursorByte atomics = cursor at hc ⊢
  generalize normalizeReplacementRange unicode.toGraphemes b.text range atomics = normalized at hspec ⊢
  obtain ⟨hle, hstart, hstop, haligned⟩ := hspec
  have hlen := unicode.le_of_isBoundary hc.isBoundary
  have hstopLen := unicode.le_of_isBoundary hstop
  refine ⟨validatePlan_makePlan hle hstart hstop ?_ nofun, haligned, ?_⟩
  · split
    · omega
    · split
      · omega
      · omega
  · rw [EditPlan.Lands, EditBuffer.makePlan]
    dsimp only
    split
    · rename_i hbefore
      exact Or.inr (Or.inl ⟨hbefore, hc.outside⟩)
    · split
      · exact Or.inl rfl
      · rename_i hbehind
        exact Or.inr (Or.inr ⟨cursor, Nat.not_le.mp hbehind, hlen, hc.outside, rfl⟩)

end Validity

end Ezer.Textarea
