import Ezer.PagerDiff.Stitch
import Mathlib.Data.List.Chain

/-!
# Stitched hunks stay truthful

The fold goes through the rows of the second hunk while the first one shows
their lines. It keeps one invariant: the hunk built so far tells how the first
text became the one in which the rows gone through are applied already, and the
rows that remain tell how that text becomes the last one.
-/

namespace Ezer.PagerDiff

open Ezer.Lib Ezer.HunkTracker Ezer.SearchReplace

/-- A truthful hunk, with the texts around its block. -/
structure TruthfulAt (front back before after : List Text) (hunk : DiffHunk) : Prop where
  exists_blocks : ∃ old new, before = front ++ old ++ back ∧ after = front ++ new ++ back ∧
    Carries .old hunk old ∧ Carries .new hunk new ∧
    Side.new.numbers hunk = List.range' (front.length + 1) new.length

theorem TruthfulAt.truthful {front back before after : List Text} {hunk : DiffHunk}
    (h : TruthfulAt front back before after hunk) : Truthful before after hunk := by
  obtain ⟨old, new, hblocks⟩ := h.exists_blocks
  exact ⟨front, old, new, back, hblocks⟩

section Replace

variable {front back before q R : List Text} {x : Text} {out : DiffHunk}

theorem Side.length_numbers (side : Side) (hunk : DiffHunk) :
    (side.numbers hunk).length = (side.rows hunk).length := List.length_map _

/-- The row of a hunk that shows a line is found, and other rows in its place tell the truth about
another line there. -/
theorem TruthfulAt.exists_shown (h : TruthfulAt front back before (q ++ x :: R) out)
    (hle : front.length ≤ q.length)
    (hlt : q.length < front.length + (Side.new.rows out).length) :
    ∃ A shown B, out = A ++ shown :: B ∧ shown.tag ≠ .delete ∧ trimmed shown.text = trimmed x ∧
      shown.ln = q.length + 1 ∧ renderPos out (q.length + 1) = some A.length ∧
      ∀ y rows, Carries .new rows [y] → Side.new.numbers rows = [q.length + 1] →
        (∀ block, Carries .old [shown] block → Carries .old rows block) →
        TruthfulAt front back before (q ++ y :: R) (A ++ rows ++ B) ∧
          (Side.new.rows (A ++ rows ++ B)).length = (Side.new.rows out).length := by
  obtain ⟨old, new, hbefore, hafter, hold, hnew, hnumbers⟩ := h.exists_blocks
  -- The line is one of the new block.
  obtain ⟨q₂, rfl⟩ : ∃ q₂, q = front ++ q₂ := by
    rw [List.append_assoc] at hafter
    rcases List.append_eq_append_iff.mp hafter with ⟨r, hr, -⟩ | ⟨r, hr, -⟩
    · have hlen := congrArg List.length hr
      rw [List.length_append] at hlen
      have hnil : r = [] := List.eq_nil_of_length_eq_zero (by omega)
      exact ⟨[], by rw [hr, hnil, List.append_nil, List.append_nil]⟩
    · exact ⟨r, hr⟩
  rw [List.length_append, hnew.length] at hlt
  rw [List.append_assoc, List.append_assoc, List.append_cancel_left_eq] at hafter
  obtain ⟨new₂, rfl, rfl⟩ : ∃ new₂, new = q₂ ++ x :: new₂ ∧ R = new₂ ++ back := by
    rcases List.append_eq_append_iff.mp hafter with ⟨r, hr, hr'⟩ | ⟨r, hr, -⟩
    · cases r with
      | nil =>
        have hlen := congrArg List.length hr
        rw [List.append_nil] at hlen
        omega
      | cons z r =>
        obtain ⟨rfl, hR⟩ := List.cons_eq_cons.mp hr'
        exact ⟨r, hr, hR⟩
    · have hlen := congrArg List.length hr
      rw [List.length_append] at hlen
      omega
  obtain ⟨O₁, O₂, rfl, hO₁, hO₂⟩ := hnew.exists_append
  obtain ⟨skipped, shown, B, rfl, hskipped, hshows, htext, hB⟩ := hO₂.exists_cons
  have hskippedRows : Side.new.rows skipped = [] :=
    List.filter_eq_nil_iff.mpr fun r hr => Bool.eq_false_iff.mp (hskipped r hr)
  have hA : Carries .new (O₁ ++ skipped) q₂ := by
    rw [Carries, Side.rows_append, hskippedRows, List.append_nil]
    exact hO₁
  have hout : O₁ ++ (skipped ++ shown :: B) = (O₁ ++ skipped) ++ shown :: B :=
    (List.append_assoc ..).symm
  rw [hout] at hold hnumbers
  -- Its number is that of its place.
  have hAlen : (Side.new.numbers (O₁ ++ skipped)).length = q₂.length := by
    rw [Side.length_numbers, hA.length]
  have hsplit : List.range' (front.length + 1) (q₂ ++ x :: new₂).length =
      List.range' (front.length + 1) q₂.length ++
        (front.length + q₂.length + 1) ::
          List.range' (front.length + q₂.length + 1 + 1) new₂.length := by
    rw [List.length_append, List.length_cons, ← List.range'_append_1, List.range'_succ,
      Nat.add_right_comm front.length 1]
  rw [Side.numbers_append, Side.numbers_cons, hshows, if_pos rfl, hsplit] at hnumbers
  have hApart := List.append_inj_left hnumbers (by rw [hAlen, List.length_range'])
  obtain ⟨hln, hBpart⟩ := List.cons_eq_cons.mp
    (List.append_inj_right hnumbers (by rw [hAlen, List.length_range']))
  have htag : shown.tag ≠ .delete := of_decide_eq_true hshows
  have hln' : shown.ln = front.length + q₂.length + 1 := hln
  have hqlen : (front ++ q₂).length = front.length + q₂.length := List.length_append
  refine ⟨O₁ ++ skipped, shown, B, hout, htag, htext, hqlen ▸ hln', ?_,
    fun y rows hrows hrowNumbers hrowOld => ?_⟩
  · rw [hout, hqlen, ← hln']
    refine renderPos_append htag ?_
    rw [hApart, hln', List.mem_range'_1]
    omega
  · obtain ⟨old₁, oldRest, rfl, hold₁, holdRest⟩ := hold.of_append
    have hsingle : shown :: B = [shown] ++ B := rfl
    rw [hsingle] at holdRest
    obtain ⟨old₂, old₃, rfl, hold₂, hold₃⟩ := holdRest.of_append
    have hnewRows : Carries .new (O₁ ++ skipped ++ rows ++ B) (q₂ ++ [y] ++ new₂) :=
      (hA.append hrows).append hB
    refine ⟨⟨old₁ ++ (old₂ ++ old₃), q₂ ++ y :: new₂, hbefore, ?_, ?_, ?_, ?_⟩, ?_⟩
    · simp only [List.append_assoc, List.cons_append]
    · rw [← List.append_assoc]
      exact (hold₁.append (hrowOld old₂ hold₂)).append hold₃
    · simpa only [List.append_assoc, List.singleton_append] using hnewRows
    · rw [Side.numbers_append, Side.numbers_append, hrowNumbers, hApart, hBpart, hqlen]
      simp only [List.length_append, List.length_cons] at hsplit ⊢
      rw [hsplit, List.append_assoc, List.singleton_append]
    · rw [hnewRows.length, hnew.length]
      simp only [List.length_append, List.length_cons, List.length_nil]
      omega

end Replace

/-- The rows of a hunk that are still to be folded in: they tell how the lines from a place on
became others. -/
structure Remaining (n : ℕ) (old new : List Text) (rows : DiffHunk) : Prop where
  old_carried : Carries .old rows old
  new_carried : Carries .new rows new
  numbers_eq : Side.new.numbers rows = List.range' (n + 1) new.length
  placed : TailPlaced rows
  trailing : (∀ deleted ∈ rows, deleted.tag = .delete) → ∀ deleted ∈ rows, deleted.ln ≤ n + 1

section Step

variable {n : ℕ} {old new : List Text} {row next : DiffLine} {rows : DiffHunk}

theorem TailPlaced.of_cons (h : TailPlaced (row :: rows)) : TailPlaced rows :=
  fun kept r tail hrows => h (row :: kept) r tail (by rw [hrows, List.cons_append])

/-- Behind a row that is shown, the rows that remain start at the next line. -/
theorem Remaining.of_shown (hrow : row.tag ≠ .delete) (hln : row.ln = n + 1) {new : List Text}
    (hold : Carries .old rows old) (hnew : Carries .new rows new)
    (hnumbers : Side.new.numbers rows = List.range' (n + 1 + 1) new.length)
    (hplaced : TailPlaced (row :: rows)) : Remaining (n + 1) old new rows where
  old_carried := hold
  new_carried := hnew
  numbers_eq := hnumbers
  placed := hplaced.of_cons
  trailing hall deleted hmem := by
    have hle := hplaced [] row rows rfl hrow hall deleted hmem
    omega

/-- The first row that is shown has the number of the next line. -/
theorem numbers_of_shown (hshows : Side.new.shows row.tag = true) {y : Text}
    (h : Side.new.numbers (row :: rows) = List.range' (n + 1) (y :: new).length) :
    row.ln = n + 1 ∧ Side.new.numbers rows = List.range' (n + 1 + 1) new.length := by
  rw [Side.numbers_cons, hshows, if_pos rfl, List.length_cons, List.range'_succ] at h
  exact List.cons_eq_cons.mp h

theorem Remaining.equal (h : Remaining n old new (row :: rows)) (htag : row.tag = .equal) :
    ∃ x y old' new', old = x :: old' ∧ new = y :: new' ∧ trimmed row.text = trimmed x ∧
      trimmed row.text = trimmed y ∧ row.ln = n + 1 ∧ Remaining (n + 1) old' new' rows := by
  have hshows (side : Side) : side.shows row.tag = true := by
    rw [htag]
    exact side.shows_equal
  obtain ⟨x, old', rfl, hx, hold⟩ := h.old_carried.of_cons (hshows .old)
  obtain ⟨y, new', rfl, hy, hnew⟩ := h.new_carried.of_cons (hshows .new)
  obtain ⟨hln, hnumbers⟩ := numbers_of_shown (hshows .new) h.numbers_eq
  have hrow : row.tag ≠ .delete := by simp [htag]
  exact ⟨x, y, old', new', rfl, rfl, hx, hy, hln, .of_shown hrow hln hold hnew hnumbers h.placed⟩

theorem Remaining.replaced (h : Remaining n old new (row :: next :: rows))
    (htag : row.tag = .delete) (hnext : next.tag = .insert) :
    ∃ x y old' new', old = x :: old' ∧ new = y :: new' ∧ trimmed row.text = trimmed x ∧
      trimmed next.text = trimmed y ∧ next.ln = n + 1 ∧ Remaining (n + 1) old' new' rows := by
  have holdRow : Side.old.shows row.tag = true := by simp [Side.shows, htag]
  have hnewRow : Side.new.shows row.tag = false := by simp [Side.shows, htag]
  have holdNext : Side.old.shows next.tag = false := by simp [Side.shows, hnext]
  have hnewNext : Side.new.shows next.tag = true := by simp [Side.shows, hnext]
  obtain ⟨x, old', rfl, hx, hold⟩ := h.old_carried.of_cons holdRow
  obtain ⟨y, new', rfl, hy, hnew⟩ := (h.new_carried.of_skip hnewRow).of_cons hnewNext
  have hnumbers := h.numbers_eq
  rw [Side.numbers_cons, hnewRow, if_neg Bool.false_ne_true] at hnumbers
  obtain ⟨hln, hrest⟩ := numbers_of_shown hnewNext hnumbers
  have hshown : next.tag ≠ .delete := by simp [hnext]
  exact ⟨x, y, old', new', rfl, rfl, hx, hy, hln,
    .of_shown hshown hln (hold.of_skip holdNext) hnew hrest h.placed.of_cons⟩

/-- Rows that start behind all that is shown start right behind it. -/
theorem Remaining.le_of_splice (h : Remaining n old new (row :: rows)) {maxLn : ℕ}
    (hrow : maxLn < row.ln)
    (hhead : ∀ ln ∈ (Side.new.numbers (row :: rows)).head?, ln = maxLn + 1) : maxLn ≤ n := by
  cases new with
  | nil =>
    -- Nothing is shown any more: the rows are deleted ones.
    have hnil : Side.new.numbers (row :: rows) = [] := h.numbers_eq
    have hall : ∀ deleted ∈ row :: rows, deleted.tag = .delete := by
      intro deleted hmem
      by_contra hshown
      have hin := Side.mem_numbers.mpr ⟨deleted, hmem, hshown, rfl⟩
      rw [hnil] at hin
      cases hin
    have hle := h.trailing hall row (List.mem_cons_self ..)
    omega
  | cons y new =>
    have hln := hhead (n + 1) (by rw [h.numbers_eq, List.length_cons, List.range'_succ]; rfl)
    omega

end Step

section Stitching

variable {front back before : List Text}

theorem shownAt_eq_some {out : DiffHunk} {row shown : DiffLine} {pos : ℕ}
    (h : shownAt out row = some (pos, shown)) :
    renderPos out row.ln = some pos ∧ out[pos]? = some shown ∧
      trimmed shown.text = trimmed row.text := by
  obtain ⟨pos', hpos, h⟩ := Option.bind_eq_some_iff.mp h
  obtain ⟨shown', hshown, h⟩ := Option.bind_eq_some_iff.mp h
  split at h
  · rename_i htext
    cases h
    exact ⟨hpos, hshown, htext⟩
  · cases h

theorem shownAt_append {A B : DiffHunk} {row shown shown' : DiffLine} {pos : ℕ}
    (hpos : renderPos (A ++ shown :: B) row.ln = some A.length)
    (h : shownAt (A ++ shown :: B) row = some (pos, shown')) :
    pos = A.length ∧ shown' = shown ∧ trimmed shown.text = trimmed row.text := by
  obtain ⟨hpos', hshown, htext⟩ := shownAt_eq_some h
  rw [hpos] at hpos'
  cases hpos'
  rw [List.getElem?_append_right le_rfl, Nat.sub_self] at hshown
  cases hshown
  exact ⟨rfl, rfl, htext⟩

theorem set_append (A B : DiffHunk) (shown row : DiffLine) :
    (A ++ shown :: B).set A.length row = A ++ row :: B := by
  rw [List.set_append_right _ _ le_rfl, Nat.sub_self, List.set_cons_zero]

theorem insertIdx_append (A B : DiffHunk) (row next : DiffLine) :
    (A ++ row :: B).insertIdx (A.length + 1) next = A ++ row :: next :: B := by
  induction A with
  | nil => rfl
  | cons first A ih =>
    rw [List.cons_append, List.length_cons, List.insertIdx_succ_cons, ih, List.cons_append]

theorem spliceTail_truthful {q old new rest : List Text} {out rows hunk : DiffHunk}
    {row : DiffLine} {maxLn : ℕ}
    (hout : TruthfulAt front back before (q ++ old ++ rest) out)
    (hrows : Remaining q.length old new (row :: rows)) (hle : q.length ≤ maxLn)
    (hmax : maxLn = front.length + (Side.new.rows out).length) (hrow : maxLn < row.ln)
    (h : spliceTail out maxLn (row :: rows) = some hunk) : Truthful before (q ++ new ++ rest) hunk := by
  obtain ⟨rfl, hhead⟩ := eq_of_spliceTail h
  have hge := hrows.le_of_splice hrow hhead
  obtain ⟨fold, fnew, hbefore, hafter, hold, hnew, hnumbers⟩ := hout.exists_blocks
  have hlen : q.length = front.length + fnew.length := by
    rw [← hnew.length]
    omega
  -- What remains starts where the block ends.
  rw [List.append_assoc] at hafter
  obtain ⟨rfl, rfl⟩ := List.append_inj hafter (by rw [hlen, List.length_append])
  refine ⟨front, fold ++ old, fnew ++ new, rest, ?_, ?_, hold.append hrows.old_carried,
    hnew.append hrows.new_carried, ?_⟩
  · rw [hbefore]
    simp only [List.append_assoc]
  · simp only [List.append_assoc]
  · have hblock : (fnew ++ new).length = fnew.length + new.length := List.length_append
    rw [Side.numbers_append, hnumbers, hrows.numbers_eq, hlen, hblock, ← List.range'_append_1,
      Nat.add_right_comm]

theorem stitchRows_truthful {q old new rest : List Text} {out rows hunk : DiffHunk} {maxLn : ℕ}
    (hout : TruthfulAt front back before (q ++ old ++ rest) out)
    (hrows : Remaining q.length old new rows) (hfront : front.length ≤ q.length)
    (hle : q.length ≤ maxLn) (hmax : maxLn = front.length + (Side.new.rows out).length)
    (h : stitchRows out maxLn rows = some hunk) : Truthful before (q ++ new ++ rest) hunk := by
  induction hn : rows.length using Nat.strong_induction_on generalizing q old new out rows with
  | _ count ih =>
    subst hn
    -- Behind a line both texts have in its place, the rest is folded into what there is then.
    have hrest : ∀ {y : Text} {old' new' : List Text} {out' rows' : DiffHunk},
        TruthfulAt front back before (q ++ y :: (old' ++ rest)) out' →
        Remaining (q.length + 1) old' new' rows' → rows'.length < rows.length → q.length < maxLn →
        maxLn = front.length + (Side.new.rows out').length →
        stitchRows out' maxLn rows' = some hunk →
          Truthful before (q ++ y :: new' ++ rest) hunk := by
      intro y old' new' out' rows' hout' hrows' hlt hbelow hmax' h'
      have hq : (q ++ [y]).length = q.length + 1 := by simp
      have hafter : q ++ y :: (old' ++ rest) = (q ++ [y]) ++ old' ++ rest := by simp
      rw [hafter] at hout'
      rw [← hq] at hrows'
      have hresult := ih rows'.length hlt hout' hrows' (by omega) (by omega) hmax' h' rfl
      simpa using hresult
    cases rows with
    | nil =>
      rw [hrows.old_carried.eq_nil] at hout
      rw [hrows.new_carried.eq_nil]
      rw [stitchRows] at h
      cases h
      exact hout.truthful
    | cons row rows =>
      by_cases hrow : row.ln > maxLn
      · rw [stitchRows_of_gt hrow] at h
        exact spliceTail_truthful hout hrows hle hmax hrow h
      · cases htag : row.tag with
        | equal =>
          rw [stitchRows_equal hrow htag] at h
          obtain ⟨x, y, old, new, rfl, rfl, hx, hy, hln, hremaining⟩ := hrows.equal htag
          obtain ⟨-, -, h⟩ := Option.bind_eq_some_iff.mp h
          rw [List.append_assoc, List.cons_append] at hout
          obtain ⟨A, shown, B, rfl, hshownTag, htext, hshownLn, -, hreplace⟩ :=
            hout.exists_shown hfront (by omega)
          -- The line stays, but for its terminator.
          have hshows : Side.new.shows shown.tag = true := by simp [Side.shows, hshownTag]
          have hcarries : Carries .new [shown] [y] :=
            Carries.nil.cons hshows (htext.trans (hx.symm.trans hy))
          have hnumber : Side.new.numbers [shown] = [q.length + 1] := by
            rw [Side.numbers_cons, hshows, if_pos rfl]
            exact congrArg (fun ln => [ln]) hshownLn
          obtain ⟨hnext, -⟩ := hreplace y [shown] hcarries hnumber fun _ => id
          rw [List.append_assoc, List.singleton_append] at hnext
          exact hrest hnext hremaining (Nat.lt_succ_self _) (by omega) hmax h
        | insert =>
          rw [stitchRows_insert hrow htag] at h
          cases h
        | delete =>
          cases rows with
          | nil =>
            rw [stitchRows_delete_nil hrow htag] at h
            cases h
          | cons next rows =>
            rw [stitchRows_delete hrow htag] at h
            split at h
            · cases h
            · rename_i hpair
              obtain ⟨hinsert, hnextLn⟩ := not_or.mp hpair
              have hinsert : next.tag = .insert := not_not.mp hinsert
              have hnextLn : next.ln = row.ln := not_not.mp hnextLn
              obtain ⟨x, y, old, new, rfl, rfl, hx, hy, hln, hremaining⟩ :=
                hrows.replaced htag hinsert
              obtain ⟨⟨pos, shown'⟩, hshownAt, h⟩ := Option.bind_eq_some_iff.mp h
              rw [List.append_assoc, List.cons_append] at hout
              obtain ⟨A, shown, B, rfl, hshownTag, -, -, hpos, hreplace⟩ :=
                hout.exists_shown hfront (by omega)
              rw [← hln, hnextLn] at hpos
              obtain ⟨rfl, rfl, htext⟩ := shownAt_append hpos hshownAt
              have hnew : Carries .new [next] [y] :=
                Carries.nil.cons (by simp [Side.shows, hinsert]) hy
              have hnumber : Side.new.numbers [next] = [q.length + 1] := by
                rw [Side.numbers_cons, hinsert]
                exact congrArg (fun ln => [ln]) hln
              have hshorter : rows.length < (row :: next :: rows).length := by
                rw [List.length_cons, List.length_cons]
                omega
              cases hshown : shown'.tag with
              | delete => exact (hshownTag hshown).elim
              | equal =>
                -- The line is shown as replaced.
                simp only [hshown] at h
                rw [set_append, insertIdx_append] at h
                have hskip : Side.new.shows row.tag = false := by simp [Side.shows, htag]
                have hnumber' : Side.new.numbers [row, next] = [q.length + 1] := by
                  rw [Side.numbers_cons, hskip, if_neg Bool.false_ne_true]
                  exact hnumber
                obtain ⟨hnext, hcount⟩ := hreplace y [row, next] (hnew.skip hskip) hnumber' (by
                  intro block hblock
                  obtain ⟨z, tail, rfl, hz, htail⟩ :=
                    hblock.of_cons (by rw [hshown]; rfl)
                  have hold : Carries .old [next] tail := by
                    rw [htail.eq_nil]
                    exact Carries.nil.skip (by simp [Side.shows, hinsert])
                  exact hold.cons (by simp [Side.shows, htag]) (htext.symm.trans hz))
                have hout' : A ++ [row, next] ++ B = A ++ row :: next :: B := by simp
                rw [hout'] at hnext hcount
                exact hrest hnext hremaining hshorter (by omega) (by omega) h
              | insert =>
                -- The line that the earlier edit put there is replaced by the final one.
                simp only [hshown] at h
                rw [set_append] at h
                obtain ⟨hnext, hcount⟩ := hreplace y [next] hnew hnumber (by
                  intro block hblock
                  have hnil := (hblock.of_skip (by simp [Side.shows, hshown])).eq_nil
                  rw [hnil]
                  exact Carries.nil.skip (by simp [Side.shows, hinsert]))
                have hout' : A ++ [next] ++ B = A ++ next :: B := by simp
                rw [hout'] at hnext hcount
                exact hrest hnext hremaining hshorter (by omega) (by omega) h

/-- A hunk that covers lines covers those of its block. -/
theorem renderRange_of_truthful {front new : List Text} {hunk : DiffHunk}
    {range : ℕ × ℕ} (hrange : renderRange hunk = some range)
    (hnumbers : Side.new.numbers hunk = List.range' (front.length + 1) new.length) :
    range = (front.length + 1, front.length + new.length) ∧ 0 < new.length := by
  have hne := numbers_ne_nil_of_renderRange hrange
  rw [hnumbers] at hne
  cases new with
  | nil => exact (hne rfl).elim
  | cons line new =>
    rw [renderRange_of_numbers hnumbers] at hrange
    refine ⟨(Option.some.inj hrange).symm.trans ?_, Nat.succ_pos _⟩
    rw [List.length_cons]
    congr 1
    omega

/-- Two truthful hunks are folded into a truthful one. -/
theorem stitchHunkPair_truthful {before between after : List Text} {a b hunk : DiffHunk}
    (ha : Truthful before between a) (hb : Truthful between after b) (hplaced : TailPlaced b)
    (h : stitchHunkPair a b = some hunk) : Truthful before after hunk := by
  obtain ⟨front, old, new, back, hbefore, hbetween, hold, hnew, hnumbers⟩ := ha
  obtain ⟨q, old', new', rest, hbetween', rfl, hold', hnew', hnumbers'⟩ := hb
  obtain ⟨⟨aMin, aMax⟩, haRange, h⟩ := Option.bind_eq_some_iff.mp h
  obtain ⟨⟨bMin, bMax⟩, hbRange, h⟩ := Option.bind_eq_some_iff.mp h
  obtain ⟨haEq, -⟩ := renderRange_of_truthful haRange hnumbers
  obtain ⟨hbEq, hpos⟩ := renderRange_of_truthful hbRange hnumbers'
  cases haEq
  cases hbEq
  change (if _ ∨ _ then none else stitchRows a (front.length + new.length) b) = some hunk at h
  split at h
  · cases h
  · rename_i hapart
    have hlen := hnew.length
    have hout : TruthfulAt front back before (q ++ old' ++ rest) a :=
      ⟨old, new, hbefore, hbetween' ▸ hbetween, hold, hnew, hnumbers⟩
    have hshown : ¬ ∀ deleted ∈ b, deleted.tag = .delete := by
      intro hall
      have hfirst : q.length + 1 ∈ Side.new.numbers b := by
        rw [hnumbers', List.mem_range'_1]
        omega
      obtain ⟨row, hrow, hne, -⟩ := Side.mem_numbers.mp hfirst
      exact hne (hall row hrow)
    have hrows : Remaining q.length old' new' b :=
      ⟨hold', hnew', hnumbers', hplaced, fun hall => (hshown hall).elim⟩
    exact stitchRows_truthful hout hrows (by omega) (by omega) (by omega) h

theorem stitchNext_describes {files : ℕ → List Text} {out : List DiffHunk} {n : ℕ}
    {hunk : DiffHunk} (hout : Describes files 0 out n)
    (hhunk : Truthful (files n) (files (n + 1)) hunk) (hplaced : TailPlaced hunk) :
    Describes files 0 (stitchNext out hunk) (n + 1) := by
  unfold stitchNext
  cases hout with
  | nil => exact Describes.concat 0 .nil hhunk
  | @concat out n last k hout hlast =>
    rw [List.getLast?_concat]
    dsimp only
    split
    · rename_i stitched hstitched
      rw [List.dropLast_concat]
      exact Describes.concat (k + 1) hout (stitchHunkPair_truthful hlast hhunk hplaced hstitched)
    · exact Describes.concat 0 (Describes.concat k hout hlast) hhunk

/-- Stitching keeps hunks truthful: two of them folded into one, and those of a whole chain of
edits, which are all described. -/
theorem stitch_truthful :
    (∀ before between after a b hunk, Truthful before between a → Truthful between after b →
      TailPlaced b → stitchHunkPair a b = some hunk → Truthful before after hunk) ∧
    ∀ (files : ℕ → List Text) (hunks : List DiffHunk),
      (∀ i hunk, hunks[i]? = some hunk → Truthful (files i) (files (i + 1)) hunk ∧ TailPlaced hunk) →
        Describes files 0 (stitchOverlappingHunks hunks) hunks.length := by
  refine ⟨fun _ _ _ _ _ _ => stitchHunkPair_truthful, fun files hunks => ?_⟩
  induction hunks using List.reverseRecOn with
  | nil => exact fun _ => .nil
  | append_singleton hunks hunk ih =>
    intro h
    have hhunk := h hunks.length hunk (by simp)
    have hbefore : ∀ i hunk, hunks[i]? = some hunk →
        Truthful (files i) (files (i + 1)) hunk ∧ TailPlaced hunk := by
      intro i hunk' hget
      obtain ⟨hlt, -⟩ := List.getElem?_eq_some_iff.mp hget
      exact h i hunk' (by rw [List.getElem?_append_left hlt, hget])
    rw [stitchOverlappingHunks, List.foldl_append, List.length_append]
    exact stitchNext_describes (ih hbefore) hhunk.1 hhunk.2

end Stitching

section Placed

variable {hunk rows : DiffHunk}

/-- A deleted row is numbered no further than the line behind the row before it. -/
def Continues (row next : DiffLine) : Prop :=
  next.tag = .delete → next.ln ≤ row.ln + if row.tag = .delete then 0 else 1

instance (row next : DiffLine) : Decidable (Continues row next) :=
  inferInstanceAs (Decidable (_ → _))

theorem continues_of_shown {row next : DiffLine} (h : next.tag ≠ .delete) : Continues row next :=
  fun hdelete => (h hdelete).elim

theorem tailPlaced_of_isChain (h : hunk.IsChain Continues) : TailPlaced hunk := by
  rintro kept row tail rfl hrow hall
  have hchain : (row :: tail).IsChain Continues := (List.isChain_append.mp h).2.1
  have hbound : ∀ (tail : DiffHunk) (last : DiffLine), (last :: tail).IsChain Continues →
      (∀ deleted ∈ tail, deleted.tag = .delete) →
      ∀ deleted ∈ tail, deleted.ln ≤ last.ln + if last.tag = .delete then 0 else 1 := by
    intro tail
    induction tail with
    | nil => exact fun _ _ _ => nofun
    | cons next tail ih =>
      intro last hchain hall
      obtain ⟨hnext, hall⟩ := List.forall_mem_cons.mp hall
      obtain ⟨hfirst, hchain⟩ := List.isChain_cons_cons.mp hchain
      have hle := hfirst hnext
      refine List.forall_mem_cons.mpr ⟨hle, fun deleted hmem => ?_⟩
      have hrest := ih next hchain hall deleted hmem
      rw [if_pos hnext] at hrest
      omega
  intro deleted hmem
  have hle := hbound tail row hchain hall deleted hmem
  rwa [if_neg hrow] at hle

theorem ln_changeRow (linePrefix : Text) (s : Cursor) (change : Change) :
    (changeRow linePrefix s change).2.ln ≤
      s.ln + if change.tag = .delete then 0 else 1 := by
  have hnext := Side.new.next_changeRow linePrefix s change
  have hln : Side.new.next (changeRow linePrefix s change).2 = (changeRow linePrefix s change).2.ln := rfl
  rw [← hln, hnext]
  by_cases hdelete : change.tag = .delete
  · have hshows : Side.new.shows change.tag = false := by simp [Side.shows, hdelete]
    rw [if_pos hdelete, hshows, if_neg Bool.false_ne_true]
    exact le_rfl
  · have hshows : Side.new.shows change.tag = true := by simp [Side.shows, hdelete]
    rw [if_neg hdelete, hshows, if_pos rfl]
    exact Nat.min_le_left _ _

theorem isChain_changeRows (linePrefix : Text) (script : List Change) (s : Cursor) :
    (changeRows linePrefix s script).1.IsChain Continues ∧
      ∀ row ∈ (changeRows linePrefix s script).1.head?, row.ln = s.ln := by
  induction script generalizing s with
  | nil => exact ⟨.nil, nofun⟩
  | cons change script ih =>
    obtain ⟨hchain, hhead⟩ := ih (changeRow linePrefix s change).2
    refine ⟨List.isChain_cons.mpr ⟨fun next hnext _ => ?_, hchain⟩, ?_⟩
    · rw [hhead next hnext]
      exact ln_changeRow linePrefix s change
    · intro row hrow
      cases hrow
      rfl

theorem isChain_of_shown (h : ∀ row ∈ rows, row.tag ≠ .delete) : rows.IsChain Continues := by
  induction rows with
  | nil => exact .nil
  | cons row rows ih =>
    obtain ⟨-, hrows⟩ := List.forall_mem_cons.mp h
    exact List.isChain_cons.mpr
      ⟨fun next hnext => continues_of_shown (hrows next (List.mem_of_mem_head? hnext)), ih hrows⟩

theorem ln_rowsBefore_last {edit : SearchReplaceEditDetail} {row : DiffLine}
    (h : row ∈ (rowsBefore edit).getLast?) : row.tag = .equal ∧ edit.newLine ≤ row.ln + 1 := by
  rw [rowsBefore, List.getLast?_map, List.getLast?_zipIdx, Option.map_map, Option.mem_def,
    Option.map_eq_some_iff] at h
  obtain ⟨line, -, rfl⟩ := h
  refine ⟨rfl, ?_⟩
  dsimp only [Function.comp]
  omega

theorem tag_rowsAfter (ls : List Text) (lo ln : ℕ) : ∀ row ∈ rowsAfter lo ln ls, row.tag ≠ .delete := by
  induction ls generalizing lo ln with
  | nil => exact nofun
  | cons line ls ih => exact List.forall_mem_cons.mpr ⟨by simp, ih _ _⟩

theorem isChain_allRows (fromLines : FromLines) (edit : SearchReplaceEditDetail) :
    (allRows fromLines edit).IsChain Continues := by
  obtain ⟨hmid, hhead⟩ := isChain_changeRows edit.linePrefix
    (fromLines edit.oldString (diffedNewText edit)) ⟨edit.oldLine, edit.newLine, false, false⟩
  have hbefore : ∀ row ∈ rowsBefore edit, row.tag ≠ .delete := by
    intro row hrow
    obtain ⟨⟨line, i⟩, -, rfl⟩ := List.mem_map.mp hrow
    simp
  have hafter : ∀ row ∈ contextAfterRows fromLines edit, row.tag ≠ .delete := tag_rowsAfter _ _ _
  refine List.isChain_append.mpr ⟨List.isChain_append.mpr ⟨isChain_of_shown hbefore, hmid, ?_⟩,
    isChain_of_shown hafter, fun row _ next hnext => ?_⟩
  · intro row hrow next hnext _
    obtain ⟨htag, hle⟩ := ln_rowsBefore_last hrow
    have hln : next.ln = edit.newLine := hhead next hnext
    have hshown : row.tag ≠ .delete := by simp [htag]
    rw [if_neg hshown, hln]
    exact hle
  · exact continues_of_shown (hafter next (List.mem_of_mem_head? hnext))

/-- The hunk of an edit has its deleted rows where they stood. -/
theorem tailPlaced_of_trimHunk {fromLines : FromLines} {edit : SearchReplaceEditDetail}
    (h : trimHunk (allRows fromLines edit) = some hunk) : TailPlaced hunk := by
  cases hall : (allRows fromLines edit).all DiffLine.isEqual with
  | true =>
    rw [trimHunk_of_equal hall] at h
    cases h
  | false =>
    obtain ⟨hunk', htrim, hshows⟩ := trimHunk_of_changed hall
    rw [htrim] at h
    cases h
    obtain ⟨front, back, hrows, -⟩ := hshows.contiguous
    have hchain := isChain_allRows fromLines edit
    rw [hrows] at hchain
    exact tailPlaced_of_isChain (List.isChain_append.mp (List.isChain_append.mp hchain).1).2.1

theorem tailPlaced_buildDiffHunks (fromLines : FromLines) (details : List SearchReplaceEditDetail) :
    (buildDiffHunks fromLines details).Forall TailPlaced := by
  refine List.forall_iff_forall_mem.mpr fun hunk hmem => ?_
  obtain ⟨edit, -, h⟩ := List.mem_filterMap.mp hmem
  exact tailPlaced_of_trimHunk h

end Placed

/-- A line that is replaced twice is shown as replaced once, which tells how the first text became
the last one. -/
theorem stitched_twice :
    stitchOverlappingHunks
        [[⟨['a'], 1, 1, .delete⟩, ⟨['b'], 1, 1, .insert⟩], [⟨['b'], 1, 1, .delete⟩, ⟨['c'], 1, 1, .insert⟩]] =
      [[⟨['a'], 1, 1, .delete⟩, ⟨['c'], 1, 1, .insert⟩]] ∧
    Describes (fun i => [[['a'], ['b'], ['c']].getD i []]) 0
      (stitchOverlappingHunks
        [[⟨['a'], 1, 1, .delete⟩, ⟨['b'], 1, 1, .insert⟩], [⟨['b'], 1, 1, .delete⟩, ⟨['c'], 1, 1, .insert⟩]]) 2 := by
  refine ⟨by decide, stitch_truthful.2 _ _ fun i hunk hget => ?_⟩
  match i with
  | 0 =>
    cases hget
    exact ⟨⟨[], [['a']], [['b']], [], rfl, rfl, rfl, rfl, rfl⟩, tailPlaced_of_isChain (by decide)⟩
  | 1 =>
    cases hget
    exact ⟨⟨[], [['b']], [['c']], [], rfl, rfl, rfl, rfl, rfl⟩, tailPlaced_of_isChain (by decide)⟩
  | n + 2 => cases hget

/-- A line deleted at the end of the second hunk but numbered far behind is put behind the wrong
line. -/
theorem not_truthful_misplaced :
    ¬ ∀ before between after a b hunk, Truthful before between a → Truthful between after b →
      stitchHunkPair a b = some hunk → Truthful before after hunk := by
  intro h
  obtain ⟨front, old, new, back, hbefore, -, hold, -⟩ :=
    h [['x'], ['y']] [['x'], ['y'], ['z']] [['x'], ['z']]
      [⟨['x'], 1, 1, .equal⟩, ⟨['y'], 2, 2, .equal⟩, ⟨['z'], 3, 3, .insert⟩]
      [⟨['x'], 1, 1, .equal⟩, ⟨['y'], 2, 9, .delete⟩]
      [⟨['x'], 1, 1, .equal⟩, ⟨['y'], 2, 2, .equal⟩, ⟨['z'], 3, 3, .insert⟩, ⟨['y'], 2, 9, .delete⟩]
      ⟨[], [['x'], ['y']], [['x'], ['y'], ['z']], [], rfl, rfl, rfl, rfl, rfl⟩
      ⟨[], [['x'], ['y']], [['x']], [['z']], rfl, rfl, rfl, rfl, rfl⟩ (by decide)
  have hlen := congrArg List.length hbefore
  have hcount := hold.length
  rw [List.length_append, List.length_append] at hlen
  have hthree : (Side.old.rows [⟨['x'], 1, 1, .equal⟩, ⟨['y'], 2, 2, .equal⟩, ⟨['z'], 3, 3, .insert⟩,
    ⟨['y'], 2, 9, .delete⟩]).length = 3 := by decide
  rw [hthree] at hcount
  have htwo : ([['x'], ['y']] : List Text).length = 2 := rfl
  omega

end Ezer.PagerDiff
