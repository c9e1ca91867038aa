import Ezer.HunkTracker.Actions

/-!
# Exactness of accepting and rejecting hunks

The hunks come from an edit script that keeps every byte, while a patch is cut
and rejoined at line feeds. One patch at the position of its hunk gives the
text of the script exactly when the text before and after the patch agree on
the final line feed and the result is no single line feed. A batch is a chain
of such patches from the last hunk to the first, and rejecting is accepting on
the swapped script.
-/

namespace Ezer.HunkTracker

open Ezer.Lib

/-- Consecutive lines, the last one without terminator only at the end of the text. -/
def LineBlock (ls : List Text) (rest : Text) : Prop :=
  (∀ l ∈ ls, IsLine l) ∨
    rest = [] ∧ ∃ ks x, ls = ks ++ [x] ∧ (∀ k ∈ ks, IsLine k) ∧ x ≠ [] ∧ '\n' ∉ x

variable {rest baseline current : Text}

private theorem LineBlock.lines_append {ls : List Text} (h : LineBlock ls rest) :
    lines (ls.flatten ++ rest) = lines ls.flatten ++ lines rest := by
  rcases h with h | ⟨rfl, -⟩
  · have hl := lines_flatten_append h []
    simp only [List.append_nil, lines_nil] at hl
    rw [lines_flatten_append h, hl]
  · simp

private theorem LineBlock.length_lines {ls : List Text} (h : LineBlock ls rest) :
    (lines ls.flatten).length = ls.length := by
  rcases h with h | ⟨-, ks, x, rfl, hk, hx, hn⟩
  · have hl := lines_flatten_append h []
    simp only [List.append_nil, lines_nil] at hl
    simp [hl]
  · have hl := lines_flatten_append hk x
    rw [lines_of_not_mem hn hx] at hl
    simp [hl]

theorem patchLines_at {before old new : List Text}
    (hb : ∀ l ∈ before, IsLine l) (ho : LineBlock old rest) (hn : LineBlock new rest) :
    patchLines (before.flatten ++ (old.flatten ++ rest)) (before.length + 1) old.length
        new.flatten =
      joinLines (lines (before.flatten ++ (new.flatten ++ rest))) ++
        (if endsWithNewline (before.flatten ++ (old.flatten ++ rest)) &&
          !(joinLines (lines (before.flatten ++ (new.flatten ++ rest)))).isEmpty
        then ['\n'] else []) := by
  have hold : lines (before.flatten ++ (old.flatten ++ rest)) =
      before.map List.dropLast ++ (lines old.flatten ++ lines rest) := by
    rw [lines_flatten_append hb, ho.lines_append]
  have hnew : lines (before.flatten ++ (new.flatten ++ rest)) =
      before.map List.dropLast ++ (lines new.flatten ++ lines rest) := by
    rw [lines_flatten_append hb, hn.lines_append]
  have htake : (lines (before.flatten ++ (old.flatten ++ rest))).take
      (min before.length (lines (before.flatten ++ (old.flatten ++ rest))).length) =
      before.map List.dropLast := by
    rw [hold, List.length_append, List.length_map, Nat.min_eq_left (Nat.le_add_right _ _)]
    exact List.take_left' (by simp)
  have hdrop : (lines (before.flatten ++ (old.flatten ++ rest))).drop
      (min (before.length + old.length)
        (lines (before.flatten ++ (old.flatten ++ rest))).length) = lines rest := by
    have hlen : min (before.length + old.length)
        (lines (before.flatten ++ (old.flatten ++ rest))).length =
          (before.map List.dropLast ++ lines old.flatten).length := by
      rw [hold]
      simp only [List.length_append, List.length_map, ho.length_lines]
      omega
    rw [hlen, hold, ← List.append_assoc]
    exact List.drop_left
  simp only [patchLines, Nat.add_sub_cancel]
  rw [htake, hdrop, List.append_assoc, ← hnew]
  split <;> simp

theorem patchLines_eq_iff {before old new : List Text}
    (hb : ∀ l ∈ before, IsLine l) (ho : LineBlock old rest) (hn : LineBlock new rest)
    (hc : NoCrLf (before.flatten ++ (new.flatten ++ rest))) :
    patchLines (before.flatten ++ (old.flatten ++ rest)) (before.length + 1) old.length
        new.flatten = before.flatten ++ (new.flatten ++ rest) ↔
      before.flatten ++ (new.flatten ++ rest) ≠ ['\n'] ∧
        (before.flatten ++ (new.flatten ++ rest) = [] ∨
          endsWithNewline (before.flatten ++ (old.flatten ++ rest)) =
            endsWithNewline (before.flatten ++ (new.flatten ++ rest))) := by
  rw [patchLines_at hb ho hn]
  generalize before.flatten ++ (new.flatten ++ rest) = t at hc
  generalize endsWithNewline (before.flatten ++ (old.flatten ++ rest)) = e
  have hj := joinLines_lines hc
  have hempty := joinLines_lines_eq_nil hc
  by_cases he : joinLines (lines t) = []
  · rcases hempty.mp he with rfl | rfl
    · simp
    · simp [he]
  · have hne : t ≠ [] ∧ t ≠ ['\n'] := by
      constructor
      · exact fun h => he (hempty.mpr (Or.inl h))
      · exact fun h => he (hempty.mpr (Or.inr h))
    have hi : (joinLines (lines t)).isEmpty = false := by simpa using he
    simp only [hi, Bool.not_false, Bool.and_true, hne.1, hne.2, ne_eq, not_false_eq_true,
      false_or, true_and]
    constructor
    · intro h
      have hs := List.append_cancel_left (h.trans hj.symm)
      cases e <;> cases hf : endsWithNewline t <;> simp [hf] at hs ⊢
    · rintro rfl
      exact hj

/-- The lines of the old text in an edit script. -/
def oldSide (cs : List Change) : List Text :=
  (cs.filter fun c => c.tag ≠ .insert).map Change.value

/-- The lines of the new text in an edit script. -/
def newSide (cs : List Change) : List Text :=
  (cs.filter fun c => c.tag ≠ .delete).map Change.value

/-- A line edit script from one text to another. -/
structure ValidScript (baseline current : Text) (cs : List Change) : Prop where
  oldSide_eq : oldSide cs = tokenizeLines baseline
  newSide_eq : newSide cs = tokenizeLines current

/-- The text of an edit script with the inserted side on the selected hunks and
the old side elsewhere. Hunks are numbered from `k`; an equal line ends one. -/
def selectText (sel : ℕ → Bool) : ℕ → Bool → List Change → Text
  | _, _, [] => []
  | k, inHunk, ⟨.equal, v⟩ :: cs => v ++ selectText sel (if inHunk then k + 1 else k) false cs
  | k, _, ⟨.delete, v⟩ :: cs => (if sel k then [] else v) ++ selectText sel k true cs
  | k, _, ⟨.insert, v⟩ :: cs => (if sel k then v else []) ++ selectText sel k true cs

/-- The hunks at the selected positions. -/
def pickHunks (sel : ℕ → Bool) (hunks : List Hunk) : List Hunk :=
  (hunks.zipIdx.filter fun h => sel h.2).map Prod.fst

@[simp] theorem oldSide_nil : oldSide [] = [] := rfl

@[simp] theorem oldSide_equal (v : Text) (cs : List Change) :
    oldSide (⟨.equal, v⟩ :: cs) = v :: oldSide cs := by simp [oldSide]

@[simp] theorem oldSide_delete (v : Text) (cs : List Change) :
    oldSide (⟨.delete, v⟩ :: cs) = v :: oldSide cs := by simp [oldSide]

@[simp] theorem oldSide_insert (v : Text) (cs : List Change) :
    oldSide (⟨.insert, v⟩ :: cs) = oldSide cs := by simp [oldSide]

@[simp] theorem newSide_nil : newSide [] = [] := rfl

@[simp] theorem newSide_equal (v : Text) (cs : List Change) :
    newSide (⟨.equal, v⟩ :: cs) = v :: newSide cs := by simp [newSide]

@[simp] theorem newSide_delete (v : Text) (cs : List Change) :
    newSide (⟨.delete, v⟩ :: cs) = newSide cs := by simp [newSide]

@[simp] theorem newSide_insert (v : Text) (cs : List Change) :
    newSide (⟨.insert, v⟩ :: cs) = v :: newSide cs := by simp [newSide]

variable {sel : ℕ → Bool}

/-- Selecting nothing gives the old text. -/
theorem selectText_none (h : ∀ k, sel k = false) (k : ℕ) (inHunk : Bool)
    (cs : List Change) : selectText sel k inHunk cs = (oldSide cs).flatten := by
  induction cs generalizing k inHunk with
  | nil => simp [selectText]
  | cons c cs ih =>
    obtain ⟨tag, v⟩ := c
    cases tag <;> simp [selectText, h, ih]

theorem selectText_congr {sel' : ℕ → Bool} {k : ℕ} (h : ∀ j, k ≤ j → sel j = sel' j)
    (inHunk : Bool) (cs : List Change) :
    selectText sel k inHunk cs = selectText sel' k inHunk cs := by
  induction cs generalizing k inHunk with
  | nil => simp [selectText]
  | cons c cs ih =>
    obtain ⟨tag, v⟩ := c
    cases tag with
    | equal =>
      simp only [selectText]
      congr 1
      refine ih (fun j hj => h j ?_) false
      split at hj <;> omega
    | delete | insert => simp [selectText, h k le_rfl, ih h]

private def openOld (cur : Option HunkBuilder) : List Text := (cur.map HunkBuilder.oldLines).getD []

private def openNew (cur : Option HunkBuilder) : List Text := (cur.map HunkBuilder.newLines).getD []

@[simp] theorem oldSide_append (cs ds : List Change) :
    oldSide (cs ++ ds) = oldSide cs ++ oldSide ds := by simp [oldSide]

@[simp] theorem newSide_append (cs ds : List Change) :
    newSide (cs ++ ds) = newSide cs ++ newSide ds := by simp [newSide]

/-- The script ends in a hunk line here, or the hunk was open before it. -/
private def EndsInHunk (isOpen : Bool) (cs : List Change) : Prop :=
  match cs.getLast? with
  | none => isOpen = true
  | some c => c.tag ≠ .equal

variable {cs : List Change}

private theorem EndsInHunk.cons {isOpen : Bool} {c : Change}
    (h : EndsInHunk true cs) (hc : c.tag ≠ .equal) : EndsInHunk isOpen (c :: cs) := by
  cases cs with
  | nil => simpa [EndsInHunk] using hc
  | cons d ds => simpa [EndsInHunk, List.getLast?_cons] using h

private theorem EndsInHunk.cons_equal {isOpen : Bool} {c : Change}
    (h : EndsInHunk false cs) : EndsInHunk isOpen (c :: cs) := by
  cases cs with
  | nil => simp [EndsInHunk] at h
  | cons d ds => simpa [EndsInHunk, List.getLast?_cons] using h

/-- The builder in progress holds at least one line. -/
private def OpenNonempty (cur : Option HunkBuilder) : Prop :=
  ∀ c ∈ cur, c.oldLines ≠ [] ∨ c.newLines ≠ []

private theorem collectHunks_split (cs : List Change) :
    ∀ (o n k m : ℕ) (cur : Option HunkBuilder) (before after : List Text) (b : HunkBuilder),
      (∀ c ∈ cur, c.oldStart = before.length + 1) → OpenNonempty cur →
      o = before.length + (openOld cur).length + 1 →
      before.getLast? = after.getLast? →
      (collectHunks cs o n cur)[m]? = some b →
      ∃ pre post mid rest, cs = mid ++ rest ∧ EndsInHunk cur.isSome mid ∧
        b.oldStart = pre.length + 1 ∧ (b.oldLines ≠ [] ∨ b.newLines ≠ []) ∧
        pre ++ b.oldLines = before ++ openOld cur ++ oldSide mid ∧
        post ++ b.newLines = after ++ openNew cur ++ newSide mid ∧
        pre.getLast? = post.getLast? ∧
        (rest = [] ∨ ∃ v rs, rest = ⟨.equal, v⟩ :: rs) ∧
        ∀ sel : ℕ → Bool, (∀ j, k ≤ j → j < k + m → sel j = false) →
          before.flatten ++ ((if sel k then openNew cur else openOld cur).flatten ++
            selectText sel k cur.isSome cs) =
          pre.flatten ++ ((if sel (k + m) then b.newLines else b.oldLines).flatten ++
            selectText sel (k + m + 1) false rest) := by
  induction cs with
  | nil =>
    intro o n k m cur before after b hcur hne ho hlast hb
    obtain ⟨rfl, rfl⟩ : m = 0 ∧ cur = some b := by
      cases cur with
      | none => simp [collectHunks] at hb
      | some c =>
        cases m with
        | zero => simpa [collectHunks] using hb
        | succ m => simp [collectHunks] at hb
    exact ⟨before, after, [], [], rfl, rfl, hcur b rfl, hne b rfl, by simp [openOld],
      by simp [openNew], hlast, Or.inl rfl, fun sel _ => by simp [selectText, openOld, openNew]⟩
  | cons c cs ih =>
    intro o n k m cur before after b hcur hne ho hlast hb
    obtain ⟨tag, v⟩ := c
    cases tag with
    | equal =>
      cases cur with
      | none =>
        obtain ⟨pre, post, mid, rest, rfl, hend, hs, hbne, hpre, hpost, hlast', hrest, htext⟩ :=
          ih (o + 1) (n + 1) k m none (before ++ [v]) (after ++ [v]) b (by simp)
            (by simp [OpenNonempty])
            (by simp [openOld] at ho ⊢; omega) (by simp) (by simpa [collectHunks] using hb)
        refine ⟨pre, post, ⟨.equal, v⟩ :: mid, rest, rfl, hend.cons_equal, hs, hbne,
          by simp [hpre, openOld], by simp [hpost, openNew], hlast', hrest, fun sel hsel => ?_⟩
        rw [← htext sel hsel]
        simp [selectText, openOld, openNew]
      | some c =>
        cases m with
        | zero =>
          obtain rfl : c = b := by simpa [collectHunks] using hb
          exact ⟨before, after, [], ⟨.equal, v⟩ :: cs, rfl, rfl, hcur c rfl, hne c rfl,
            by simp [openOld], by simp [openNew], hlast, Or.inr ⟨v, cs, rfl⟩,
            fun sel _ => by simp [selectText, openOld, openNew]⟩
        | succ m =>
          obtain ⟨pre, post, mid, rest, rfl, hend, hs, hbne, hpre, hpost, hlast', hrest, htext⟩ :=
            ih (o + 1) (n + 1) (k + 1) m none (before ++ c.oldLines ++ [v])
              (after ++ c.newLines ++ [v]) b
              (by simp) (by simp [OpenNonempty]) (by simp [openOld] at ho ⊢; omega) (by simp)
              (by simpa [collectHunks] using hb)
          refine ⟨pre, post, ⟨.equal, v⟩ :: mid, rest, rfl, hend.cons_equal, hs, hbne,
            by simp [hpre, openOld], by simp [hpost, openNew], hlast', hrest, fun sel hsel => ?_⟩
          have hk : sel k = false := hsel k le_rfl (by omega)
          have ht := htext sel fun j hj hlt => hsel j (by omega) (by omega)
          have hidx : k + 1 + m = k + (m + 1) := by omega
          rw [hidx] at ht
          rw [← ht]
          simp [selectText, openOld, openNew, hk]
    | delete =>
      obtain ⟨pre, post, mid, rest, rfl, hend, hs, hbne, hpre, hpost, hlast', hrest, htext⟩ :=
        ih (o + 1) n k m (some ((cur.getD ⟨o, n, [], []⟩).addOldLine v)) before after b
          (by
            rintro c ⟨⟩
            cases cur with
            | none => simpa [HunkBuilder.addOldLine, openOld] using ho
            | some c => simpa [HunkBuilder.addOldLine] using hcur c rfl)
          (by
            rintro c ⟨⟩
            simp [HunkBuilder.addOldLine])
          (by cases cur <;> simp [openOld, HunkBuilder.addOldLine] at ho ⊢ <;> omega)
          hlast (by simpa [collectHunks] using hb)
      refine ⟨pre, post, ⟨.delete, v⟩ :: mid, rest, rfl, hend.cons (by simp), hs, hbne, ?_, ?_,
        hlast', hrest, fun sel hsel => ?_⟩
      · cases cur <;> simpa [openOld, HunkBuilder.addOldLine] using hpre
      · cases cur <;> simpa [openNew, HunkBuilder.addOldLine] using hpost
      · rw [← htext sel hsel]
        cases cur <;> by_cases hk : sel k <;>
          simp [selectText, openOld, openNew, HunkBuilder.addOldLine, hk]
    | insert =>
      obtain ⟨pre, post, mid, rest, rfl, hend, hs, hbne, hpre, hpost, hlast', hrest, htext⟩ :=
        ih o (n + 1) k m (some ((cur.getD ⟨o, n, [], []⟩).addNewLine v)) before after b
          (by
            rintro c ⟨⟩
            cases cur with
            | none => simpa [HunkBuilder.addNewLine, openOld] using ho
            | some c => simpa [HunkBuilder.addNewLine] using hcur c rfl)
          (by
            rintro c ⟨⟩
            simp [HunkBuilder.addNewLine])
          (by cases cur <;> simp [openOld, HunkBuilder.addNewLine] at ho ⊢ <;> omega)
          hlast (by simpa [collectHunks] using hb)
      refine ⟨pre, post, ⟨.insert, v⟩ :: mid, rest, rfl, hend.cons (by simp), hs, hbne, ?_, ?_,
        hlast', hrest, fun sel hsel => ?_⟩
      · cases cur <;> simpa [openOld, HunkBuilder.addNewLine] using hpre
      · cases cur <;> simpa [openNew, HunkBuilder.addNewLine] using hpost
      · rw [← htext sel hsel]
        cases cur <;> by_cases hk : sel k <;>
          simp [selectText, openOld, openNew, HunkBuilder.addNewLine, hk]

/-- The lines up to the last hunk hold no carriage return, and the unchanged
lines after it end in no carriage return and line feed. -/
def CrSafe (cs : List Change) : Prop :=
  ∃ front tail, cs = front ++ tail ∧ (∀ c ∈ tail, c.tag = .equal) ∧
    (∀ c ∈ front, '\r' ∉ c.value) ∧ NoCrLf (oldSide tail).flatten

/-- Lines cut out of the pieces of a text. -/
private theorem lineBlock_of_tokenizeLines {t : Text} {as ls bs : List Text}
    (h : as ++ ls ++ bs = tokenizeLines t) (hr : ∀ l ∈ ls, '\r' ∉ l) (hb : bs = [] → rest = []) :
    LineBlock ls rest := by
  rcases List.eq_nil_or_concat' ls with rfl | ⟨ks, x, rfl⟩
  · exact Or.inl (by simp)
  · have hk : ∀ k ∈ ks, IsLine k := by
      intro k hk
      refine isLine_of_mem_dropLast (t := t) ?_ (hr k (by simp [hk]))
      rw [← h, List.append_assoc, List.dropLast_append_of_ne_nil (by simp),
        List.append_assoc, List.dropLast_append_of_ne_nil (by simp)]
      simp [hk]
    have hx : x ∈ tokenizeLines t := by simp [← h]
    have hxr := hr x (by simp)
    rcases isLine_or_not_mem hx hxr with hline | hn
    · exact Or.inl (by simpa [or_imp, forall_and] using ⟨hk, hline⟩)
    · cases bs with
      | nil =>
        refine Or.inr ⟨hb rfl, ks, x, rfl, hk, ?_, hn⟩
        exact (tokenizeLines_piece hx).1
      | cons c bs =>
        have hline : IsLine x := by
          refine isLine_of_mem_dropLast (t := t) ?_ hxr
          rw [← h, List.dropLast_append_of_ne_nil (by simp)]
          simp
        exact Or.inl (by simpa [or_imp, forall_and] using ⟨hk, hline⟩)

private theorem mem_dropLast_of_append {as bs : List Text} {a : Text} (ha : a ∈ as)
    (hb : bs ≠ []) : a ∈ (as ++ bs).dropLast := by
  rw [List.dropLast_append_of_ne_nil hb]
  exact List.mem_append_left _ ha

private theorem not_mem_oldSide (h : ∀ c ∈ cs, '\r' ∉ c.value) :
    ∀ l ∈ oldSide cs, '\r' ∉ l := by
  intro l hl
  obtain ⟨c, hc, rfl⟩ := List.mem_map.mp hl
  exact h c (List.mem_of_mem_filter hc)

private theorem not_mem_newSide (h : ∀ c ∈ cs, '\r' ∉ c.value) :
    ∀ l ∈ newSide cs, '\r' ∉ l := by
  intro l hl
  obtain ⟨c, hc, rfl⟩ := List.mem_map.mp hl
  exact h c (List.mem_of_mem_filter hc)

/-- What ends in a hunk lies before the unchanged tail. -/
private theorem CrSafe.not_mem {mid rest : List Change} (h : CrSafe (mid ++ rest))
    (hend : EndsInHunk false mid) : ∀ c ∈ mid, '\r' ∉ c.value := by
  obtain ⟨front, tail, hcs, htail, hfront, -⟩ := h
  rcases List.append_eq_append_iff.mp hcs with ⟨x, rfl, -⟩ | ⟨x, rfl, rfl⟩
  · exact fun c hc => hfront c (by simp [hc])
  · cases x using List.reverseRecOn with
    | nil => simpa using hfront
    | append_singleton x c =>
      exfalso
      have hc : c.tag = .equal := htail c (by simp)
      simp [EndsInHunk, ← List.append_assoc, hc] at hend

variable {m : ℕ}

private theorem hunk_split (hv : ValidScript baseline current cs) (hr : CrSafe cs) {b : HunkBuilder}
    (hb : (collectHunks cs 1 1 none)[m]? = some b) :
    ∃ (pre : List Text) (rest : List Change), b.oldStart = pre.length + 1 ∧
      (∀ l ∈ pre, IsLine l) ∧
      (∀ sel, LineBlock b.oldLines (selectText sel (m + 1) false rest)) ∧
      (∀ sel, LineBlock b.newLines (selectText sel (m + 1) false rest)) ∧
      ∀ sel : ℕ → Bool, (∀ j, j < m → sel j = false) →
        selectText sel 0 false cs =
          pre.flatten ++ ((if sel m then b.newLines else b.oldLines).flatten ++
            selectText sel (m + 1) false rest) := by
  obtain ⟨pre, post, mid, rest, rfl, hend, hs, hbne, hpre, hpost, hlast, hrest, htext⟩ :=
    collectHunks_split cs 1 1 0 m none [] [] b (by simp) (by simp [OpenNonempty])
      (by simp [openOld]) rfl hb
  have hmid := hr.not_mem hend
  simp only [openOld, openNew, Option.map_none, Option.getD_none, List.nil_append,
    List.append_nil] at hpre hpost
  have hold : pre ++ b.oldLines ++ oldSide rest = tokenizeLines baseline := by
    rw [hpre, ← oldSide_append, hv.oldSide_eq]
  have hnew : post ++ b.newLines ++ newSide rest = tokenizeLines current := by
    rw [hpost, ← newSide_append, hv.newSide_eq]
  have holdcr : ∀ l ∈ pre ++ b.oldLines, '\r' ∉ l := hpre ▸ not_mem_oldSide hmid
  have hnewcr : ∀ l ∈ post ++ b.newLines, '\r' ∉ l := hpost ▸ not_mem_newSide hmid
  have hnil : ∀ sel : ℕ → Bool, oldSide rest = [] ∨ newSide rest = [] →
      selectText sel (m + 1) false rest = [] := by
    rintro sel h
    rcases hrest with rfl | ⟨v, rs, rfl⟩
    · rfl
    · simp at h
  refine ⟨pre, rest, hs, fun l hl => ?_, fun sel => ?_, fun sel => ?_, fun sel hsel => ?_⟩
  · have hlr := holdcr l (by simp [hl])
    by_cases hlater : b.oldLines ++ oldSide rest = []
    · have hnewne := hbne.resolve_left (by simp [(List.append_eq_nil_iff.mp hlater).1])
      obtain ⟨q, x, rfl⟩ := (List.eq_nil_or_concat' pre).resolve_left (List.ne_nil_of_mem hl)
      rcases List.mem_append.mp hl with hq | hx
      · refine isLine_of_mem_dropLast (t := baseline) ?_ hlr
        rw [← hold, List.append_assoc, List.append_assoc]
        exact mem_dropLast_of_append hq (by simp)
      · obtain rfl := List.mem_singleton.mp hx
        have hpostx : l ∈ post := List.mem_of_getLast? (by rw [← hlast]; simp)
        refine isLine_of_mem_dropLast (t := current) ?_ hlr
        rw [← hnew, List.append_assoc]
        exact mem_dropLast_of_append hpostx (by simp [hnewne])
    · refine isLine_of_mem_dropLast (t := baseline) ?_ hlr
      rw [← hold, List.append_assoc]
      exact mem_dropLast_of_append hl hlater
  · exact lineBlock_of_tokenizeLines hold (fun l hl => holdcr l (by simp [hl]))
      fun h => hnil sel (Or.inl h)
  · exact lineBlock_of_tokenizeLines hnew (fun l hl => hnewcr l (by simp [hl]))
      fun h => hnil sel (Or.inr h)
  · simpa [openOld, openNew] using htext sel fun j _ hj => hsel j (by omega)

/-- Patch a text with the new side of the selected hunks, from the last one to
the first. -/
private def patchAll (sel : ℕ → Bool) (bs : List (HunkBuilder × ℕ)) (text : Text) : Text :=
  bs.foldr (fun b t => if sel b.2 then
    patchLines t b.1.oldStart b.1.oldLines.length b.1.newLines.flatten else t) text

/-- Forget the selection before a position. -/
private def selFrom (m : ℕ) (sel : ℕ → Bool) : ℕ → Bool := fun j => decide (m ≤ j) && sel j

private theorem selectText_of_equal (h : ∀ c ∈ cs, c.tag = .equal)
    (sel : ℕ → Bool) (k : ℕ) (inHunk : Bool) :
    selectText sel k inHunk cs = (oldSide cs).flatten := by
  induction cs generalizing k inHunk with
  | nil => simp [selectText]
  | cons c cs ih =>
    obtain ⟨tag, v⟩ := c
    obtain rfl : tag = .equal := h ⟨tag, v⟩ (by simp)
    simp [selectText, ih fun c hc => h c (by simp [hc])]

/-- No mix of the two sides of a safe script holds a carriage return before a
line feed. -/
private theorem CrSafe.noCrLf_selectText (h : CrSafe cs) (sel : ℕ → Bool)
    (k : ℕ) (inHunk : Bool) : NoCrLf (selectText sel k inHunk cs) := by
  obtain ⟨front, tail, rfl, htail, hfront, hnl⟩ := h
  induction front generalizing k inHunk with
  | nil => rwa [List.nil_append, selectText_of_equal htail]
  | cons c front ih =>
    obtain ⟨tag, v⟩ := c
    have hv : '\r' ∉ v := hfront ⟨tag, v⟩ (by simp)
    have hfront' : ∀ c ∈ front, '\r' ∉ c.value := fun c hc => hfront c (by simp [hc])
    cases tag with
    | equal => exact NoCrLf.append hv (ih _ _ hfront')
    | delete | insert =>
      refine NoCrLf.append ?_ (ih _ _ hfront')
      split <;> simp [hv]

/-- When accepting one more hunk in front of the accepted ones is exact. -/
private theorem patch_step_iff
    (hv : ValidScript baseline current cs) (hr : CrSafe cs) {b : HunkBuilder}
    (hb : (collectHunks cs 1 1 none)[m]? = some b) (hm : sel m = true) :
    patchLines (selectText (selFrom (m + 1) sel) 0 false cs) b.oldStart b.oldLines.length
        b.newLines.flatten = selectText (selFrom m sel) 0 false cs ↔
      selectText (selFrom m sel) 0 false cs ≠ ['\n'] ∧
        (selectText (selFrom m sel) 0 false cs = [] ∨
          endsWithNewline (selectText (selFrom (m + 1) sel) 0 false cs) =
            endsWithNewline (selectText (selFrom m sel) 0 false cs)) := by
  obtain ⟨pre, rest, hs, hpre, hold, hnew, htext⟩ := hunk_split hv hr hb
  have hbefore := htext (selFrom (m + 1) sel) fun j hj => by
    simp only [selFrom, Bool.and_eq_false_imp, decide_eq_true_eq]
    omega
  have hafter := htext (selFrom m sel) fun j hj => by
    simp only [selFrom, Bool.and_eq_false_imp, decide_eq_true_eq]
    omega
  have hrest : selectText (selFrom (m + 1) sel) (m + 1) false rest =
      selectText (selFrom m sel) (m + 1) false rest := by
    refine selectText_congr (fun j hj => ?_) _ _
    simp only [selFrom, hj, decide_true, Bool.true_and, show m ≤ j by omega]
  have hm1 : selFrom (m + 1) sel m = false := by simp [selFrom]
  have hm0 : selFrom m sel m = true := by simp [selFrom, hm]
  rw [hm1, hrest] at hbefore
  rw [hm0] at hafter
  have hc := hr.noCrLf_selectText (selFrom m sel) 0 false
  simp only [if_true, Bool.false_eq_true, if_false] at hbefore hafter
  rw [hafter] at hc
  rw [hbefore, hafter, hs]
  exact patchLines_eq_iff hpre (hold _) (hnew _) hc

private theorem selFrom_zero (sel : ℕ → Bool) : selFrom 0 sel = sel := by
  funext j
  simp [selFrom]

private theorem selFrom_succ (h : sel m = false) :
    selFrom (m + 1) sel = selFrom m sel := by
  funext j
  by_cases hj : j = m
  · simp [selFrom, hj, h]
  · have : (m + 1 ≤ j) ↔ (m ≤ j) := by omega
    simp [selFrom, this]

private theorem patchAll_congr {sel' : ℕ → Bool} {j : ℕ} (h : ∀ i, j ≤ i → sel i = sel' i)
    (bs : List HunkBuilder) (text : Text) :
    patchAll sel (bs.zipIdx j) text = patchAll sel' (bs.zipIdx j) text := by
  induction bs generalizing j with
  | nil => rfl
  | cons b bs ih =>
    have hih := ih (j := j + 1) fun i hi => h i (by omega)
    simp only [patchAll, List.zipIdx_cons, List.foldr_cons] at hih ⊢
    rw [hih, h j le_rfl]

private theorem patchAll_skip (h : ∀ j, sel j = false)
    (bs : List (HunkBuilder × ℕ)) (text : Text) : patchAll sel bs text = text := by
  induction bs with
  | nil => rfl
  | cons b bs ih => simp [patchAll, h]

/-- The first selected hunk is patched last. -/
private theorem patchAll_step {bs : List HunkBuilder} {b : HunkBuilder}
    (hm : sel m = true) {j : ℕ} (hj : j ≤ m) (hb : bs[m - j]? = some b) (text : Text) :
    patchAll (selFrom m sel) (bs.zipIdx j) text =
      patchLines (patchAll (selFrom (m + 1) sel) (bs.zipIdx j) text) b.oldStart b.oldLines.length
        b.newLines.flatten := by
  induction bs generalizing j with
  | nil => simp at hb
  | cons c bs ih =>
    by_cases he : j = m
    · subst he
      obtain rfl : c = b := by simpa using hb
      have hc : patchAll (selFrom j sel) (bs.zipIdx (j + 1)) text =
          patchAll (selFrom (j + 1) sel) (bs.zipIdx (j + 1)) text :=
        patchAll_congr (fun i hi => by simp [selFrom, hi, show j ≤ i by omega]) bs text
      have hhead : selFrom j sel j = true := by simp [selFrom, hm]
      have hskip : selFrom (j + 1) sel j = false := by simp [selFrom]
      simp only [patchAll, List.zipIdx_cons, List.foldr_cons, hhead, hskip, if_true,
        Bool.false_eq_true, if_false] at hc ⊢
      rw [hc]
    · have hlt : j + 1 ≤ m := by omega
      have hb' : bs[m - (j + 1)]? = some b := by
        rw [show m - j = (m - (j + 1)) + 1 by omega] at hb
        simpa using hb
      have hih := ih hlt hb'
      have h0 : selFrom m sel j = false := by simp [selFrom, show ¬ m ≤ j by omega]
      have h1 : selFrom (m + 1) sel j = false := by simp [selFrom, show ¬ m + 1 ≤ j by omega]
      simpa only [patchAll, List.zipIdx_cons, List.foldr_cons, h0, h1, Bool.false_eq_true,
        if_false] using hih

/-- Without a difference in the final line feed and without a single line feed
among the texts of the script, patching is exact. -/
private theorem patchAll_eq (hv : ValidScript baseline current cs) (hr : CrSafe cs)
    (hflag : ∀ sel, endsWithNewline (selectText sel 0 false cs) = endsWithNewline baseline)
    (hnl : ∀ sel, selectText sel 0 false cs ≠ ['\n'])
    (hsel : ∀ k, sel k = true → k < (collectHunks cs 1 1 none).length) :
    patchAll sel (collectHunks cs 1 1 none).zipIdx baseline = selectText sel 0 false cs := by
  suffices h : ∀ d m, m + d = (collectHunks cs 1 1 none).length →
      patchAll (selFrom m sel) (collectHunks cs 1 1 none).zipIdx baseline =
        selectText (selFrom m sel) 0 false cs by
    simpa [selFrom_zero] using h _ 0 (Nat.zero_add _)
  intro d
  induction d with
  | zero =>
    intro m hm
    have hnone : ∀ j, selFrom m sel j = false := by
      intro j
      by_contra h
      simp only [selFrom, Bool.not_eq_false, Bool.and_eq_true, decide_eq_true_eq] at h
      have := hsel j h.2
      omega
    rw [patchAll_skip hnone, selectText_none hnone, hv.oldSide_eq]
    exact (flatten_splitAfter _ _).symm
  | succ d ih =>
    intro m hm
    have hih := ih (m + 1) (by omega)
    by_cases hs : sel m = true
    · have hlt : m < (collectHunks cs 1 1 none).length := hsel m hs
      have hb : (collectHunks cs 1 1 none)[m]? = some (collectHunks cs 1 1 none)[m] :=
        List.getElem?_eq_getElem hlt
      rw [patchAll_step hs (Nat.zero_le m) hb, hih]
      refine (patch_step_iff hv hr hb hs).mpr ⟨hnl _, Or.inr ?_⟩
      rw [hflag, hflag]
    · rw [← selFrom_succ (by simpa using hs), hih]

private theorem endsWithNewline_selectText (hne : ∀ c ∈ cs, c.value ≠ [])
    (sel : ℕ → Bool) (k : ℕ) (inHunk : Bool) (before old new : Text)
    (h : endsWithNewline (before ++ (old ++ (oldSide cs).flatten)) =
      endsWithNewline (before ++ (new ++ (newSide cs).flatten))) :
    endsWithNewline (before ++ ((if sel k then new else old) ++ selectText sel k inHunk cs)) =
      endsWithNewline (before ++ (old ++ (oldSide cs).flatten)) := by
  induction cs generalizing k inHunk before old new with
  | nil => by_cases hk : sel k <;> simp_all [selectText]
  | cons c cs ih =>
    obtain ⟨tag, v⟩ := c
    have hne' : ∀ c ∈ cs, c.value ≠ [] := fun c hc => hne c (by simp [hc])
    cases tag with
    | equal =>
      have hv : v ≠ [] := hne ⟨.equal, v⟩ (by simp)
      have hdrop : ∀ a b t : Text, endsWithNewline (a ++ (b ++ (v ++ t))) =
          endsWithNewline (v ++ t) := by
        intro a b t
        rw [← List.append_assoc]
        exact endsWithNewline_append _ (by simp [hv])
      simp only [oldSide_equal, newSide_equal, List.flatten_cons, selectText, hdrop] at h ⊢
      simpa using ih hne' (if inHunk = true then k + 1 else k) false v [] [] h
    | delete =>
      have hih := ih hne' k true before (old ++ v) new (by simpa using h)
      rw [oldSide_delete, List.flatten_cons]
      by_cases hk : sel k <;> simpa [selectText, hk] using hih
    | insert =>
      have hih := ih hne' k true before old (new ++ v) (by simpa using h)
      rw [oldSide_insert]
      by_cases hk : sel k <;> simpa [selectText, hk] using hih

/-- The two sides of a line of the script change places. -/
private def swapChange (c : Change) : Change :=
  match c.tag with
  | .equal => c
  | .delete => { c with tag := .insert }
  | .insert => { c with tag := .delete }

private def swapScript (cs : List Change) : List Change := cs.map swapChange

private def swapBuilder (b : HunkBuilder) : HunkBuilder :=
  ⟨b.newStart, b.oldStart, b.newLines, b.oldLines⟩

private theorem oldSide_swap (cs : List Change) : oldSide (swapScript cs) = newSide cs := by
  induction cs with
  | nil => rfl
  | cons c cs ih =>
    obtain ⟨tag, v⟩ := c
    rw [swapScript] at ih
    cases tag <;> simp [swapScript, swapChange, ih]

private theorem newSide_swap (cs : List Change) : newSide (swapScript cs) = oldSide cs := by
  induction cs with
  | nil => rfl
  | cons c cs ih =>
    obtain ⟨tag, v⟩ := c
    rw [swapScript] at ih
    cases tag <;> simp [swapScript, swapChange, ih]

private theorem selectText_swap (sel : ℕ → Bool) (k : ℕ) (inHunk : Bool) (cs : List Change) :
    selectText sel k inHunk (swapScript cs) = selectText (fun j => !sel j) k inHunk cs := by
  induction cs generalizing k inHunk with
  | nil => rfl
  | cons c cs ih =>
    obtain ⟨tag, v⟩ := c
    simp only [swapScript] at ih
    cases tag <;> by_cases hk : sel k <;> simp [swapScript, swapChange, selectText, ih, hk]

private theorem collectHunks_swap (cs : List Change) (o n : ℕ) (cur : Option HunkBuilder) :
    collectHunks (swapScript cs) n o (cur.map swapBuilder) =
      (collectHunks cs o n cur).map swapBuilder := by
  induction cs generalizing o n cur with
  | nil => cases cur <;> simp [swapScript, collectHunks]
  | cons c cs ih =>
    obtain ⟨tag, v⟩ := c
    simp only [swapScript] at ih
    cases tag with
    | equal =>
      have hih := ih (o + 1) (n + 1) none
      cases cur <;> simp_all [swapScript, swapChange, collectHunks]
    | delete =>
      have hih := ih (o + 1) n (some ((cur.getD ⟨o, n, [], []⟩).addOldLine v))
      cases cur <;> simpa [swapScript, swapChange, collectHunks, swapBuilder,
        HunkBuilder.addOldLine, HunkBuilder.addNewLine] using hih
    | insert =>
      have hih := ih o (n + 1) (some ((cur.getD ⟨o, n, [], []⟩).addNewLine v))
      cases cur <;> simpa [swapScript, swapChange, collectHunks, swapBuilder,
        HunkBuilder.addOldLine, HunkBuilder.addNewLine] using hih

private theorem ValidScript.swap
    (h : ValidScript baseline current cs) : ValidScript current baseline (swapScript cs) :=
  ⟨by rw [oldSide_swap, h.newSide_eq], by rw [newSide_swap, h.oldSide_eq]⟩

private theorem CrSafe.swap (h : CrSafe cs) : CrSafe (swapScript cs) := by
  obtain ⟨front, tail, rfl, htail, hfront, hnl⟩ := h
  have hsame : swapScript tail = tail := by
    rw [swapScript, List.map_congr_left (g := id)]
    · simp
    · intro c hc
      simp [swapChange, htail c hc]
  refine ⟨swapScript front, tail, ?_, htail, ?_, hnl⟩
  · rw [swapScript, List.map_append, ← swapScript, ← swapScript, hsame]
  · intro c hc
    obtain ⟨d, hd, rfl⟩ := List.mem_map.mp hc
    have hv := hfront d hd
    rw [swapChange]
    split <;> exact hv

/-- No line of a script is empty. -/
theorem ValidScript.value_ne_nil
    (h : ValidScript baseline current cs) : ∀ c ∈ cs, c.value ≠ [] := by
  intro c hc
  have hpiece : ∀ {t p : Text}, p ∈ tokenizeLines t → p ≠ [] := fun hp =>
    (tokenizeLines_piece hp).1
  by_cases ht : c.tag = .insert
  · refine hpiece (t := current) ?_
    rw [← h.newSide_eq]
    exact List.mem_map_of_mem (List.mem_filter.mpr ⟨hc, by simp [ht]⟩)
  · refine hpiece (t := baseline) ?_
    rw [← h.oldSide_eq]
    exact List.mem_map_of_mem (List.mem_filter.mpr ⟨hc, by simp [ht]⟩)

private theorem collectHunks_length_pos (cs : List Change) (o n : ℕ) (b : HunkBuilder) :
    0 < (collectHunks cs o n (some b)).length := by
  induction cs generalizing o n b with
  | nil => simp [collectHunks]
  | cons c cs ih =>
    obtain ⟨tag, v⟩ := c
    cases tag with
    | equal => simp [collectHunks]
    | delete => simpa [collectHunks] using ih (o + 1) n (b.addOldLine v)
    | insert => simpa [collectHunks] using ih o (n + 1) (b.addNewLine v)

/-- Only the selection of the hunks of the script matters. -/
private theorem selectText_congr_lt {sel' : ℕ → Bool} (cs : List Change) (o n k : ℕ)
    (cur : Option HunkBuilder)
    (h : ∀ j, k ≤ j → j < k + (collectHunks cs o n cur).length → sel j = sel' j) :
    selectText sel k cur.isSome cs = selectText sel' k cur.isSome cs := by
  induction cs generalizing o n k cur with
  | nil => rfl
  | cons c cs ih =>
    obtain ⟨tag, v⟩ := c
    cases tag with
    | equal =>
      have hih := ih (o + 1) (n + 1) (if cur.isSome then k + 1 else k) none
        fun j hj hlt => by
          cases cur <;> simp [collectHunks] at hj hlt h <;> exact h j (by omega) (by omega)
      simpa [selectText] using hih
    | delete =>
      have hlen := collectHunks_length_pos cs (o + 1) n
        ((cur.getD ⟨o, n, [], []⟩).addOldLine v)
      simp only [collectHunks] at h
      have hk := h k le_rfl (by omega)
      simpa [selectText, hk] using ih _ _ _ _ h
    | insert =>
      have hlen := collectHunks_length_pos cs o (n + 1)
        ((cur.getD ⟨o, n, [], []⟩).addNewLine v)
      simp only [collectHunks] at h
      have hk := h k le_rfl (by omega)
      simpa [selectText, hk] using ih _ _ _ _ h

private theorem selectText_all (h : ∀ k, sel k = true) (k : ℕ) (inHunk : Bool)
    (cs : List Change) : selectText sel k inHunk cs = (newSide cs).flatten := by
  induction cs generalizing k inHunk with
  | nil => simp [selectText]
  | cons c cs ih =>
    obtain ⟨tag, v⟩ := c
    cases tag <;> simp [selectText, h, ih]

/-- Selecting every hunk gives the new text. -/
private theorem ValidScript.selectText_hunks (hv : ValidScript baseline current cs) :
    selectText (fun j => decide (j < (collectHunks cs 1 1 none).length)) 0 false cs =
      current := by
  have hall : selectText (fun j => decide (j < (collectHunks cs 1 1 none).length)) 0 false cs =
      selectText (fun _ => true) 0 false cs :=
    selectText_congr_lt cs 1 1 0 none fun j _ hj => by simpa using hj
  refine hall.trans ?_
  rw [selectText_all (by simp), hv.newSide_eq]
  exact flatten_splitAfter _ _

/-- A text of the script is empty only when nothing is kept. -/
private theorem tag_ne_equal_of_selectText (hne : ∀ c ∈ cs, c.value ≠ [])
    {k : ℕ} {inHunk : Bool} (h : selectText sel k inHunk cs = []) :
    ∀ c ∈ cs, c.tag ≠ .equal := by
  induction cs generalizing k inHunk with
  | nil => simp
  | cons c cs ih =>
    obtain ⟨tag, v⟩ := c
    have hne' : ∀ c ∈ cs, c.value ≠ [] := fun c hc => hne c (by simp [hc])
    have hv : v ≠ [] := hne ⟨tag, v⟩ (by simp)
    cases tag with
    | equal => simp [selectText, hv] at h
    | delete | insert =>
      rw [selectText, List.append_eq_nil_iff] at h
      simpa using ih hne' h.2

/-- Without an equal line the script is one hunk. -/
private theorem selectText_of_ne_equal (h : ∀ c ∈ cs, c.tag ≠ .equal)
    (sel : ℕ → Bool) (k : ℕ) (inHunk : Bool) :
    selectText sel k inHunk cs =
      if sel k then (newSide cs).flatten else (oldSide cs).flatten := by
  induction cs generalizing inHunk with
  | nil => simp [selectText]
  | cons c cs ih =>
    obtain ⟨tag, v⟩ := c
    have hih := ih (fun c hc => h c (by simp [hc]))
    cases tag with
    | equal => exact absurd rfl (h ⟨.equal, v⟩ (by simp))
    | delete | insert => by_cases hk : sel k <;> simp [selectText, hih, hk]

/-- Patching gives the text of the script for every choice of its hunks. -/
private def PatchesTo (text : Text) (cs : List Change) : Prop :=
  ∀ sel : ℕ → Bool, (∀ k, sel k = true → k < (collectHunks cs 1 1 none).length) →
    patchAll sel (collectHunks cs 1 1 none).zipIdx text = selectText sel 0 false cs

private theorem selFrom_lt {len : ℕ} (h : ∀ k, sel k = true → k < len) :
    ∀ k, selFrom m sel k = true → k < len := by
  intro k hk
  simp only [selFrom, Bool.and_eq_true, decide_eq_true_eq] at hk
  exact h k hk.2

private theorem PatchesTo.step
    (hv : ValidScript baseline current cs) (hr : CrSafe cs) (h : PatchesTo baseline cs)
    (hsel : ∀ k, sel k = true → k < (collectHunks cs 1 1 none).length)
    (hm : sel m = true) :
    selectText (selFrom m sel) 0 false cs ≠ ['\n'] ∧
      (selectText (selFrom m sel) 0 false cs = [] ∨
        endsWithNewline (selectText (selFrom (m + 1) sel) 0 false cs) =
          endsWithNewline (selectText (selFrom m sel) 0 false cs)) := by
  have hlt : m < (collectHunks cs 1 1 none).length := hsel m hm
  have hb : (collectHunks cs 1 1 none)[m]? = some (collectHunks cs 1 1 none)[m] :=
    List.getElem?_eq_getElem hlt
  refine (patch_step_iff hv hr hb hm).mp ?_
  rw [← h _ (selFrom_lt hsel), ← h _ (selFrom_lt hsel)]
  exact (patchAll_step hm (Nat.zero_le m) hb baseline).symm

/-- Exact patching never has a single line feed to produce. -/
private theorem PatchesTo.ne_newline
    (hv : ValidScript baseline current cs) (hr : CrSafe cs) (h : PatchesTo baseline cs)
    (hsel : ∀ k, sel k = true → k < (collectHunks cs 1 1 none).length)
    (hex : ∃ k, sel k = true) : selectText sel 0 false cs ≠ ['\n'] := by
  have hm := Nat.find_spec hex
  have hfrom : selFrom (Nat.find hex) sel = sel := by
    funext j
    by_cases hj : Nat.find hex ≤ j
    · simp [selFrom, hj]
    · have : sel j = false := by simpa using Nat.find_min hex (by omega : j < Nat.find hex)
      simp [selFrom, this]
  simpa [hfrom] using (h.step hv hr hsel hm).1

/-- Exact patching to a text that ends differently has nothing to produce. -/
private theorem PatchesTo.eq_nil
    (hv : ValidScript baseline current cs) (hr : CrSafe cs) (h : PatchesTo baseline cs)
    (hne : endsWithNewline baseline ≠ endsWithNewline current) : current = [] := by
  set len := (collectHunks cs 1 1 none).length with hlen
  set sel : ℕ → Bool := fun j => decide (j < len) with hdef
  have hsel : ∀ k, sel k = true → k < len := fun k hk => by simpa [hdef] using hk
  have hlast : selectText (selFrom len sel) 0 false cs = baseline := by
    rw [selectText_none, hv.oldSide_eq]
    · exact flatten_splitAfter _ _
    · intro j
      simp only [selFrom, hdef, Bool.and_eq_false_imp, decide_eq_true_eq, decide_eq_false_iff_not]
      omega
  have hfirst : selectText (selFrom 0 sel) 0 false cs = current := by
    rw [selFrom_zero, hv.selectText_hunks]
  obtain ⟨m, hm, hbreak⟩ : ∃ m < len, endsWithNewline (selectText (selFrom (m + 1) sel) 0 false cs)
      ≠ endsWithNewline (selectText (selFrom m sel) 0 false cs) := by
    by_contra hcon
    push Not at hcon
    refine hne ?_
    rw [← hlast, ← hfirst]
    have : ∀ m ≤ len, endsWithNewline (selectText (selFrom m sel) 0 false cs) =
        endsWithNewline (selectText (selFrom 0 sel) 0 false cs) := by
      intro m
      induction m with
      | zero => simp
      | succ m ih => exact fun hm => (hcon m (by omega)).trans (ih (by omega))
    exact this len le_rfl
  have hnil := ((h.step hv hr hsel (m := m) (by simp [hdef, hm])).2).resolve_right hbreak
  have hnoeq := tag_ne_equal_of_selectText hv.value_ne_nil hnil
  cases m with
  | zero => rw [← hfirst, hnil]
  | succ m =>
    refine absurd ?_ hbreak
    rw [selectText_of_ne_equal hnoeq, selectText_of_ne_equal hnoeq]
    simp [selFrom]

private theorem patchLines_not_mem {content insertText : Text} (hc : NoLoneCr content)
    (hi : NoLoneCr insertText) (startLine removeCount : ℕ) :
    '\r' ∉ patchLines content startLine removeCount insertText := by
  have hjoin : ∀ k e, '\r' ∉ joinLines
      ((lines content).take k ++ lines insertText ++ (lines content).drop e) := by
    intro k e
    refine not_mem_joinLines (by decide) fun l hl => ?_
    simp only [List.mem_append] at hl
    rcases hl with (hl | hl) | hl
    · exact hc.not_mem_lines l (List.mem_of_mem_take hl)
    · exact hi.not_mem_lines l hl
    · exact hc.not_mem_lines l (List.mem_of_mem_drop hl)
  simp only [patchLines]
  split
  · simp only [List.mem_append, hjoin, List.mem_singleton, false_or]
    decide
  · exact hjoin _ _

private theorem patchAll_not_mem {bs : List (HunkBuilder × ℕ)} {text : Text}
    (ht : NoLoneCr text) (hb : ∀ b ∈ bs, NoLoneCr b.1.newLines.flatten)
    (hex : ∃ b ∈ bs, sel b.2 = true) : '\r' ∉ patchAll sel bs text := by
  have hall : ∀ bs : List (HunkBuilder × ℕ), (∀ b ∈ bs, NoLoneCr b.1.newLines.flatten) →
      NoLoneCr (patchAll sel bs text) ∧
        ((∃ b ∈ bs, sel b.2 = true) → '\r' ∉ patchAll sel bs text) := by
    intro bs hb
    induction bs with
    | nil => exact ⟨ht, by simp⟩
    | cons b bs ih =>
      obtain ⟨hn, hr⟩ := ih fun c hc => hb c (by simp [hc])
      by_cases hs : sel b.2 = true
      · have hnot := patchLines_not_mem hn (hb b (by simp)) b.1.oldStart b.1.oldLines.length
        have heq : patchAll sel (b :: bs) text = patchLines (patchAll sel bs text) b.1.oldStart
            b.1.oldLines.length b.1.newLines.flatten := by
          simp [patchAll, hs]
        rw [heq]
        exact ⟨NoLoneCr.of_not_mem hnot, fun _ => hnot⟩
      · have heq : patchAll sel (b :: bs) text = patchAll sel bs text := by
          simp [patchAll, hs]
        rw [heq]
        refine ⟨hn, fun hex => hr ?_⟩
        simpa [hs] using hex
  exact (hall bs hb).2 hex

private theorem oldSide_eq_newSide {o n : ℕ}
    (h : collectHunks cs o n none = []) : oldSide cs = newSide cs := by
  induction cs generalizing o n with
  | nil => rfl
  | cons c cs ih =>
    obtain ⟨tag, v⟩ := c
    cases tag with
    | equal =>
      have hih := ih (o := o + 1) (n := n + 1) (by simpa [collectHunks] using h)
      simp [hih]
    | delete =>
      have hpos := collectHunks_length_pos cs (o + 1) n (HunkBuilder.addOldLine ⟨o, n, [], []⟩ v)
      simp [collectHunks] at h
      simp [h] at hpos
    | insert =>
      have hpos := collectHunks_length_pos cs o (n + 1) (HunkBuilder.addNewLine ⟨o, n, [], []⟩ v)
      simp [collectHunks] at h
      simp [h] at hpos

/-- Different texts have a hunk. -/
private theorem ValidScript.length_pos
    (hv : ValidScript baseline current cs) (hne : baseline ≠ current) :
    0 < (collectHunks cs 1 1 none).length := by
  refine List.length_pos_iff.mpr fun h => hne ?_
  have htokens : tokenizeLines baseline = tokenizeLines current := by
    rw [← hv.oldSide_eq, ← hv.newSide_eq, oldSide_eq_newSide h]
  rw [← flatten_splitAfter stopCrLf baseline, ← flatten_splitAfter stopCrLf current]
  exact congrArg List.flatten htokens

/-- Exact patching of texts without lone carriage returns has none to produce. -/
private theorem PatchesTo.not_mem
    (hv : ValidScript baseline current cs) (hne : baseline ≠ current) (hb : NoLoneCr baseline)
    (hc : NoLoneCr current) (h : PatchesTo baseline cs) : '\r' ∉ current := by
  have hpos := hv.length_pos hne
  rw [← hv.selectText_hunks, ← h _ fun k hk => by simpa using hk]
  refine patchAll_not_mem hb (fun b hb => NoLoneCr.flatten fun l hl => ?_) ?_
  · obtain ⟨m, hm⟩ := List.getElem?_of_mem (List.fst_mem_of_mem_zipIdx hb)
    obtain ⟨pre, post, mid, rest, hcs, -, -, -, -, hpost, -⟩ :=
      collectHunks_split cs 1 1 0 m none [] [] b.1 (by simp)
        (by simp [OpenNonempty]) (by simp [openOld]) rfl hm
    refine hc.tokenizeLines ?_
    rw [← hv.newSide_eq, hcs, newSide_append]
    simp only [openNew, Option.map_none, Option.getD_none, List.nil_append] at hpost
    rw [← hpost]
    simp [hl]
  · refine ⟨((collectHunks cs 1 1 none)[0], 0), ?_, by simpa using hpos⟩
    exact List.mem_zipIdx_iff_getElem?.mpr (by simp)

/-- When accepting and rejecting hunks is exact: nothing changes, or no carriage
return stands at or before the last hunk, no line after it ends in a carriage
return and line feed, both texts agree on the final line feed, and no mix of
the two is a single line feed. -/
def PatchSafe (baseline current : Text) (cs : List Change) : Prop :=
  baseline = current ∨
    CrSafe cs ∧ endsWithNewline baseline = endsWithNewline current ∧
      ∀ sel, selectText sel 0 false cs ≠ ['\n']

private theorem PatchSafe.patchesTo
    (hv : ValidScript baseline current cs) (hne : baseline ≠ current)
    (h : PatchSafe baseline current cs) :
    PatchesTo baseline cs ∧ PatchesTo current (swapScript cs) := by
  obtain ⟨hcr, hflag, hnl⟩ := h.resolve_left hne
  have hold : (oldSide cs).flatten = baseline := by
    rw [hv.oldSide_eq]
    exact flatten_splitAfter _ _
  have hnew : (newSide cs).flatten = current := by
    rw [hv.newSide_eq]
    exact flatten_splitAfter _ _
  have hends : ∀ sel, endsWithNewline (selectText sel 0 false cs) = endsWithNewline baseline := by
    intro sel
    simpa [hold] using endsWithNewline_selectText hv.value_ne_nil sel 0 false [] [] []
      (by simpa [hold, hnew] using hflag)
  refine ⟨fun sel hsel => patchAll_eq hv hcr hends hnl hsel, fun sel hsel => ?_⟩
  refine patchAll_eq hv.swap hcr.swap (fun sel => ?_) (fun sel => ?_) hsel
  · rw [selectText_swap, hends, hflag]
  · rw [selectText_swap]
    exact hnl _

private theorem CrSafe.of_not_mem
    (hv : ValidScript baseline current cs) (hb : '\r' ∉ baseline) (hc : '\r' ∉ current) :
    CrSafe cs := by
  refine ⟨cs, [], by simp, by simp, fun c hmem hr => ?_, NoCrLf.of_not_mem (by simp)⟩
  by_cases ht : c.tag = .insert
  · refine hc ?_
    rw [← flatten_splitAfter stopCrLf current]
    refine List.mem_flatten.mpr ⟨c.value, ?_, hr⟩
    rw [← tokenizeLines, ← hv.newSide_eq]
    exact List.mem_map_of_mem (List.mem_filter.mpr ⟨hmem, by simp [ht]⟩)
  · refine hb ?_
    rw [← flatten_splitAfter stopCrLf baseline]
    refine List.mem_flatten.mpr ⟨c.value, ?_, hr⟩
    rw [← tokenizeLines, ← hv.oldSide_eq]
    exact List.mem_map_of_mem (List.mem_filter.mpr ⟨hmem, by simp [ht]⟩)

private theorem patchSafe_of_patchesTo
    (hv : ValidScript baseline current cs) (hb : NoLoneCr baseline) (hc : NoLoneCr current)
    (haccept : PatchesTo baseline cs) (hreject : PatchesTo current (swapScript cs)) :
    PatchSafe baseline current cs := by
  by_cases hne : baseline = current
  · exact Or.inl hne
  · have hcr := CrSafe.of_not_mem hv (hreject.not_mem hv.swap (Ne.symm hne) hc hb)
      (haccept.not_mem hv hne hb hc)
    refine Or.inr ⟨hcr, ?_, fun sel => ?_⟩
    · by_contra hflag
      have hcurrent := haccept.eq_nil hv hcr hflag
      have hbaseline := hreject.eq_nil hv.swap hcr.swap (Ne.symm hflag)
      exact hne (hbaseline.trans hcurrent.symm)
    · set len := (collectHunks cs 1 1 none).length with hlen
      have hpos : 0 < len := hv.length_pos hne
      have hcongr : selectText sel 0 false cs =
          selectText (fun j => decide (j < len) && sel j) 0 false cs :=
        selectText_congr_lt cs 1 1 0 none fun j _ hj => by
          simp [show j < len by omega]
      rw [hcongr]
      by_cases hex : ∃ k, (decide (k < len) && sel k) = true
      · exact haccept.ne_newline hv hcr (fun k hk => by simp at hk; exact hk.1) hex
      · have hswap : (collectHunks (swapScript cs) 1 1 none).length = len := by
          simpa using congrArg List.length (collectHunks_swap cs 1 1 none)
        have hnot : selectText (fun j => decide (j < len)) 0 false (swapScript cs) ≠ ['\n'] :=
          hreject.ne_newline hv.swap hcr.swap (fun k hk => by simpa [hswap] using hk)
            ⟨0, by simpa using hpos⟩
        rw [selectText_swap] at hnot
        have hsame : selectText (fun j => !decide (j < len)) 0 false cs =
            selectText (fun j => decide (j < len) && sel j) 0 false cs := by
          refine selectText_congr_lt cs 1 1 0 none fun j _ hj => ?_
          have hj' : j < len := by omega
          have hsel : sel j = false := by simpa [hj'] using not_exists.mp hex j
          simp [hj', hsel]
        rwa [hsame] at hnot

private theorem insertionSort_of_lt {key : Hunk → ℕ} {hs : List Hunk}
    (h : hs.Pairwise fun a b => key a < key b) :
    hs.insertionSort (fun a b => key b ≤ key a) = hs.reverse := by
  induction hs with
  | nil => rfl
  | cons a hs ih =>
    obtain ⟨ha, hs'⟩ := List.pairwise_cons.mp h
    have hins : ∀ ks : List Hunk, (∀ k ∈ ks, key a < key k) →
        ks.orderedInsert (fun a b => key b ≤ key a) a = ks ++ [a] := by
      intro ks hk
      induction ks with
      | nil => rfl
      | cons k ks ih =>
        have hka := hk k (by simp)
        have hih := ih fun k hk' => hk k (by simp [hk'])
        rw [List.orderedInsert, if_neg (by omega), hih, List.cons_append]
    rw [List.insertionSort_cons, ih hs', hins _ (by simpa using ha), List.reverse_cons]

private theorem pickHunks_buildHunks (sel : ℕ → Bool) (path : Path) (source : HunkSource)
    (bs : List HunkBuilder) (uuid : ℕ) :
    pickHunks sel (buildHunks path source bs uuid) =
      (bs.zipIdx.filter fun b => sel b.2).map fun b => b.1.build path source (uuid + b.2) := by
  have hzip : (buildHunks path source bs uuid).zipIdx =
      bs.zipIdx.map fun b => (b.1.build path source (uuid + b.2), b.2) := by
    refine List.ext_getElem (by simp [buildHunks]) fun i h h' => ?_
    simp [buildHunks]
  rw [pickHunks, hzip, List.filter_map, List.map_map]
  rfl

private theorem pairwise_pick {bs : List HunkBuilder} {key : Hunk → ℕ} {start : HunkBuilder → ℕ}
    {path : Path} {source : HunkSource} (hkey : ∀ b id, key (b.build path source id) = start b)
    (h : bs.Pairwise fun a b => start a < start b) (sel : ℕ → Bool) (uuid : ℕ) :
    (pickHunks sel (buildHunks path source bs uuid)).Pairwise fun a b => key a < key b := by
  rw [pickHunks_buildHunks, List.pairwise_map]
  have hzip : bs.zipIdx.Pairwise fun a b => start a.1 < start b.1 := by
    rw [← List.zipIdx_map_fst 0 bs, List.pairwise_map] at h
    exact h
  simpa only [hkey] using hzip.filter _

private theorem acceptPatches_pick (sel : ℕ → Bool) (path : Path) (source : HunkSource)
    (cs : List Change) (uuid : ℕ) (text : Text) :
    acceptPatches text (pickHunks sel (buildHunks path source (collectHunks cs 1 1 none) uuid)) =
      patchAll sel (collectHunks cs 1 1 none).zipIdx text := by
  have hp : (pickHunks sel (buildHunks path source (collectHunks cs 1 1 none) uuid)).Pairwise
      fun a b => a.lineInfo.oldStart < b.lineInfo.oldStart :=
    pairwise_pick (fun _ _ => rfl) ((collectHunks_sorted cs).imp And.left) sel uuid
  rw [acceptPatches, insertionSort_of_lt hp, List.foldl_reverse, pickHunks_buildHunks,
    List.foldr_map, List.foldr_filter]
  rfl

private theorem rejectPatches_pick (sel : ℕ → Bool) (path : Path) (source : HunkSource)
    (cs : List Change) (uuid : ℕ) (text : Text) :
    rejectPatches text (pickHunks sel (buildHunks path source (collectHunks cs 1 1 none) uuid)) =
      patchAll sel (collectHunks (swapScript cs) 1 1 none).zipIdx text := by
  have hswap : collectHunks (swapScript cs) 1 1 none =
      (collectHunks cs 1 1 none).map swapBuilder := by
    simpa using collectHunks_swap cs 1 1 none
  have hp : (pickHunks sel (buildHunks path source (collectHunks cs 1 1 none) uuid)).Pairwise
      fun a b => a.lineInfo.newStart < b.lineInfo.newStart :=
    pairwise_pick (fun _ _ => rfl) ((collectHunks_sorted cs).imp And.right) sel uuid
  rw [rejectPatches, insertionSort_of_lt hp, List.foldl_reverse, pickHunks_buildHunks,
    List.foldr_map, List.foldr_filter, hswap, patchAll, List.zipIdx_map, List.foldr_map]
  refine List.foldr_ext _ _ _ fun b _ t => ?_
  have hold : (b.1.build path source (uuid + b.2)).oldText.getD [] = b.1.oldLines.flatten := by
    by_cases he : b.1.oldLines = [] <;> simp [HunkBuilder.build, he]
  simp only [hold]
  rfl

/-- A tracked file with full texts on both sides whose hunks are those of the
edit script between them. -/
structure DiffedFile (env : Env) (s : HunkTrackerActor) (path : Path) (baseline current : Text)
    (cs : List Change) (hunks : List Hunk) : Prop where
  tracked : ∃ isAgentFile baselineAccepted, s.fileStates.lookup path =
    some ⟨.full baseline, .full current, hunks, isAgentFile, baselineAccepted⟩
  hunks_eq : ∃ source uuid, hunks = computeHunks env.diffLines path baseline current source uuid
  diff_eq : env.diffLines baseline current = some cs
  valid : ValidScript baseline current cs
  baseline_le : utf8Len baseline ≤ maxDiffFileSize
  current_le : utf8Len current ≤ maxDiffFileSize

/-- For every choice of hunks, accepting them leaves the text with their new
side and the old side elsewhere as the baseline, and rejecting them writes the
text with their old side and the new side elsewhere to disk. -/
def AcceptRejectExact (env : Env) (s : HunkTrackerActor) (path : Path) (cs : List Change)
    (hunks : List Hunk) : Prop :=
  ∀ sel : ℕ → Bool, (∀ k, sel k = true → k < hunks.length) →
    ((s.acceptHunksBatch env path (pickHunks sel hunks)).fileStates.lookup path).map
        FileHunkState.baseline = some (.full (selectText sel 0 false cs)) ∧
      (pickHunks sel hunks ≠ [] →
        (s.rejectHunksBatch env path (pickHunks sel hunks)).2 = .ok () ∧
        (s.rejectHunksBatch env path (pickHunks sel hunks)).1.disk path =
          (s.disk path).write (selectText (fun k => !sel k) 0 false cs) ∧
        ((s.rejectHunksBatch env path (pickHunks sel hunks)).1.fileStates.lookup path).map
          FileHunkState.currentContent = some (.full (selectText (fun k => !sel k) 0 false cs)))

private theorem baseline_recomputeHunks (s : HunkTrackerActor) (env : Env) (path : Path)
    (newCurrent : Option FileContentState) (source : HunkSource) :
    ((s.recomputeHunks env path newCurrent source).fileStates.lookup path).map
      FileHunkState.baseline = (s.fileStates.lookup path).map FileHunkState.baseline := by
  cases h : s.fileStates.lookup path with
  | none => rw [HunkTrackerActor.recomputeHunks_of_none h, h]
  | some state => simp [HunkTrackerActor.recomputeHunks_of_some h]

private theorem disk_recomputeHunks (s : HunkTrackerActor) (env : Env) (path : Path)
    (newCurrent : Option FileContentState) (source : HunkSource) :
    (s.recomputeHunks env path newCurrent source).disk = s.disk := by
  cases h : s.fileStates.lookup path with
  | none => rw [HunkTrackerActor.recomputeHunks_of_none h]
  | some state => rw [HunkTrackerActor.recomputeHunks_of_some h]

section Batch

variable {env : Env} {s : HunkTrackerActor} {path : Path} {baseline current : Text}
  {cs : List Change} {hunks : List Hunk}

private theorem DiffedFile.baseline_accept (h : DiffedFile env s path baseline current cs hunks)
    (picked : List Hunk) :
    ((s.acceptHunksBatch env path picked).fileStates.lookup path).map FileHunkState.baseline =
      some (.full (acceptPatches baseline picked)) := by
  obtain ⟨isAgentFile, baselineAccepted, hlookup⟩ := h.tracked
  by_cases he : picked = []
  · subst he
    simp [HunkTrackerActor.acceptHunksBatch, hlookup, acceptPatches]
  · rw [HunkTrackerActor.acceptHunksBatch, if_neg he, hlookup]
    simp only
    rw [baseline_recomputeHunks]
    simp [HunkTrackerActor.sendEvents, HunkTrackerActor.setFile]

private theorem DiffedFile.disk_reject (h : DiffedFile env s path baseline current cs hunks)
    (hw : env.writeFails path = false) {picked : List Hunk} (hne : picked ≠ []) :
    (s.rejectHunksBatch env path picked).2 = .ok () ∧
      (s.rejectHunksBatch env path picked).1.disk path =
        (s.disk path).write (rejectPatches current picked) ∧
      ((s.rejectHunksBatch env path picked).1.fileStates.lookup path).map
        FileHunkState.currentContent = some (.full (rejectPatches current picked)) := by
  obtain ⟨isAgentFile, baselineAccepted, hlookup⟩ := h.tracked
  rw [HunkTrackerActor.rejectHunksBatch, if_neg hne, hlookup]
  simp only [rejectAction, hw, Bool.false_eq_true, if_false]
  refine ⟨trivial, ?_, ?_⟩
  · rw [disk_recomputeHunks]
    simp [HunkTrackerActor.sendEvents, HunkTrackerActor.setFile, HunkTrackerActor.writeDisk]
  · rw [HunkTrackerActor.recomputeHunks_of_some
      (AList.lookup_insert (s.writeDisk path (rejectPatches current picked)).fileStates)]
    simp

private theorem pickHunks_eq_nil {sel : ℕ → Bool} (hsel : ∀ k, sel k = true → k < hunks.length)
    (h : pickHunks sel hunks = []) : ∀ k, sel k = false := by
  intro k
  by_contra hk
  have hlt := hsel k (by simpa using hk)
  have hmem : (hunks[k], k) ∈ hunks.zipIdx.filter fun h => sel h.2 :=
    List.mem_filter.mpr ⟨List.mem_zipIdx_iff_getElem?.mpr (by simp), by simpa using hk⟩
  rw [pickHunks, List.map_eq_nil_iff] at h
  simp [h] at hmem

/-- What accepting and rejecting must give, on the level of the edit script. -/
private theorem DiffedFile.exact_iff (h : DiffedFile env s path baseline current cs hunks)
    (hw : env.writeFails path = false) (hne : baseline ≠ current) :
    AcceptRejectExact env s path cs hunks ↔
      PatchesTo baseline cs ∧ PatchesTo current (swapScript cs) := by
  obtain ⟨source, uuid, hhunks⟩ := h.hunks_eq
  have hbuild : hunks = buildHunks path source (collectHunks cs 1 1 none) uuid := by
    have hsize : ¬(utf8Len baseline > maxDiffFileSize ∨ utf8Len current > maxDiffFileSize) := by
      have := h.baseline_le
      have := h.current_le
      omega
    rw [hhunks, computeHunks, if_neg hne, if_neg hsize, h.diff_eq]
  have hlen : hunks.length = (collectHunks cs 1 1 none).length := by
    simp [hbuild, buildHunks]
  have hswap : (collectHunks (swapScript cs) 1 1 none).length = hunks.length := by
    rw [hlen]
    simpa using congrArg List.length (collectHunks_swap cs 1 1 none)
  constructor
  · intro hexact
    constructor
    · intro sel hsel
      have ha := (hexact sel (by rwa [hlen])).1
      rw [h.baseline_accept, hbuild, acceptPatches_pick] at ha
      simpa using ha
    · intro sel hsel
      have hsel' : ∀ k, sel k = true → k < hunks.length := by rwa [← hswap]
      rw [selectText_swap]
      by_cases hp : pickHunks sel hunks = []
      · have hnone := pickHunks_eq_nil hsel' hp
        rw [patchAll_skip hnone, selectText_all (by simp [hnone]), h.valid.newSide_eq]
        exact (flatten_splitAfter _ _).symm
      · have hr := ((hexact sel hsel').2 hp).2.2
        rw [(h.disk_reject hw hp).2.2, hbuild, rejectPatches_pick] at hr
        simpa using hr
  · rintro ⟨haccept, hreject⟩ sel hsel
    refine ⟨?_, fun hp => ?_⟩
    · rw [h.baseline_accept, hbuild, acceptPatches_pick, haccept sel (by rwa [← hlen])]
    · have hr := hreject sel (by rwa [hswap])
      rw [selectText_swap, ← rejectPatches_pick sel path source cs uuid, ← hbuild] at hr
      rw [← hr]
      exact h.disk_reject hw hp

/-- Accepting and rejecting hunks is exact for safe texts, and only for these
when no carriage return stands alone. -/
theorem acceptReject_exact_iff (h : DiffedFile env s path baseline current cs hunks)
    (hw : env.writeFails path = false) :
    (PatchSafe baseline current cs → AcceptRejectExact env s path cs hunks) ∧
      (NoLoneCr baseline → NoLoneCr current → AcceptRejectExact env s path cs hunks →
        PatchSafe baseline current cs) := by
  by_cases hne : baseline = current
  · refine ⟨fun _ sel hsel => ?_, fun _ _ _ => Or.inl hne⟩
    obtain ⟨source, uuid, hhunks⟩ := h.hunks_eq
    have hnil : hunks = [] := by rw [hhunks, computeHunks, if_pos hne]
    have hpick : pickHunks sel hunks = [] := by simp [hnil, pickHunks]
    refine ⟨?_, fun hp => absurd hpick hp⟩
    rw [h.baseline_accept, hpick, selectText_none (pickHunks_eq_nil hsel hpick),
      h.valid.oldSide_eq]
    simp [acceptPatches, tokenizeLines, flatten_splitAfter]
  · rw [h.exact_iff hw hne]
    exact ⟨fun hs => hs.patchesTo h.valid hne,
      fun hb hc hp => patchSafe_of_patchesTo h.valid hb hc hp.1 hp.2⟩

end Batch

/-- An actor that tracks one file whose lines were all replaced. -/
def replacedFile (path : Path) (baseline current : Text) : HunkTrackerActor :=
  (HunkTrackerActor.new [] .allDirty (fun _ => .missing) 1).setFile path
    ⟨.full baseline, .full current,
      computeHunks replaceLines path baseline current .external 0, false, false⟩

private theorem oldSide_replaceLines (ls ks : List Text) :
    oldSide (ls.map (Change.mk .delete) ++ ks.map (Change.mk .insert)) = ls := by
  simp [oldSide, List.filter_map, Function.comp_def]

private theorem newSide_replaceLines (ls ks : List Text) :
    newSide (ls.map (Change.mk .delete) ++ ks.map (Change.mk .insert)) = ks := by
  simp [newSide, List.filter_map, Function.comp_def]

/-- A file whose lines were all replaced. -/
theorem replacedFile_diffed (path : Path)
    (hb : utf8Len baseline ≤ maxDiffFileSize) (hc : utf8Len current ≤ maxDiffFileSize) :
    DiffedFile (Env.plain replaceLines) (replacedFile path baseline current) path baseline current
      ((tokenizeLines baseline).map (Change.mk .delete) ++
        (tokenizeLines current).map (Change.mk .insert))
      (computeHunks replaceLines path baseline current .external 0) where
  tracked := ⟨false, false, by simp [replacedFile, HunkTrackerActor.setFile]⟩
  hunks_eq := ⟨.external, 0, rfl⟩
  diff_eq := rfl
  valid := ⟨oldSide_replaceLines _ _, newSide_replaceLines _ _⟩
  baseline_le := hb
  current_le := hc

/-- Replacing one line feed terminated line by another is exact. -/
theorem acceptReject_exact_lf :
    AcceptRejectExact (Env.plain replaceLines) (replacedFile [] ['a', '\n'] ['b', '\n']) []
      [⟨.delete, ['a', '\n']⟩, ⟨.insert, ['b', '\n']⟩]
      (computeHunks replaceLines [] ['a', '\n'] ['b', '\n'] .external 0) := by
  refine (acceptReject_exact_iff (replacedFile_diffed [] (by decide) (by decide)) rfl).1
    (Or.inr ⟨⟨_, [], (List.append_nil _).symm, by simp, by decide, NoCrLf.of_not_mem (by simp)⟩,
      by decide, fun sel => ?_⟩)
  cases h : sel 0 <;> simp [selectText, tokenizeLines, splitAfter, stopCrLf, consHead, h]

/-- Accepting the replacement of one line that ends in a carriage return and
line feed by another drops the carriage return. -/
theorem acceptReject_crlf_not_exact :
    DiffedFile (Env.plain replaceLines) (replacedFile [] ['a', '\r', '\n'] ['b', '\r', '\n']) []
        ['a', '\r', '\n'] ['b', '\r', '\n']
        [⟨.delete, ['a', '\r', '\n']⟩, ⟨.insert, ['b', '\r', '\n']⟩]
        (computeHunks replaceLines [] ['a', '\r', '\n'] ['b', '\r', '\n'] .external 0) ∧
      ¬AcceptRejectExact (Env.plain replaceLines)
        (replacedFile [] ['a', '\r', '\n'] ['b', '\r', '\n']) []
        [⟨.delete, ['a', '\r', '\n']⟩, ⟨.insert, ['b', '\r', '\n']⟩]
        (computeHunks replaceLines [] ['a', '\r', '\n'] ['b', '\r', '\n'] .external 0) := by
  refine ⟨replacedFile_diffed [] (by decide) (by decide), fun h => ?_⟩
  have ha := (h (fun k => decide (k = 0)) fun k hk => by
    obtain rfl : k = 0 := by simpa using hk
    decide).1
  revert ha
  decide

end Ezer.HunkTracker
