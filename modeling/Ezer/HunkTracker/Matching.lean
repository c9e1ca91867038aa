import Ezer.HunkTracker.Invariant

/-!
# Matching old and new hunks

A recomputation gives each new hunk the id of its best match, the nearest old
hunk with the same content or else the one it overlaps most, if no hunk before
it has the same. The matching looks at paths, positions and texts only.
-/

namespace Ezer.HunkTracker

open Ezer.Lib

/-- What a subscriber shows of a hunk. -/
structure HunkView where
  lineInfo : HunkLineInfo
  oldText : Option Text
  newText : Text
  deriving DecidableEq

def Hunk.view (h : Hunk) : HunkView := ⟨h.lineInfo, h.oldText, h.newText⟩

/-- The first old hunk with the content of a new one, which decides its event. -/
def firstMatch (old : List Hunk) (n : Hunk) : Option Hunk :=
  old.find? fun o => hunksMatchContent o n

/-- A new hunk overlaps or repeats an old one. -/
def related (o n : Hunk) : Bool := hunksOverlap o n || hunksMatchContent o n

/-- A hunk as the matching rules see it, without id and source. -/
def Hunk.anonymous (h : Hunk) : Hunk := { h with id := 0, source := .external }

theorem map_anonymous_claimIds (old : List Hunk) (claimed : List HunkId) (fresh : List Hunk) :
    (claimIds old claimed fresh).map Hunk.anonymous = fresh.map Hunk.anonymous := by
  induction fresh generalizing claimed with
  | nil => rfl
  | cons n fresh ih =>
    rw [claimIds]
    split
    · split
      · rw [List.map_cons, List.map_cons, ih]
      · rw [List.map_cons, List.map_cons, ih]
        rfl
    · rw [List.map_cons, List.map_cons, ih]

theorem map_view_claimIds (old : List Hunk) (claimed : List HunkId) (fresh : List Hunk) :
    (claimIds old claimed fresh).map Hunk.view = fresh.map Hunk.view := by
  have h := congrArg (List.map Hunk.view) (map_anonymous_claimIds old claimed fresh)
  rwa [List.map_map, List.map_map] at h

theorem sorted_claimIds (old : List Hunk) (claimed : List HunkId) {fresh : List Hunk}
    (h : fresh.Pairwise fun a b => a.lineInfo.newStart < b.lineInfo.newStart) :
    (claimIds old claimed fresh).Pairwise
      fun a b => a.lineInfo.newStart < b.lineInfo.newStart := by
  have hmap := congrArg (List.map fun v : HunkView => v.lineInfo.newStart)
    (map_view_claimIds old claimed fresh)
  rw [List.map_map, List.map_map] at hmap
  rw [← List.pairwise_map (f := fun k : Hunk => k.lineInfo.newStart)] at h ⊢
  exact hmap ▸ h

section Match

variable {old : List Hunk} {n m o b : Hunk}

theorem hunksMatchContent_iff :
    hunksMatchContent o n = true ↔ o.path = n.path ∧ o.oldText = n.oldText ∧
      o.newText = n.newText := by
  simp [hunksMatchContent, and_assoc]

theorem firstMatch_congr (h : hunksMatchContent n m = true) :
    firstMatch old n = firstMatch old m := by
  obtain ⟨hpath, hold, hnew⟩ := hunksMatchContent_iff.mp h
  unfold firstMatch hunksMatchContent
  rw [hpath, hold, hnew]

theorem firstMatch_mem (h : firstMatch old n = some o) :
    o ∈ old ∧ hunksMatchContent o n = true :=
  ⟨List.mem_of_find?_eq_some h, List.find?_some (p := fun o => hunksMatchContent o n) h⟩

/-- A new hunk that repeats an old one has a best match with the same content. -/
theorem exists_best_of_firstMatch (h : firstMatch old n = some o) :
    ∃ b, findMatchingOldHunk n old = some b ∧ b ∈ old ∧ hunksMatchContent b n = true ∧
      ∀ c ∈ old, hunksMatchContent c n = true →
        absDiff b.lineInfo.newStart n.lineInfo.newStart ≤
          absDiff c.lineInfo.newStart n.lineInfo.newStart := by
  obtain ⟨ho, hmatch⟩ := firstMatch_mem h
  have hne : (old.filter fun o => hunksMatchContent o n) ≠ [] :=
    List.ne_nil_of_mem (List.mem_filter.mpr ⟨ho, hmatch⟩)
  unfold findMatchingOldHunk
  simp only [ne_eq, hne, not_false_eq_true, if_true]
  cases hb : (old.filter fun o => hunksMatchContent o n).argmin
      (fun o => absDiff o.lineInfo.newStart n.lineInfo.newStart) with
  | none => exact absurd (List.argmin_eq_none.mp hb) hne
  | some b =>
    obtain ⟨hmem, hcontent⟩ := List.mem_filter.mp (List.argmin_mem hb)
    refine ⟨b, rfl, hmem, hcontent, fun c hc hcn => ?_⟩
    exact List.le_of_mem_argmin (List.mem_filter.mpr ⟨hc, hcn⟩) hb

/-- A best match is related to its new hunk. -/
theorem related_of_best (h : findMatchingOldHunk n old = some b) : related b n = true := by
  unfold findMatchingOldHunk at h
  simp only at h
  split at h
  · have hmem := List.argmin_mem (by simpa using h)
    have hcontent := (List.mem_filter.mp hmem).2
    simp [related, hcontent]
  · have hmem := List.argmax_mem (by simpa [maxByKey] using h)
    have hoverlap := (List.mem_filter.mp (List.mem_reverse.mp hmem)).2
    simp [related, hoverlap]

/-- A new hunk that is related to an old one has a best match. -/
theorem isSome_best_of_related (ho : o ∈ old) (h : related o n = true) :
    (findMatchingOldHunk n old).isSome = true := by
  unfold findMatchingOldHunk
  simp only
  split
  · rename_i hne
    rw [Option.isSome_iff_ne_none, ne_eq, List.argmin_eq_none]
    exact hne
  · rename_i hnil
    have hcontent : hunksMatchContent o n = false := by
      simpa using List.filter_eq_nil_iff.mp (not_not.mp hnil) o ho
    have hoverlap : hunksOverlap o n = true := by simpa [related, hcontent] using h
    unfold maxByKey
    rw [Option.isSome_iff_ne_none, ne_eq, List.argmax_eq_none, List.reverse_eq_nil_iff]
    exact List.ne_nil_of_mem (List.mem_filter.mpr ⟨ho, hoverlap⟩)

/-- A first match at the same position is the best match. -/
theorem best_of_unmoved (h : firstMatch old n = some o)
    (hsame : o.lineInfo = n.lineInfo) : findMatchingOldHunk n old = some o := by
  have hhead : (old.filter fun o => hunksMatchContent o n).head? = some o := by
    rw [List.head?_filter]
    exact h
  obtain ⟨rest, hrest⟩ := List.head?_eq_some_iff.mp hhead
  unfold findMatchingOldHunk
  rw [hrest]
  simp only [ne_eq, reduceCtorEq, not_false_eq_true, if_true]
  rw [List.argmin_cons]
  have hzero : absDiff o.lineInfo.newStart n.lineInfo.newStart = 0 := by
    rw [hsame]
    simp [absDiff]
  rw [hzero]
  cases rest.argmin fun o => absDiff o.lineInfo.newStart n.lineInfo.newStart with
  | none => rfl
  | some c => simp

theorem hunkMoved_of_ne (h : hunksMatchContent o n = true)
    (hne : o.lineInfo ≠ n.lineInfo) : hunkMoved o n = true := by
  simp [hunkMoved, h, hne]

theorem not_hunkMoved (h : o.lineInfo = n.lineInfo) : hunkMoved o n = false := by
  simp [hunkMoved, h]


theorem related_of_content (h : hunksMatchContent o k = true) : related o k = true := by
  simp [related, h]

end Match

/-- The old and the fresh hunks of a recomputation: ids are distinct, fresh ones
are new, and the fresh hunks lie one after the other. -/
structure Rematch (old fresh : List Hunk) : Prop where
  old_nodup : (old.map Hunk.id).Nodup
  fresh_nodup : (fresh.map Hunk.id).Nodup
  apart : ∀ n ∈ fresh, ∀ o ∈ old, n.id ≠ o.id
  sorted : fresh.Pairwise fun a b => a.lineInfo.newStart < b.lineInfo.newStart

private theorem claimIds_split {old fresh pre post : List Hunk} {claimed : List HunkId} {x : Hunk}
    (hold : (old.map Hunk.id).Nodup) (h : claimIds old claimed fresh = pre ++ x :: post) :
    (∃ b, findMatchingOldHunk x old = some b ∧ b.id ∉ claimed ∧
        (∀ k ∈ pre, findMatchingOldHunk k old ≠ some b) ∧ x.id = b.id) ∨
      (∀ b, findMatchingOldHunk x old = some b →
        b.id ∈ claimed ∨ ∃ k ∈ pre, findMatchingOldHunk k old = some b) ∧
        x.id ∈ fresh.map Hunk.id := by
  induction fresh generalizing claimed pre with
  | nil => simp [claimIds] at h
  | cons n fresh ih =>
    rw [claimIds] at h
    cases hbest : findMatchingOldHunk n old with
    | none =>
      simp only [hbest] at h
      cases pre with
      | nil =>
        obtain ⟨rfl, -⟩ := List.cons.inj h
        exact Or.inr ⟨fun b hb => by simp [hbest] at hb, by simp⟩
      | cons k pre =>
        obtain ⟨rfl, htail⟩ := List.cons.inj h
        rcases ih htail with ⟨b, hb, hnot, hpre, hid⟩ | ⟨hpre, hid⟩
        · refine Or.inl ⟨b, hb, hnot, fun m hm => ?_, hid⟩
          rcases List.mem_cons.mp hm with rfl | hm
          · simp [hbest]
          · exact hpre m hm
        · refine Or.inr ⟨fun b hb => (hpre b hb).imp_right ?_, List.mem_cons_of_mem _ hid⟩
          rintro ⟨m, hm, hmb⟩
          exact ⟨m, by simp [hm], hmb⟩
    | some best =>
      simp only [hbest] at h
      by_cases hc : best.id ∈ claimed
      · rw [if_pos hc] at h
        cases pre with
        | nil =>
          obtain ⟨rfl, -⟩ := List.cons.inj h
          refine Or.inr ⟨fun b hb => Or.inl ?_, by simp⟩
          rw [hbest, Option.some.injEq] at hb
          exact hb ▸ hc
        | cons k pre =>
          obtain ⟨rfl, htail⟩ := List.cons.inj h
          rcases ih htail with ⟨b, hb, hnot, hpre, hid⟩ | ⟨hpre, hid⟩
          · refine Or.inl ⟨b, hb, hnot, fun m hm => ?_, hid⟩
            rcases List.mem_cons.mp hm with rfl | hm
            · rw [hbest]
              rintro ⟨⟩
              exact hnot hc
            · exact hpre m hm
          · refine Or.inr ⟨fun b hb => (hpre b hb).imp_right ?_, List.mem_cons_of_mem _ hid⟩
            rintro ⟨m, hm, hmb⟩
            exact ⟨m, by simp [hm], hmb⟩
      · rw [if_neg hc] at h
        have hinherit : findMatchingOldHunk (n.inherit best) old = some best := hbest
        cases pre with
        | nil =>
          obtain ⟨rfl, -⟩ := List.cons.inj h
          exact Or.inl ⟨best, hinherit, hc, by simp, rfl⟩
        | cons k pre =>
          obtain ⟨rfl, htail⟩ := List.cons.inj h
          rcases ih htail with ⟨b, hb, hnot, hpre, hid⟩ | ⟨hpre, hid⟩
          · obtain ⟨hne, hnot⟩ := not_or.mp fun hmem => hnot (List.mem_cons.mpr hmem)
            refine Or.inl ⟨b, hb, hnot, fun m hm => ?_, hid⟩
            rcases List.mem_cons.mp hm with rfl | hm
            · rw [hinherit]
              rintro ⟨⟩
              exact hne rfl
            · exact hpre m hm
          · refine Or.inr ⟨fun b hb => ?_, List.mem_cons_of_mem _ hid⟩
            rcases hpre b hb with hmem | ⟨m, hm, hmb⟩
            · rcases List.mem_cons.mp hmem with he | hmem
              · have heq : b = best := List.inj_on_of_nodup_map hold (findMatchingOldHunk_mem hb)
                  (findMatchingOldHunk_mem hbest) he
                exact Or.inr ⟨n.inherit best, by simp, heq ▸ hinherit⟩
              · exact Or.inl hmem
            · exact Or.inr ⟨m, by simp [hm], hmb⟩

/-- The stored hunks after a recomputation: each has the id of its best match if
it is the first to ask for it, and a fresh id otherwise. -/
structure Claimed (old new : List Hunk) : Prop where
  old_nodup : (old.map Hunk.id).Nodup
  nodup : (new.map Hunk.id).Nodup
  places : (new.map Hunk.lineInfo).Nodup
  split : ∀ pre x post, new = pre ++ x :: post →
    (∃ b ∈ old, findMatchingOldHunk x old = some b ∧
        (∀ k ∈ pre, findMatchingOldHunk k old ≠ some b) ∧ x.id = b.id) ∨
      (∀ b, findMatchingOldHunk x old = some b →
        ∃ k ∈ pre, findMatchingOldHunk k old = some b) ∧ ∀ o ∈ old, x.id ≠ o.id

theorem Rematch.claimed {old fresh : List Hunk} (h : Rematch old fresh) :
    Claimed old (claimIds old [] fresh) := by
  refine ⟨h.old_nodup, nodup_claimIds h.fresh_nodup h.apart [], ?_, fun pre x post he => ?_⟩
  · rw [List.Nodup, List.pairwise_map]
    exact (sorted_claimIds old [] h.sorted).imp fun hlt heq =>
      hlt.ne (congrArg HunkLineInfo.newStart heq)
  · rcases claimIds_split h.old_nodup he with ⟨b, hb, -, hpre, hid⟩ | ⟨hpre, hid⟩
    · exact Or.inl ⟨b, findMatchingOldHunk_mem hb, hb, hpre, hid⟩
    · refine Or.inr ⟨fun b hb => (hpre b hb).resolve_left (by simp), fun o ho => ?_⟩
      obtain ⟨n, hn, hnid⟩ := List.mem_map.mp hid
      rw [← hnid]
      exact h.apart n hn o ho

section Claimed

variable {old new pre post : List Hunk} {x k o b : Hunk}

namespace Claimed

theorem eq_of_id (h : Claimed old new) (hx : x ∈ new) (hk : k ∈ new) (hid : x.id = k.id) :
    x = k := List.inj_on_of_nodup_map h.nodup hx hk hid

theorem old_eq_of_id (h : Claimed old new) (ho : o ∈ old) (hb : b ∈ old)
    (hid : o.id = b.id) : o = b := List.inj_on_of_nodup_map h.old_nodup ho hb hid

/-- A new hunk occurs once. -/
theorem not_mem_split (h : Claimed old (pre ++ x :: post)) : x ∉ pre ∧ x ∉ post := by
  have hnodup := h.nodup
  rw [List.map_append, List.map_cons, List.nodup_middle, List.nodup_cons] at hnodup
  constructor
  · exact fun hmem => hnodup.1 (List.mem_append_left _ (List.mem_map_of_mem hmem))
  · exact fun hmem => hnodup.1 (List.mem_append_right _ (List.mem_map_of_mem hmem))

/-- Two new hunks at one position are the same. -/
theorem eq_of_lineInfo (h : Claimed old new) (hx : x ∈ new) (hk : k ∈ new)
    (hinfo : x.lineInfo = k.lineInfo) : x = k := List.inj_on_of_nodup_map h.places hx hk hinfo

/-- A new hunk with the id of an old one is the first that asks for it. -/
theorem best_of_id (h : Claimed old (pre ++ x :: post)) (ho : o ∈ old)
    (hid : x.id = o.id) :
    findMatchingOldHunk x old = some o ∧ ∀ k ∈ pre, findMatchingOldHunk k old ≠ some o := by
  rcases h.split pre x post rfl with ⟨b, hb, hbest, hpre, hxb⟩ | ⟨-, hnone⟩
  · obtain rfl : b = o := h.old_eq_of_id hb ho (hxb.symm.trans hid)
    exact ⟨hbest, hpre⟩
  · exact absurd hid (hnone o ho)

/-- An old hunk that is the best match of a new one gives its id to a new hunk. -/
theorem exists_id_of_best (h : Claimed old new) {m : Hunk} (hm : m ∈ new)
    (hbest : findMatchingOldHunk m old = some o) : ∃ x ∈ new, x.id = o.id := by
  obtain ⟨x, hx⟩ := Option.isSome_iff_exists.mp
    (List.find?_isSome (p := fun k : Hunk => decide (findMatchingOldHunk k old = some o)) |>.mpr
      ⟨m, hm, by simpa using hbest⟩)
  obtain ⟨hxo, pre, post, rfl, hpre⟩ := List.find?_eq_some_iff_append.mp hx
  refine ⟨x, by simp, ?_⟩
  rcases h.split pre x post rfl with ⟨b, -, hb, -, hid⟩ | ⟨hclaimed, -⟩
  · obtain rfl : b = o := by simpa [of_decide_eq_true hxo] using hb.symm
    exact hid
  · obtain ⟨k, hk, hko⟩ := hclaimed o (of_decide_eq_true hxo)
    simpa [hko] using hpre k hk

end Claimed

end Claimed

/-- A diff is the same up to ids and sources, whenever and for whomever it is made. -/
theorem map_anonymous_diffStates (diff : DiffLines) (path : Path)
    (baseline current : FileContentState) (source source' : HunkSource) (uuid uuid' : ℕ) :
    (diffStates diff path baseline current source uuid).map Hunk.anonymous =
      (diffStates diff path baseline current source' uuid').map Hunk.anonymous := by
  unfold diffStates
  split
  · unfold computeHunks
    split
    · rfl
    · split
      · rfl
      · split
        · rfl
        · apply List.ext_getElem
          · simp [buildHunks]
          · intro i _ _
            simp [buildHunks, HunkBuilder.build, Hunk.anonymous]
  · split <;> rfl
  · split <;> rfl
  · rfl

theorem map_view_diffStates (diff : DiffLines) (path : Path) (baseline current : FileContentState)
    (source source' : HunkSource) (uuid uuid' : ℕ) :
    (diffStates diff path baseline current source uuid).map Hunk.view =
      (diffStates diff path baseline current source' uuid').map Hunk.view := by
  have h := congrArg (List.map Hunk.view)
    (map_anonymous_diffStates diff path baseline current source source' uuid uuid')
  rwa [List.map_map, List.map_map] at h

/-- The old and the fresh hunks of a recomputation in a good state. -/
theorem HunkInv.rematch {s : HunkTrackerActor} (hs : HunkInv s) {path : Path}
    {state : FileHunkState} (hl : s.fileStates.lookup path = some state) {source : HunkSource}
    {fresh : List Hunk} (hfresh : FreshDiff path source s.uuid fresh) :
    Rematch state.hunks fresh := by
  refine ⟨hs.nodup hl, hfresh.nodup, fun n hn o ho => ?_, hfresh.sorted⟩
  exact (lt_of_lt_of_le (hs.drawn hl o ho) (hfresh.id_ge n hn)).ne'

end Ezer.HunkTracker
