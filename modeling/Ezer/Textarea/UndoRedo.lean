import Ezer.Textarea.History
import Ezer.Textarea.Marks

/-!
# Undo and redo

The history of a text area is a timeline of contents with groups. Operations move it as
the timeline moves, so undoing everything leads to the first contents, and redoing
everything leads back to the last.
-/

namespace Ezer.Textarea

open Lib

/-- Any operation but those that move along the history. -/
def Op.IsUndoable {Line : Type} : Op Line → Prop
  | .undo | .redo => False
  | _ => True

/-- How many groups are open behind an operation. -/
def Op.depthBehind {Line : Type} : Op Line → ℕ → ℕ
  | .beginUndoGroup, depth => depth + 1
  | .endUndoGroup, depth => depth - 1
  | .cancelUndoGroup, _ => 0
  | _, depth => depth

/-- A group stays open during some operations. -/
def StaysOpen {Line : Type} : ℕ → List (Op Line) → Prop
  | depth, [] => 0 < depth
  | depth, op :: ops => 0 < depth ∧ StaysOpen (op.depthBehind depth) ops

namespace TextArea

variable {Line : Type}

/-- There is nothing to undo or to redo. -/
structure EmptyHistory (s : TextArea Line) : Prop where
  stack : s.undo.stack = []
  redo : s.undo.redo = []
  maxDepth : s.undo.maxDepth = 100
  lastKind : s.undo.lastKind = none
  groupDepth : s.undo.groupDepth = 0

/-- A mutation is only continued where one was noted, and an open group has a checkpoint. -/
structure HistoryOk (s : TextArea Line) : Prop where
  maxDepth : 0 < s.undo.maxDepth
  noted : s.undo.lastKind ≠ none → s.undo.stack ≠ []
  checkpoint : 0 < s.undo.groupDepth → ∃ entry, s.undo.groupCheckpoint = some entry

/-- What the history takes for the present contents. -/
def held (s : TextArea Line) : Contents Line :=
  if s.undo.groupDepth = 0 then s.contents
  else (s.undo.groupCheckpoint.map UndoEntry.contents).getD s.contents

/-- The contents over time. -/
def timeline (s : TextArea Line) : Timeline (Contents Line) :=
  ⟨s.undo.stack.map UndoEntry.contents, s.held, s.undo.redo.map UndoEntry.contents⟩

/-- The contents over time, and the present ones. -/
def grouped (s : TextArea Line) : Grouped (Contents Line) :=
  ⟨s.timeline, s.contents, s.undo.groupDepth⟩

section Runs

variable (unicode : Unicode)

/-- What holds of each operation of a run and of the state before it. -/
def Along (P : TextArea Line → Op Line → Prop) : TextArea Line → List (Op Line) → Prop
  | _, [] => True
  | s, op :: ops => P s op ∧ ∀ t, s.step unicode op = some t → Along P t ops

/-- There is room for what an operation adds to the history. -/
def Fits (s : TextArea Line) (op : Op Line) : Prop :=
  ∀ t, s.step unicode op = some t →
    s.undo.stack.length < s.undo.maxDepth ∨ t.undo.stack = s.undo.stack

/-- Undo until there is nothing to undo, some times at most. -/
def undoUntilFalse : ℕ → TextArea Line → TextArea Line
  | 0, s => s
  | n + 1, s =>
    match s.undoOnce unicode with
    | (true, t) => undoUntilFalse n t
    | (false, t) => t

/-- Redo until there is nothing to redo, some times at most. -/
def redoUntilFalse : ℕ → TextArea Line → TextArea Line
  | 0, s => s
  | n + 1, s =>
    match s.redoOnce unicode with
    | (true, t) => redoUntilFalse n t
    | (false, t) => t

end Runs

theorem EmptyHistory.historyOk {s : TextArea Line} (h : s.EmptyHistory) : s.HistoryOk := by
  refine ⟨?_, fun hkind => (hkind h.lastKind).elim, fun hopen => ?_⟩
  · rw [h.maxDepth]
    exact Nat.succ_pos 99
  · rw [h.groupDepth] at hopen
    exact (lt_irrefl 0 hopen).elim

theorem emptyHistory_new : (new : TextArea Line).EmptyHistory := ⟨rfl, rfl, rfl, rfl, rfl⟩

section Simulation

variable {unicode : Unicode} {s t : TextArea Line}

theorem held_of_closed (h : s.undo.groupDepth = 0) : s.held = s.contents := by
  rw [held, if_pos h]

theorem timeline_of_closed (h : s.undo.groupDepth = 0) :
    s.timeline = ⟨s.undo.stack.map UndoEntry.contents, s.contents,
      s.undo.redo.map UndoEntry.contents⟩ := by
  rw [timeline, held_of_closed h]

theorem held_of_open {entry : UndoEntry Line} (h : 0 < s.undo.groupDepth)
    (hentry : s.undo.groupCheckpoint = some entry) : s.held = entry.contents := by
  rw [held, if_neg h.ne', hentry]
  rfl

theorem stack_push_ne_nil {u : UndoState Line} (hmaxDepth : 0 < u.maxDepth)
    (entry : UndoEntry Line) : (u.push entry).stack ≠ [] := by
  rw [UndoState.push]
  dsimp only
  split
  · rename_i hfull
    intro hnil
    have hlength := congrArg List.length hnil
    rw [List.length_dropLast, List.length_cons, List.length_nil] at hlength
    rw [List.length_cons] at hfull
    omega
  · exact List.cons_ne_nil _ _

theorem stack_push_of_lt {u : UndoState Line} (hroom : u.stack.length < u.maxDepth)
    (entry : UndoEntry Line) : (u.push entry).stack = entry :: u.stack := by
  rw [UndoState.push]
  dsimp only
  rw [if_neg]
  rw [List.length_cons]
  omega

theorem HistoryOk.of_kept (hs : s.HistoryOk) (h : HistoryKept s t) : t.HistoryOk := by
  refine ⟨?_, fun hkind => ?_, fun hopen => ?_⟩
  · rw [h.maxDepth]
    exact hs.maxDepth
  · rw [h.stack]
    apply hs.noted
    rcases h.lastKind with hnone | hsame
    · exact (hkind hnone).elim
    · rw [← hsame]
      exact hkind
  · rw [h.groupDepth] at hopen
    rw [h.checkpoint hopen]
    exact hs.checkpoint hopen

theorem HistoryOk.of_edited (hs : s.HistoryOk) (h : Edited unicode s t) : t.HistoryOk := by
  rcases h.history with ⟨hkept, -⟩ | hrecorded
  · exact hs.of_kept hkept
  · refine ⟨?_, fun _ => ?_, fun hopen => ?_⟩
    · rw [hrecorded.maxDepth]
      exact hs.maxDepth
    · rcases hrecorded.stack with hpush | ⟨hsame, hkind⟩
      · rw [hpush]
        exact stack_push_ne_nil hs.maxDepth _
      · rw [hsame]
        exact hs.noted hkind
    · rw [hrecorded.groupDepth] at hopen
      exact (lt_irrefl 0 hopen).elim

theorem grouped_of_edited (hs : s.HistoryOk) (h : Edited unicode s t)
    (hfits : s.undo.stack.length < s.undo.maxDepth ∨ t.undo.stack = s.undo.stack) :
    Relation.ReflTransGen Grouped.Step s.grouped t.grouped := by
  rcases h.history with ⟨hkept, hsame⟩ | hrecorded
  · rcases Nat.eq_zero_or_pos s.undo.groupDepth with houtside | hopen
    · have hheld : t.held = s.held := by
        rw [held_of_closed houtside, held_of_closed (hkept.groupDepth.trans houtside),
          hsame houtside]
      rw [grouped, grouped, timeline, timeline, hkept.stack, hkept.redo, hkept.groupDepth,
        hsame houtside, hheld]
    · obtain ⟨entry, hentry⟩ := hs.checkpoint hopen
      obtain ⟨depth, hdepth⟩ := Nat.exists_eq_succ_of_ne_zero hopen.ne'
      have hheld : t.held = s.held := by
        rw [held_of_open hopen hentry, held_of_open (hkept.groupDepth ▸ hopen)
          ((hkept.checkpoint hopen).trans hentry)]
      apply Relation.ReflTransGen.single
      rw [grouped, grouped, timeline, timeline, hkept.stack, hkept.redo, hkept.groupDepth, hheld,
        hdepth]
      exact .edit (.inside _ _ _ _)
  · apply Relation.ReflTransGen.single
    rw [grouped, grouped, hrecorded.groupDepth, hrecorded.outside, ← held_of_closed hrecorded.outside]
    have hnow : s.held = s.timeline.now := rfl
    rw [hnow]
    have hamend (hstack : t.undo.stack = s.undo.stack) (hne : s.undo.stack ≠ []) :
        Grouped.Step ⟨s.timeline, s.timeline.now, 0⟩ ⟨t.timeline, t.contents, 0⟩ := by
      have ht : t.timeline = s.timeline.amend t.contents := by
        rw [timeline, held_of_closed hrecorded.groupDepth, hrecorded.redo, hstack]
        rfl
      rw [ht]
      exact .edit (.amend _ _ fun hnil => hne (List.map_eq_nil_iff.mp hnil))
    rcases hrecorded.stack with hpush | ⟨hstack, hkind⟩
    · rcases hfits with hroom | hstack
      · have ht : t.timeline = s.timeline.record t.contents := by
          rw [timeline, held_of_closed hrecorded.groupDepth, hrecorded.redo, hpush,
            stack_push_of_lt hroom, timeline, Timeline.record, held_of_closed hrecorded.outside]
          rfl
        rw [ht]
        exact .edit (.record _ _)
      · apply hamend hstack
        rw [← hstack, hpush]
        exact stack_push_ne_nil hs.maxDepth _
    · exact hamend hstack (hs.noted hkind)

theorem grouped_beginUndoGroup (s : TextArea Line) :
    s.beginUndoGroup.grouped = ⟨s.timeline, s.contents, s.undo.groupDepth + 1⟩ := by
  have hheld : s.beginUndoGroup.held = s.held := by
    have hopen : s.beginUndoGroup.undo.groupDepth ≠ 0 := Nat.succ_ne_zero _
    rw [held, held, if_neg hopen]
    by_cases houtside : s.undo.groupDepth = 0
    · rw [if_pos houtside, beginUndoGroup, houtside]
      rfl
    · rw [if_neg houtside, beginUndoGroup, if_neg houtside]
      rfl
  rw [grouped, timeline, hheld]
  rfl

theorem HistoryOk.beginUndoGroup (hs : s.HistoryOk) : s.beginUndoGroup.HistoryOk := by
  refine ⟨hs.maxDepth, hs.noted, fun _ => ?_⟩
  by_cases houtside : s.undo.groupDepth = 0
  · refine ⟨s.snapshot, ?_⟩
    rw [TextArea.beginUndoGroup, houtside]
    rfl
  · obtain ⟨entry, hentry⟩ := hs.checkpoint (Nat.pos_of_ne_zero houtside)
    refine ⟨entry, ?_⟩
    rw [TextArea.beginUndoGroup, if_neg houtside]
    exact hentry

theorem HistoryOk.endUndoGroup (hs : s.HistoryOk) : s.endUndoGroup.HistoryOk := by
  match hdepth : s.undo.groupDepth with
  | 0 =>
    rw [endUndoGroup_outside hdepth]
    exact hs
  | 1 =>
    obtain ⟨entry, hentry⟩ := hs.checkpoint (by omega)
    rw [endUndoGroup_close hdepth hentry]
    split
    · exact ⟨hs.maxDepth, fun hkind => (hkind rfl).elim, fun hopen => (lt_irrefl 0 hopen).elim⟩
    · exact ⟨hs.maxDepth, fun hkind => (hkind rfl).elim, fun hopen => (lt_irrefl 0 hopen).elim⟩
  | depth + 2 =>
    rw [endUndoGroup_inner hdepth]
    refine ⟨hs.maxDepth, hs.noted, fun _ => hs.checkpoint (by omega)⟩

theorem grouped_endUndoGroup (hs : s.HistoryOk) (hseen : s.Seen unicode .endUndoGroup)
    (hfits : s.undo.stack.length < s.undo.maxDepth ∨ s.endUndoGroup.undo.stack = s.undo.stack) :
    Relation.ReflTransGen Grouped.Step s.grouped s.endUndoGroup.grouped := by
  match hdepth : s.undo.groupDepth with
  | 0 =>
    rw [endUndoGroup_outside hdepth]
  | depth + 2 =>
    have hend := endUndoGroup_inner hdepth
    obtain ⟨entry, hentry⟩ := hs.checkpoint (by omega)
    apply Relation.ReflTransGen.single
    have hheld : s.endUndoGroup.held = s.held := by
      rw [held_of_open (by omega) hentry, held_of_open _ (by rw [hend]; exact hentry)]
      rw [hend]
      exact Nat.succ_pos depth
    rw [grouped, grouped, timeline, timeline, hheld, hend, hdepth]
    exact .inner _ _ _
  | 1 =>
    obtain ⟨entry, hentry⟩ := hs.checkpoint (by omega)
    have hend := endUndoGroup_close hdepth hentry
    have hnow : s.timeline.now = entry.contents := held_of_open (by omega) hentry
    have hclosed : s.endUndoGroup.undo.groupDepth = 0 := by
      rw [hend]
      split
      · rfl
      · rfl
    have hcontents : s.endUndoGroup.contents = s.contents := by
      obtain ⟨htext, helements⟩ := same_endUndoGroup s
      rw [contents, contents, htext, helements]
    apply Relation.ReflTransGen.single
    rw [grouped, grouped, hclosed, hdepth, hcontents]
    cases hchanged : s.changedFrom entry with
    | false =>
      have hsame := contents_of_sees (hseen hdepth entry hentry) hchanged
      have ht : s.endUndoGroup.timeline = s.timeline := by
        rw [timeline, held_of_closed hclosed, hcontents, hsame, ← hnow, hend, hchanged]
        rfl
      rw [ht, hsame, ← hnow]
      exact .leave _
    | true =>
      have hstack : s.endUndoGroup.undo.stack = (s.undo.push entry).stack := by
        rw [hend, hchanged]
        rfl
      have hredo : s.endUndoGroup.undo.redo = [] := by
        rw [hend, hchanged]
        rfl
      rcases hfits with hroom | hsame
      · have ht : s.endUndoGroup.timeline = s.timeline.record s.contents := by
          rw [timeline, held_of_closed hclosed, hcontents, hredo, hstack, stack_push_of_lt hroom,
            Timeline.record, hnow]
          rfl
        rw [ht]
        exact .close _ _
      · have ht : s.endUndoGroup.timeline = s.timeline.amend s.contents := by
          rw [timeline, held_of_closed hclosed, hcontents, hredo, hsame]
          rfl
        rw [ht]
        refine .merge _ _ fun hnil => ?_
        have hempty : s.undo.stack = [] := List.map_eq_nil_iff.mp hnil
        rw [hempty, hstack] at hsame
        exact stack_push_ne_nil hs.maxDepth entry hsame

theorem cursorOnBoundary_restore (entry : UndoEntry Line) :
    (s.restore unicode entry).CursorOnBoundary unicode :=
  unicode.isBoundary_normalize _ _

theorem cancelUndoGroup_outside (hdepth : s.undo.groupDepth = 0) :
    s.cancelUndoGroup unicode = s := by
  rw [cancelUndoGroup, if_pos hdepth]

theorem cancelUndoGroup_open {entry : UndoEntry Line} (hopen : 0 < s.undo.groupDepth)
    (hentry : s.undo.groupCheckpoint = some entry) :
    s.cancelUndoGroup unicode = (restore unicode { s with
      undo := { s.undo with groupDepth := 0, groupCheckpoint := none } } entry).resetBatching := by
  rw [cancelUndoGroup, if_neg hopen.ne', hentry]

theorem HistoryOk.cancelUndoGroup (hs : s.HistoryOk) : (s.cancelUndoGroup unicode).HistoryOk := by
  rcases Nat.eq_zero_or_pos s.undo.groupDepth with houtside | hopen
  · rw [cancelUndoGroup_outside houtside]
    exact hs
  · obtain ⟨entry, hentry⟩ := hs.checkpoint hopen
    rw [cancelUndoGroup_open hopen hentry]
    exact ⟨hs.maxDepth, fun hkind => (hkind rfl).elim, fun hopen => (lt_irrefl 0 hopen).elim⟩

theorem grouped_cancelUndoGroup (hs : s.HistoryOk) :
    (s.cancelUndoGroup unicode).grouped = ⟨s.timeline, s.timeline.now, 0⟩ := by
  rcases Nat.eq_zero_or_pos s.undo.groupDepth with houtside | hopen
  · rw [cancelUndoGroup_outside houtside, grouped, houtside, ← held_of_closed houtside]
    rfl
  · obtain ⟨entry, hentry⟩ := hs.checkpoint hopen
    rw [cancelUndoGroup_open hopen hentry, timeline, held_of_open hopen hentry]
    rfl

/-- An operation moves the history as the timeline moves. -/
theorem grouped_step {op : Op Line} (hs : s.HistoryOk) (h : s.step unicode op = some t)
    (hop : op.IsUndoable) (hseen : s.Seen unicode op) :
    t.HistoryOk ∧
      ((s.undo.stack.length < s.undo.maxDepth ∨ t.undo.stack = s.undo.stack) →
        Relation.ReflTransGen Grouped.Step s.grouped t.grouped) := by
  by_cases hedit : op.IsEdit
  · have hedited := edited_step h hedit hseen
    exact ⟨hs.of_edited hedited, grouped_of_edited hs hedited⟩
  · cases op with
    | beginUndoGroup =>
      cases h
      refine ⟨hs.beginUndoGroup, fun _ => .single ?_⟩
      rw [grouped_beginUndoGroup]
      exact .begin _ _ _
    | endUndoGroup =>
      cases h
      exact ⟨hs.endUndoGroup, grouped_endUndoGroup hs hseen⟩
    | cancelUndoGroup =>
      cases h
      refine ⟨hs.cancelUndoGroup, fun _ => .single ?_⟩
      rw [grouped_cancelUndoGroup hs]
      exact .cancel _ _ _
    | undo | redo => exact hop.elim
    | _ => exact (hedit trivial).elim

theorem cursor_step {op : Op Line} (h : s.step unicode op = some t) (hop : op.IsUndoable)
    (hs : s.HistoryOk) (hseen : s.Seen unicode op) (hcursor : s.CursorOnBoundary unicode) :
    t.CursorOnBoundary unicode := by
  by_cases hedit : op.IsEdit
  · exact (edited_step h hedit hseen).cursor hcursor
  · cases op with
    | beginUndoGroup =>
      cases h
      exact hcursor
    | endUndoGroup =>
      cases h
      rw [CursorOnBoundary, cursor, (same_endUndoGroup s).1]
      exact hcursor
    | cancelUndoGroup =>
      cases h
      rcases Nat.eq_zero_or_pos s.undo.groupDepth with houtside | hopen
      · rw [cancelUndoGroup_outside houtside]
        exact hcursor
      · obtain ⟨entry, hentry⟩ := hs.checkpoint hopen
        rw [cancelUndoGroup_open hopen hentry]
        exact cursorOnBoundary_restore entry
    | undo | redo => exact hop.elim
    | _ => exact (hedit trivial).elim

theorem grouped_run {ops : List (Op Line)} (hs : s.HistoryOk) (h : s.run unicode ops = some t)
    (hops : ∀ op ∈ ops, op.IsUndoable) (hseen : s.Along unicode (Seen unicode) ops) :
    t.HistoryOk ∧ (s.CursorOnBoundary unicode → t.CursorOnBoundary unicode) ∧
      (s.Along unicode (Fits unicode) ops →
        Relation.ReflTransGen Grouped.Step s.grouped t.grouped) := by
  induction ops generalizing s with
  | nil =>
    cases h
    exact ⟨hs, id, fun _ => .refl⟩
  | cons op ops ih =>
    obtain ⟨u, hu, h⟩ := Option.bind_eq_some_iff.mp h
    have hop := hops op List.mem_cons_self
    obtain ⟨hok, hgrouped⟩ := grouped_step hs hu hop hseen.1
    obtain ⟨hokEnd, hcursor, hrest⟩ :=
      ih hok h (fun op hmem => hops op (List.mem_cons_of_mem _ hmem)) (hseen.2 u hu)
    refine ⟨hokEnd, fun hstart => hcursor (cursor_step hu hop hs hseen.1 hstart), fun hfits => ?_⟩
    exact (hgrouped (hfits.1 u hu)).trans (hrest (hfits.2 u hu))

theorem kept_of_open {op : Op Line} (h : s.step unicode op = some t) (hop : op.IsUndoable)
    (hopen : 0 < s.undo.groupDepth) (hstays : 0 < op.depthBehind s.undo.groupDepth) :
    t.undo.stack = s.undo.stack ∧ t.undo.redo = s.undo.redo ∧
      t.undo.maxDepth = s.undo.maxDepth ∧
      t.undo.groupCheckpoint = s.undo.groupCheckpoint ∧
      t.undo.groupDepth = op.depthBehind s.undo.groupDepth := by
  by_cases hedit : op.IsEdit
  · have hne : op ≠ .endUndoGroup := by
      rintro rfl
      exact hedit
    have hkept := (edited_step h hedit (seen_of_open hopen hne)).kept hopen
    refine ⟨hkept.stack, hkept.redo, hkept.maxDepth, hkept.checkpoint hopen, ?_⟩
    rw [hkept.groupDepth]
    cases op with
    | beginUndoGroup | endUndoGroup | cancelUndoGroup => exact hedit.elim
    | _ => rfl
  · cases op with
    | beginUndoGroup =>
      cases h
      refine ⟨rfl, rfl, rfl, ?_, rfl⟩
      rw [beginUndoGroup, if_neg hopen.ne']
    | endUndoGroup =>
      cases h
      have hdepth : s.undo.groupDepth = s.undo.groupDepth - 2 + 2 := by
        rw [Op.depthBehind] at hstays
        omega
      rw [endUndoGroup_inner hdepth, Op.depthBehind]
      refine ⟨rfl, rfl, rfl, rfl, ?_⟩
      dsimp only
      omega
    | cancelUndoGroup => exact (lt_irrefl 0 hstays).elim
    | undo | redo => exact hop.elim
    | _ => exact (hedit trivial).elim

theorem kept_of_staysOpen {ops : List (Op Line)} (h : s.run unicode ops = some t)
    (hops : ∀ op ∈ ops, op.IsUndoable) (hstays : StaysOpen s.undo.groupDepth ops) :
    t.undo.stack = s.undo.stack ∧ t.undo.redo = s.undo.redo ∧
      t.undo.maxDepth = s.undo.maxDepth ∧
      t.undo.groupCheckpoint = s.undo.groupCheckpoint ∧ 0 < t.undo.groupDepth := by
  induction ops generalizing s with
  | nil =>
    cases h
    exact ⟨rfl, rfl, rfl, rfl, hstays⟩
  | cons op ops ih =>
    obtain ⟨u, hu, h⟩ := Option.bind_eq_some_iff.mp h
    obtain ⟨hopen, hrest⟩ := hstays
    have hnext : 0 < op.depthBehind s.undo.groupDepth := by
      cases ops with
      | nil => exact hrest
      | cons _ _ => exact hrest.1
    obtain ⟨hstack, hredo, hmaxDepth, hcheckpoint, hdepth⟩ :=
      kept_of_open hu (hops op List.mem_cons_self) hopen hnext
    rw [← hdepth] at hrest
    obtain ⟨hstack', hredo', hmaxDepth', hcheckpoint', hopen'⟩ :=
      ih h (fun op hmem => hops op (List.mem_cons_of_mem _ hmem)) hrest
    exact ⟨hstack'.trans hstack, hredo'.trans hredo, hmaxDepth'.trans hmaxDepth,
      hcheckpoint'.trans hcheckpoint, hopen'⟩

end Simulation

section Undo

variable {unicode : Unicode} {s t : TextArea Line}

theorem undoOnce_of_cons {entry : UndoEntry Line} {stack : List (UndoEntry Line)}
    (h : s.undo.stack = entry :: stack) :
    s.undoOnce unicode = (true, (restore unicode
      { s with undo := { s.undo with stack := stack, redo := s.snapshot :: s.undo.redo } }
      entry).resetBatching) := by
  rw [undoOnce.eq_def, h]

theorem undoOnce_of_nil (h : s.undo.stack = []) : s.undoOnce unicode = (false, s) := by
  rw [undoOnce.eq_def, h]

theorem redoOnce_of_cons {entry : UndoEntry Line} {redo : List (UndoEntry Line)}
    (h : s.undo.redo = entry :: redo) :
    s.redoOnce unicode = (true, (restore unicode
      { s with undo := { s.undo with redo := redo, stack := s.snapshot :: s.undo.stack } }
      entry).resetBatching) := by
  rw [redoOnce.eq_def, h]

theorem redoOnce_of_nil (h : s.undo.redo = []) : s.redoOnce unicode = (false, s) := by
  rw [redoOnce.eq_def, h]

theorem timeline_undoOnce (unicode : Unicode) (hclosed : s.undo.groupDepth = 0) :
    (s.undoOnce unicode).2.timeline = s.timeline.undo ∧
      (s.undoOnce unicode).2.undo.groupDepth = 0 := by
  cases hstack : s.undo.stack with
  | nil =>
    rw [undoOnce_of_nil hstack, Timeline.undo.eq_def, timeline, hstack]
    exact ⟨rfl, hclosed⟩
  | cons entry stack =>
    rw [undoOnce_of_cons hstack]
    refine ⟨(timeline_of_closed ?_).trans ?_, hclosed⟩
    · exact hclosed
    · rw [timeline_of_closed hclosed, Timeline.undo.eq_def, hstack]
      rfl

theorem timeline_redoOnce (unicode : Unicode) (hclosed : s.undo.groupDepth = 0) :
    (s.redoOnce unicode).2.timeline = s.timeline.redo ∧
      (s.redoOnce unicode).2.undo.groupDepth = 0 := by
  cases hredo : s.undo.redo with
  | nil =>
    rw [redoOnce_of_nil hredo, Timeline.redo.eq_def, timeline, hredo]
    exact ⟨rfl, hclosed⟩
  | cons entry redo =>
    rw [redoOnce_of_cons hredo]
    refine ⟨(timeline_of_closed ?_).trans ?_, hclosed⟩
    · exact hclosed
    · rw [timeline_of_closed hclosed, Timeline.redo.eq_def, hredo]
      rfl

theorem undoUntilFalse_succ (n : ℕ) (s : TextArea Line) :
    undoUntilFalse unicode (n + 1) s = undoUntilFalse unicode n (s.undoOnce unicode).2 := by
  rw [undoUntilFalse]
  cases hstack : s.undo.stack with
  | nil =>
    rw [undoOnce_of_nil hstack]
    dsimp only
    induction n with
    | zero => rfl
    | succ n ih =>
      rw [undoUntilFalse, undoOnce_of_nil hstack]
  | cons entry stack => rw [undoOnce_of_cons hstack]

theorem redoUntilFalse_succ (n : ℕ) (s : TextArea Line) :
    redoUntilFalse unicode (n + 1) s = redoUntilFalse unicode n (s.redoOnce unicode).2 := by
  rw [redoUntilFalse]
  cases hredo : s.undo.redo with
  | nil =>
    rw [redoOnce_of_nil hredo]
    dsimp only
    induction n with
    | zero => rfl
    | succ n ih =>
      rw [redoUntilFalse, redoOnce_of_nil hredo]
  | cons entry redo => rw [redoOnce_of_cons hredo]

theorem timeline_undoUntilFalse (unicode : Unicode) (n : ℕ) (hclosed : s.undo.groupDepth = 0) :
    (undoUntilFalse unicode n s).timeline = Timeline.undo^[n] s.timeline ∧
      (undoUntilFalse unicode n s).undo.groupDepth = 0 := by
  induction n generalizing s with
  | zero => exact ⟨rfl, hclosed⟩
  | succ n ih =>
    obtain ⟨htimeline, hdepth⟩ := timeline_undoOnce unicode hclosed
    rw [undoUntilFalse_succ, Function.iterate_succ_apply, ← htimeline]
    exact ih hdepth

theorem timeline_redoUntilFalse (unicode : Unicode) (n : ℕ) (hclosed : s.undo.groupDepth = 0) :
    (redoUntilFalse unicode n s).timeline = Timeline.redo^[n] s.timeline ∧
      (redoUntilFalse unicode n s).undo.groupDepth = 0 := by
  induction n generalizing s with
  | zero => exact ⟨rfl, hclosed⟩
  | succ n ih =>
    obtain ⟨htimeline, hdepth⟩ := timeline_redoOnce unicode hclosed
    rw [redoUntilFalse_succ, Function.iterate_succ_apply, ← htimeline]
    exact ih hdepth

theorem contents_eq_now (h : s.undo.groupDepth = 0) : s.contents = s.timeline.now :=
  (held_of_closed h).symm

/-- Where there is nothing left to undo or to redo, the last call says so. -/
theorem undoOnce_of_past (h : s.timeline.past = []) : (s.undoOnce unicode).1 = false := by
  rw [undoOnce_of_nil (List.map_eq_nil_iff.mp h)]

theorem redoOnce_of_future (h : s.timeline.future = []) : (s.redoOnce unicode).1 = false := by
  rw [redoOnce_of_nil (List.map_eq_nil_iff.mp h)]

theorem undo_all_redo_all {first : Contents Line} (hfresh : s.grouped.Fresh first)
    (hclosed : s.undo.groupDepth = 0) {n : ℕ} (hn : s.undo.stack.length ≤ n) :
    let u := undoUntilFalse unicode n s
    (u.undoOnce unicode).1 = false ∧ u.contents = first ∧
      ∀ m, u.undo.redo.length ≤ m →
        ((redoUntilFalse unicode m u).redoOnce unicode).1 = false ∧
          (redoUntilFalse unicode m u).contents = s.contents := by
  intro u
  obtain ⟨hu, huclosed⟩ := timeline_undoUntilFalse unicode n hclosed
  have hpast : s.timeline.past.length ≤ n := by
    rw [timeline, List.length_map]
    exact hn
  refine ⟨undoOnce_of_past ?_, ?_, fun m hm => ?_⟩
  · rw [hu]
    apply List.length_eq_zero_iff.mp
    rw [Timeline.length_past_iterate_undo]
    omega
  · rw [contents_eq_now huclosed, hu, Timeline.now_iterate_undo hpast]
    exact hfresh.origin
  · obtain ⟨ht, htclosed⟩ := timeline_redoUntilFalse unicode m huclosed
    have hfuture : u.timeline.future.length ≤ m := by
      rw [timeline, List.length_map]
      exact hm
    refine ⟨redoOnce_of_future ?_, ?_⟩
    · rw [ht]
      apply List.length_eq_zero_iff.mp
      rw [Timeline.length_future_iterate_redo]
      exact Nat.sub_eq_zero_of_le hfuture
    · have hall : u.timeline.all = s.timeline.all := by
        rw [hu, Timeline.all_iterate_undo]
      rw [contents_eq_now htclosed, ht, Timeline.now_iterate_redo hall hfresh.future hfuture,
        contents_eq_now hclosed]

theorem redo_of_undo (h : (s.undoOnce unicode).1 = true) :
    ((s.undoOnce unicode).2.redoOnce unicode).1 = true ∧
      ((s.undoOnce unicode).2.redoOnce unicode).2.contents = s.contents := by
  cases hstack : s.undo.stack with
  | nil =>
    rw [undoOnce_of_nil hstack] at h
    cases h
  | cons entry stack =>
    rw [undoOnce_of_cons hstack]
    exact ⟨rfl, rfl⟩

theorem undo_of_group (hmaxDepth : 0 < s.undo.maxDepth) {entry : UndoEntry Line}
    (hdepth : s.undo.groupDepth = 1) (hentry : s.undo.groupCheckpoint = some entry)
    (hsees : s.SeesChange entry) (hchange : s.contents ≠ entry.contents) :
    (s.endUndoGroup.undoOnce unicode).1 = true ∧
      (s.endUndoGroup.undoOnce unicode).2.contents = entry.contents := by
  have hchanged : s.changedFrom entry = true := by
    by_contra hsame
    exact hchange (contents_of_sees hsees (Bool.eq_false_iff.mpr hsame))
  have hend := endUndoGroup_close hdepth hentry
  rw [hchanged, if_pos rfl] at hend
  have hstack : ∃ stack, s.endUndoGroup.undo.stack = entry :: stack := by
    have hpush : s.endUndoGroup.undo.stack = (s.undo.push entry).stack := by
      rw [hend]
      rfl
    rw [hpush, UndoState.push]
    dsimp only
    split
    · rename_i hfull
      cases hrest : s.undo.stack with
      | nil =>
        rw [hrest, List.length_singleton] at hfull
        omega
      | cons first rest => exact ⟨_, List.dropLast_cons_of_ne_nil (List.cons_ne_nil _ _)⟩
    · exact ⟨_, rfl⟩
  obtain ⟨stack, hstack⟩ := hstack
  rw [undoOnce_of_cons hstack]
  exact ⟨rfl, rfl⟩

end Undo

/-- Where each group that closes is seen to have changed something or left the elements, undo and
redo restore: all the way back to the first contents and forward to the last; after an undo what was
before it; one undo what was before a group; and cancelling what was before the group, with the
history as it was. -/
theorem undo_redo_restore {unicode : Unicode} {s₀ s : TextArea Line} {ops : List (Op Line)}
    (hempty : s₀.EmptyHistory) (hcursor : s₀.CursorOnBoundary unicode)
    (hops : ∀ op ∈ ops, op.IsUndoable) (hrun : s₀.run unicode ops = some s)
    (hseen : s₀.Along unicode (Seen unicode) ops) :
    (s₀.Along unicode (Fits unicode) ops → s.undo.groupDepth = 0 →
      ∀ n, s.undo.stack.length ≤ n →
        let u := undoUntilFalse unicode n s
        (u.undoOnce unicode).1 = false ∧ u.contents = s₀.contents ∧
          ∀ m, u.undo.redo.length ≤ m →
            ((redoUntilFalse unicode m u).redoOnce unicode).1 = false ∧
              (redoUntilFalse unicode m u).contents = s.contents) ∧
      (∀ t : TextArea Line, (t.undoOnce unicode).1 = true →
        ((t.undoOnce unicode).2.redoOnce unicode).1 = true ∧
          ((t.undoOnce unicode).2.redoOnce unicode).2.contents = t.contents) ∧
      (s.undo.groupDepth = 0 → ∀ (body : List (Op Line)) (u : TextArea Line),
        (∀ op ∈ body, op.IsUndoable) → StaysOpen 1 body →
        s.beginUndoGroup.run unicode body = some u →
        (u.undo.groupDepth = 1 → u.Seen unicode .endUndoGroup → u.contents ≠ s.contents →
          (u.endUndoGroup.undoOnce unicode).1 = true ∧
            (u.endUndoGroup.undoOnce unicode).2.contents = s.contents) ∧
          (u.cancelUndoGroup unicode).contents = s.contents ∧
          (u.cancelUndoGroup unicode).cursor = s.cursor ∧
          (u.cancelUndoGroup unicode).undo.stack = s.undo.stack ∧
          (u.cancelUndoGroup unicode).undo.redo = s.undo.redo) := by
  obtain ⟨hok, hboundary, hsteps⟩ := grouped_run hempty.historyOk hrun hops hseen
  refine ⟨fun hfits hclosed n hn => ?_, fun t => redo_of_undo, fun hclosed body u hbody hstays hu => ?_⟩
  · apply undo_all_redo_all _ hclosed hn
    apply Grouped.Fresh.steps _ (hsteps hfits)
    refine ⟨?_, ?_, fun _ => contents_eq_now hempty.groupDepth⟩
    · rw [grouped, timeline_of_closed hempty.groupDepth, hempty.stack]
      rfl
    · rw [grouped, timeline, hempty.redo]
      rfl
  · have hdepth : s.beginUndoGroup.undo.groupDepth = 1 := by
      change s.undo.groupDepth + 1 = 1
      rw [hclosed]
    have hpoint : s.beginUndoGroup.undo.groupCheckpoint = some s.snapshot := by
      rw [beginUndoGroup, hclosed]
      rfl
    rw [← hdepth] at hstays
    obtain ⟨hstack, hredo, hmaxDepth, hcheckpoint, hopen⟩ := kept_of_staysOpen hu hbody hstays
    rw [hpoint] at hcheckpoint
    refine ⟨fun hone hsees hchange => ?_, ?_, ?_, ?_, ?_⟩
    · apply undo_of_group _ hone hcheckpoint (hsees hone _ hcheckpoint) hchange
      rw [hmaxDepth]
      exact hok.maxDepth
    · rw [cancelUndoGroup_open hopen hcheckpoint]
      rfl
    · rw [cancelUndoGroup_open hopen hcheckpoint]
      exact unicode.normalize_eq_self _ (hboundary hcursor)
    · rw [cancelUndoGroup_open hopen hcheckpoint]
      exact hstack
    · rw [cancelUndoGroup_open hopen hcheckpoint]
      exact hredo

/-- The text and the elements behind some operations on an empty text area. -/
def typed (ops : List (Op Unit)) : TextArea Unit := (new.run marks ops).getD new

theorem undo_redo_restore_typed :
    (undoUntilFalse marks 1 (typed [.insertStr ['a']])).contents = ([], []) ∧
      (((typed [.insertStr ['a']]).beginUndoGroup.run marks [.insertStr ['b']]).getD
        new).endUndoGroup.undo.stack.length = 2 ∧
      ((((typed [.insertStr ['a']]).beginUndoGroup.run marks [.insertStr ['b']]).getD
        new).endUndoGroup.undoOnce marks).2.contents = (['a'], []) := by
  have hrun : new.run marks [.insertStr ['a']] = some (typed [.insertStr ['a']]) := by
    decide
  have hbody : (typed [.insertStr ['a']]).beginUndoGroup.run marks [.insertStr ['b']] =
      some (((typed [.insertStr ['a']]).beginUndoGroup.run marks [.insertStr ['b']]).getD new) := by
    decide
  have hundoable (text : Text) : ∀ op ∈ ([.insertStr text] : List (Op Unit)), op.IsUndoable := by
    intro op hop
    rw [List.mem_singleton.mp hop]
    trivial
  obtain ⟨hall, -, hgroup⟩ := undo_redo_restore emptyHistory_new (marks.zero []) (hundoable ['a'])
    hrun ⟨trivial, fun _ _ => trivial⟩
  have hclosed : (typed [.insertStr ['a']]).undo.groupDepth = 0 := by decide
  refine ⟨?_, ?_, ?_⟩
  · refine (hall ⟨fun _ _ => Or.inl (by decide), fun _ _ => trivial⟩ hclosed 1 ?_).2.1
    decide
  · decide
  · refine ((hgroup hclosed _ _ (hundoable ['b']) ⟨Nat.one_pos, Nat.one_pos⟩ hbody).1 ?_ ?_ ?_).2.trans ?_
    · decide
    · intro _ checkpoint hcheckpoint
      have hpoint : (((typed [.insertStr ['a']]).beginUndoGroup.run marks
          [.insertStr ['b']]).getD new).undo.groupCheckpoint =
            some (typed [.insertStr ['a']]).snapshot := by
        decide
      rw [hpoint] at hcheckpoint
      cases hcheckpoint
      left
      decide
    · decide +kernel
    · decide

/-- A group that puts one element in place of another with the same text leaves no trace, and undo
does not bring the first one back. -/
theorem group_of_elements_lost :
    let s₀ := (typed [.insertElement ['a', 'b'] 1 none]).clearHistory
    let ops := [.beginUndoGroup, .replaceRangeWithElement ⟨0, 2⟩ ['a', 'b'] 2 none, .endUndoGroup]
    let s := (s₀.run marks ops).getD s₀
    s₀.EmptyHistory ∧ s₀.CursorOnBoundary marks ∧ s₀.run marks ops = some s ∧
      s.undo.groupDepth = 0 ∧ s.contents ≠ s₀.contents ∧
      (s.undoOnce marks).1 = false ∧ (undoUntilFalse marks 1 s).contents ≠ s₀.contents := by
  refine ⟨⟨rfl, rfl, ?_, rfl, ?_⟩, ?_, ?_, ?_, ?_, ?_, ?_⟩
  · decide
  · decide
  · change marks.isBoundary _ _ = true
    decide
  · decide
  · decide
  · decide
  · decide
  · decide

end TextArea

end Ezer.Textarea
