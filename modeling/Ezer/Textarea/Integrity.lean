import Ezer.Textarea.Elements
import Ezer.Textarea.UndoRedo

/-!
# Integrity of the text area

In every state the elements keep their text, and so do those in the history. The cursor
is at a boundary, and it is outside of the elements as long as no element begins or ends
between the place the cursor is put at and the boundary it goes to.
-/

namespace Ezer.Textarea

open Lib

/-- No range begins or ends between an offset and where it is moved. -/
def Clear (p q : ℕ) (ranges : List ByteRange) : Prop :=
  ∀ r ∈ ranges, ¬(p ≤ r.start ∧ r.start < q) ∧ ¬(q < r.stop ∧ r.stop ≤ p)

theorem Outside.of_clear {p q : ℕ} {ranges : List ByteRange} (h : Outside p ranges)
    (hclear : Clear p q ranges) : Outside q ranges := by
  intro r hr
  have hout := h r hr
  obtain ⟨hstart, hstop⟩ := hclear r hr
  omega

namespace TextArea

variable {Line : Type}

section Clean

variable (unicode : Unicode) (s : TextArea Line)

/-- The elements behind a plan. -/
def elementsBehind (plan : EditPlan) : List (TextElement Line) :=
  if isSemanticEdit plan then
    shiftElements s.elements plan.replacedByteRange.start
      (plan.replacedByteRange.stop - plan.replacedByteRange.start) (byteLen plan.replacement)
  else s.elements

/-- A plan moves its cursor to a boundary without passing over the edge of an element. -/
def PlanClean (plan : EditPlan) : Prop :=
  ∀ b outcome, s.text.applyValidatedPlan unicode.toGraphemes plan = some (b, outcome) →
    Clear plan.cursorByte b.cursorByte ((s.elementsBehind plan).map TextElement.range)

/-- A command does so. -/
def CommandClean (command : EditCommand) : Prop :=
  s.PlanClean unicode (s.text.planCommand unicode command s.elementRanges)

/-- Replacing a range does so. -/
def ReplacementClean (range : ByteRange) (text : Text) : Prop :=
  s.PlanClean unicode (s.planEditReplacement unicode range text)

/-- Inserting at the cursor does so. -/
def InsertClean (text : Text) : Prop :=
  text ≠ [] → s.ReplacementClean unicode ⟨s.cursor, s.cursor⟩ text

/-- Moving the cursor to an offset does so. -/
def MoveClean (pos : ℕ) : Prop :=
  Clear pos (unicode.normalizeExternalCursor s.text.text pos) s.elementRanges

/-- Each of some deletions does so. -/
def DeletesClean (command : EditCommand) : ℕ → TextArea Line → Prop
  | 0, _ => True
  | n + 1, s => s.CommandClean unicode command ∧
    ∀ t outcome, s.applyEditCommand unicode command (some .delete) = some (t, outcome) →
      DeletesClean command n t

/-- The deletion of some graphemes does so. -/
def GraphemesClean (command : EditCommand) (n : ℕ) : Prop :=
  if n = 1 then s.CommandClean unicode command
  else DeletesClean unicode command n s.beginUndoGroup

/-- Deleting what is selected does so. The cursor is put where the selection began, which is at
the place of the edit. -/
def DeleteSelectionClean : Prop :=
  ∀ range, s.selectionRange = some range → s.ReplacementClean unicode range [] ∧
    ∀ t, s.applyEditReplacement unicode range [] (some .replace) = some t →
      Clear (s.planEditReplacement unicode range []).replacedByteRange.start
        (unicode.normalizeExternalCursor t.text.text (min range.start t.len)) t.elementRanges

/-- Putting something in place of what is selected does so. -/
def OverSelectionClean (insert : TextArea Line → Prop) : Prop :=
  s.beginUndoGroup.DeleteSelectionClean unicode ∧
    ∀ t, s.beginUndoGroup.deleteSelection unicode = some t → insert t

/-- Putting an element into the text does so. -/
def ElementClean (plan : EditPlan) (kind : ℕ) (display : Option Line) : Prop :=
  ∀ t, s.applyElementTransaction unicode plan kind display = some t →
    Clear (plan.replacedByteRange.start + byteLen plan.replacement)
      (unicode.normalizeExternalCursor t.text.text
        (plan.replacedByteRange.start + byteLen plan.replacement)) t.elementRanges

/-- Making an element a part of the text does so. -/
def InlineClean (id : ℕ) : Prop :=
  ∀ e, s.elements.find? (fun e => decide (e.id = id)) = some e →
    Clear e.range.stop (unicode.normalizeExternalCursor s.text.text e.range.stop)
      ((s.elements.eraseP fun e => decide (e.id = id)).map TextElement.range)

/-- An operation moves the cursor to boundaries without passing over the edge of an element. -/
def Clean (s : TextArea Line) : Op Line → Prop
  | .insertStr text => s.InsertClean unicode text
  | .insertStrAt pos text => text ≠ [] → s.ReplacementClean unicode ⟨pos, pos⟩ text
  | .replaceRange range text => s.ReplacementClean unicode range text
  | .applyClassifiedCommand (.insert character) => s.InsertClean unicode [character]
  | .applyClassifiedCommand command => s.CommandClean unicode command
  | .deleteBackward n => s.GraphemesClean unicode .deleteGraphemeBackward n
  | .deleteForward n => s.GraphemesClean unicode .deleteGraphemeForward n
  | .deleteBackwardWord => s.CommandClean unicode (.deleteWordBackward .small)
  | .deleteBackwardUnixWord => s.CommandClean unicode (.deleteWordBackward .whitespaceDelimited)
  | .deleteForwardWord => s.CommandClean unicode (.deleteWordForward .small)
  | .killToEndOfLine => s.CommandClean unicode .deleteToLineEnd
  | .killToBeginningOfLine => s.CommandClean unicode .deleteToLineStart
  | .killCurrentLine =>
    let bol := s.beginningOfLine s.cursor
    let eol := s.endOfLine s.cursor
    if bol = eol then 0 < bol → s.ReplacementClean unicode ⟨bol - 1, bol⟩ []
    else s.ReplacementClean unicode ⟨bol, eol⟩ []
  | .yank =>
    s.killBuffer ≠ [] → match s.selectionRange with
    | none => s.ReplacementClean unicode ⟨s.cursor, s.cursor⟩ s.killBuffer
    | some _ => s.OverSelectionClean unicode fun t =>
      t.ReplacementClean unicode ⟨t.cursor, t.cursor⟩ s.killBuffer
  | .insertElement text kind display =>
    s.ElementClean unicode (s.planEditReplacement unicode ⟨s.cursor, s.cursor⟩ text) kind display
  | .replaceRangeWithElement range text kind display =>
    s.ElementClean unicode (s.planEditReplacement unicode range text) kind display
  | .inlineElement id => s.InlineClean unicode id
  | .deleteSelection => s.DeleteSelectionClean unicode
  | .insertStrReplacingSelection text =>
    match s.selectionRange with
    | none => s.InsertClean unicode text
    | some _ => s.OverSelectionClean unicode fun t => t.InsertClean unicode text
  | .setCursor pos => s.MoveClean unicode (s.clampPosToNearestBoundary (min pos s.len))
  | .moveCursorUp view => s.MoveClean unicode (s.cursorUpTarget unicode view)
  | .moveCursorDown view => s.MoveClean unicode (s.cursorDownTarget unicode view)
  | .moveCursorToBeginningOfLine view =>
    s.MoveClean unicode (s.clampPosToNearestBoundary (min (s.beginningOfLineTarget view) s.len))
  | .moveCursorToEndOfLine view =>
    s.MoveClean unicode (s.clampPosToNearestBoundary (min (s.endOfLineTarget unicode view) s.len))
  | _ => True

end Clean

/-- What holds of a state that is kept. Whether the cursor is to be outside of the elements is
asked for separately. -/
structure EntryOk (unicode : Unicode) (strict : Prop) (created : List (ℕ × Text))
    (entry : UndoEntry Line) : Prop where
  elements : ElementsOk created entry.text entry.elements
  boundary : unicode.isBoundary entry.text entry.cursor = true
  outside : strict → Outside entry.cursor (entry.elements.map TextElement.range)

/-- Every element that was created has a number of its own, and the next one is new. -/
def FreshIds (created : List (ℕ × Text)) (next : ℕ) : Prop :=
  (created.map Prod.fst).Nodup ∧ ∀ x ∈ created, x.1 < next

theorem FreshIds.concat {created : List (ℕ × Text)} {next : ℕ} (h : FreshIds created next)
    (text : Text) : FreshIds (created ++ [(next, text)]) (next + 1) := by
  refine ⟨?_, fun x hx => ?_⟩
  · rw [List.map_append, List.nodup_append]
    refine ⟨h.1, List.nodup_singleton _, fun a ha b hb => ?_⟩
    obtain ⟨x, hx, rfl⟩ := List.mem_map.mp ha
    rw [List.mem_singleton.mp hb]
    exact (h.2 x hx).ne
  · rcases List.mem_append.mp hx with hx | hx
    · exact (h.2 x hx).trans (Nat.lt_succ_self _)
    · rw [List.mem_singleton.mp hx]
      exact Nat.lt_succ_self _

/-- What holds of a text area and of its history. -/
structure Sane (unicode : Unicode) (strict : Prop) (created : List (ℕ × Text)) (s : TextArea Line) :
    Prop where
  now : EntryOk unicode strict created s.snapshot
  stack : ∀ entry ∈ s.undo.stack, EntryOk unicode strict created entry
  redo : ∀ entry ∈ s.undo.redo, EntryOk unicode strict created entry
  checkpoint : ∀ entry, s.undo.groupCheckpoint = some entry →
    EntryOk unicode strict created entry
  fresh : FreshIds created s.nextElementId

section Basic

variable {unicode : Unicode} {strict : Prop} {created : List (ℕ × Text)} {s t : TextArea Line}

theorem EntryOk.mono {entry : UndoEntry Line} (h : EntryOk unicode strict created entry)
    (more : List (ℕ × Text)) : EntryOk unicode strict (created ++ more) entry :=
  ⟨h.elements.mono, h.boundary, h.outside⟩

/-- The state may become another one, with what the history keeps as it is. -/
theorem Sane.of_now (h : Sane unicode strict created s) (hstack : t.undo.stack = s.undo.stack)
    (hredo : t.undo.redo = s.undo.redo)
    (hcheckpoint : t.undo.groupCheckpoint = s.undo.groupCheckpoint)
    (hid : t.nextElementId = s.nextElementId) (hnow : EntryOk unicode strict created t.snapshot) :
    Sane unicode strict created t := by
  refine ⟨hnow, ?_, ?_, ?_, ?_⟩
  · rw [hstack]
    exact h.stack
  · rw [hredo]
    exact h.redo
  · rw [hcheckpoint]
    exact h.checkpoint
  · rw [hid]
    exact h.fresh

/-- What is neither text, element nor kept in the history does not matter. -/
theorem Sane.of_same (h : Sane unicode strict created s) (htext : t.text = s.text)
    (helements : t.elements = s.elements) (hid : t.nextElementId = s.nextElementId)
    (hstack : t.undo.stack = s.undo.stack) (hredo : t.undo.redo = s.undo.redo)
    (hcheckpoint : t.undo.groupCheckpoint = s.undo.groupCheckpoint) :
    Sane unicode strict created t := by
  apply h.of_now hstack hredo hcheckpoint hid
  have hsnapshot : t.snapshot = s.snapshot := by
    rw [snapshot, snapshot, cursor, cursor, htext, helements]
  rw [hsnapshot]
  exact h.now

theorem mem_stack_push {u : UndoState Line} {entry x : UndoEntry Line}
    (hx : x ∈ (u.push entry).stack) : x = entry ∨ x ∈ u.stack := by
  rw [UndoState.push] at hx
  dsimp only at hx
  split at hx
  · exact List.mem_cons.mp (List.dropLast_subset _ hx)
  · exact List.mem_cons.mp hx

theorem Sane.of_push (h : Sane unicode strict created s) (kind : MutationKind) (shouldPush : Bool) :
    Sane unicode strict created { s with
      undo := { (if shouldPush then s.undo.push s.snapshot else s.undo) with
        redo := []
        lastKind := some kind } } := by
  cases shouldPush with
  | true =>
    refine ⟨h.now, fun entry hentry => ?_, nofun, h.checkpoint, h.fresh⟩
    rcases mem_stack_push hentry with rfl | hmem
    · exact h.now
    · exact h.stack entry hmem
  | false => exact ⟨h.now, h.stack, nofun, h.checkpoint, h.fresh⟩

theorem Sane.preMutate (h : Sane unicode strict created s) (kind : MutationKind) :
    Sane unicode strict created (s.preMutate kind) := by
  rw [TextArea.preMutate]
  split
  · exact h
  · exact h.of_push kind _

theorem Sane.postMutate (h : Sane unicode strict created s) :
    Sane unicode strict created s.postMutate := h.of_same rfl rfl rfl rfl rfl rfl

theorem Sane.resetBatching (h : Sane unicode strict created s) :
    Sane unicode strict created s.resetBatching := h.of_same rfl rfl rfl rfl rfl rfl

theorem Sane.noteInsertWs (h : Sane unicode strict created s) (text : Text) :
    Sane unicode strict created (s.noteInsertWs text) := by
  rw [TextArea.noteInsertWs]
  split
  · exact h
  · exact h.of_same rfl rfl rfl rfl rfl rfl

theorem Sane.beginUndoGroup (h : Sane unicode strict created s) :
    Sane unicode strict created s.beginUndoGroup := by
  refine ⟨h.now, h.stack, h.redo, fun entry hentry => ?_, h.fresh⟩
  rw [TextArea.beginUndoGroup] at hentry
  dsimp only at hentry
  split at hentry
  · cases hentry
    exact h.now
  · exact h.checkpoint entry hentry

theorem Sane.endUndoGroup (h : Sane unicode strict created s) :
    Sane unicode strict created s.endUndoGroup := by
  rw [TextArea.endUndoGroup.eq_def]
  split
  · exact h
  dsimp only
  split
  · exact h.of_same rfl rfl rfl rfl rfl rfl
  · apply Sane.resetBatching
    cases hcheckpoint : s.undo.groupCheckpoint with
    | none => exact ⟨h.now, h.stack, h.redo, by rintro _ ⟨⟩, h.fresh⟩
    | some checkpoint =>
      dsimp only
      split
      · refine ⟨h.now, fun entry hentry => ?_, by rintro _ ⟨⟩, by rintro _ ⟨⟩, h.fresh⟩
        rcases mem_stack_push hentry with rfl | hmem
        · exact h.checkpoint _ hcheckpoint
        · exact h.stack entry hmem
      · exact ⟨h.now, h.stack, h.redo, by rintro _ ⟨⟩, h.fresh⟩

/-- Taking the state of an entry puts the cursor where it was. -/
theorem snapshot_restore {entry : UndoEntry Line} (h : EntryOk unicode strict created entry) :
    (s.restore unicode entry).snapshot = entry := by
  have hcursor := unicode.normalize_eq_self entry.text h.boundary
  rw [restore, snapshot, cursor, EditBuffer.fromParts]
  dsimp only
  rw [hcursor]

theorem Sane.cancelUndoGroup (h : Sane unicode strict created s) :
    Sane unicode strict created (s.cancelUndoGroup unicode) := by
  rw [TextArea.cancelUndoGroup]
  split
  · exact h
  dsimp only
  split
  · rename_i checkpoint hcheckpoint
    have hok := h.checkpoint checkpoint hcheckpoint
    apply Sane.resetBatching
    refine ⟨?_, h.stack, h.redo, by rintro _ ⟨⟩, h.fresh⟩
    rw [snapshot_restore hok]
    exact hok
  · apply Sane.resetBatching
    exact ⟨h.now, h.stack, h.redo, by rintro _ ⟨⟩, h.fresh⟩

theorem Sane.undoOnce (h : Sane unicode strict created s) :
    Sane unicode strict created (s.undoOnce unicode).2 := by
  cases hstack : s.undo.stack with
  | nil =>
    rw [undoOnce_of_nil hstack]
    exact h
  | cons entry stack =>
    rw [undoOnce_of_cons hstack]
    have hsub : ∀ x ∈ entry :: stack, EntryOk unicode strict created x := hstack ▸ h.stack
    have hok := hsub entry List.mem_cons_self
    apply Sane.resetBatching
    refine ⟨?_, fun x hx => hsub x (List.mem_cons_of_mem _ hx), fun x hx => ?_, h.checkpoint,
      h.fresh⟩
    · rw [snapshot_restore hok]
      exact hok
    · rcases List.mem_cons.mp hx with rfl | hx
      · exact h.now
      · exact h.redo x hx

theorem Sane.redoOnce (h : Sane unicode strict created s) :
    Sane unicode strict created (s.redoOnce unicode).2 := by
  cases hredo : s.undo.redo with
  | nil =>
    rw [redoOnce_of_nil hredo]
    exact h
  | cons entry redo =>
    rw [redoOnce_of_cons hredo]
    have hsub : ∀ x ∈ entry :: redo, EntryOk unicode strict created x := hredo ▸ h.redo
    have hok := hsub entry List.mem_cons_self
    apply Sane.resetBatching
    refine ⟨?_, fun x hx => ?_, fun x hx => hsub x (List.mem_cons_of_mem _ hx), h.checkpoint,
      h.fresh⟩
    · rw [snapshot_restore hok]
      exact hok
    · rcases List.mem_cons.mp hx with rfl | hx
      · exact h.now
      · exact h.stack x hx

end Basic

section Moves

variable {unicode : Unicode} {strict : Prop} {created : List (ℕ × Text)} {s t : TextArea Line}

/-- The cursor may be put at an offset that is in no element. -/
theorem Sane.setCursorInner (h : Sane unicode strict created s) {pos : ℕ}
    (hpos : strict → Outside pos s.elementRanges) (hclean : strict → s.MoveClean unicode pos) :
    Sane unicode strict created (s.setCursorInner unicode pos) := by
  obtain ⟨htext, hcursor⟩ := text_setCursorByte unicode.toGraphemes s.text pos
  have hundo : (s.setCursorInner unicode pos).undo = s.undo := rfl
  have hid : (s.setCursorInner unicode pos).nextElementId = s.nextElementId := rfl
  apply h.of_now (by rw [hundo]) (by rw [hundo]) (by rw [hundo]) hid
  refine ⟨?_, cursorOnBoundary_setCursorInner s pos, fun hstrict => ?_⟩
  · rw [snapshot, TextArea.setCursorInner]
    dsimp only
    rw [htext]
    exact h.now.elements
  · rw [snapshot, TextArea.cursor, TextArea.setCursorInner]
    dsimp only
    rw [hcursor]
    exact (hpos hstrict).of_clear (hclean hstrict)

theorem Sane.setCursor (h : Sane unicode strict created s) {pos : ℕ}
    (hclean : strict → s.MoveClean unicode (s.clampPosToNearestBoundary (min pos s.len))) :
    Sane unicode strict created (s.setCursor unicode pos) :=
  h.setCursorInner (fun _ => outside_clampPosToNearestBoundary h.now.elements _) hclean

theorem outside_displayColToBufferPos {text : Text} (hs : ElementsOk created text s.elements)
    (view : View Line) (lineEnd fuel pos width : ℕ) :
    Outside (s.displayColToBufferPos unicode view lineEnd fuel pos width) s.elementRanges := by
  induction fuel generalizing pos width with
  | zero => exact outside_clampPosToNearestBoundary hs _
  | succ fuel ih =>
    rw [displayColToBufferPos]
    split
    · exact outside_clampPosToNearestBoundary hs _
    dsimp only
    split
    · rename_i e hfind
      obtain ⟨hstart, hstop⟩ := outside_edges hs (List.mem_of_find?_eq_some hfind)
      have hnear (shown pos width : ℕ) : Outside
          (if view.targetCol < width + shown then
            if view.targetCol - width ≤ shown - (view.targetCol - width) then e.range.start
            else e.range.stop
          else s.displayColToBufferPos unicode view lineEnd fuel pos (width + shown))
          s.elementRanges := by
        split
        · split
          · exact hstart
          · exact hstop
        · exact ih _ _
      split
      · exact hnear _ _ _
      · split
        · exact hstop
        · exact ih _ _
    · split
      · exact outside_clampPosToNearestBoundary hs _
      · split
        · exact outside_clampPosToNearestBoundary hs _
        · exact ih _ _

theorem outside_displayColTarget {text : Text} (hs : ElementsOk created text s.elements)
    (view : View Line) (row : ByteRange) (endKind : RowEnd) :
    Outside (s.displayColTarget unicode view row endKind) s.elementRanges := by
  rw [displayColTarget]
  cases endKind with
  | hardBreak => exact outside_displayColToBufferPos hs _ _ _ _ _
  | softWrap =>
    rw [clampToRow]
    split
    · rename_i hfind
      exact outside_of_findElementContaining hfind
    · rename_i e hfind
      exact (outside_edges hs (List.mem_of_find?_eq_some hfind)).1

theorem outside_zero (ranges : List ByteRange) : Outside 0 ranges := fun _ _ => Or.inl (Nat.zero_le _)

theorem outside_len (hs : ElementsOk created s.text.text s.elements) :
    Outside s.len s.elementRanges := by
  intro r hr
  obtain ⟨e, he, rfl⟩ := List.mem_map.mp hr
  exact Or.inr (hs.le e he).2

theorem outside_cursorUpTarget (hs : ElementsOk created s.text.text s.elements) (view : View Line) :
    Outside (s.cursorUpTarget unicode view) s.elementRanges := by
  rw [cursorUpTarget]
  split
  · split
    · exact outside_displayColTarget hs _ _ _
    · exact outside_zero _
  · split
    · exact outside_displayColTarget hs _ _ _
    · exact outside_zero _

theorem outside_cursorDownTarget (hs : ElementsOk created s.text.text s.elements)
    (view : View Line) : Outside (s.cursorDownTarget unicode view) s.elementRanges := by
  rw [cursorDownTarget]
  split
  · split
    · exact outside_displayColTarget hs _ _ _
    · exact outside_len hs
  · split
    · exact outside_displayColTarget hs _ _ _
    · exact outside_len hs

end Moves

section Edits

variable {unicode : Unicode} {strict : Prop} {created : List (ℕ × Text)} {s t : TextArea Line}
  {plan : EditPlan} {kind : Option MutationKind} {outcome : EditOutcome}

/-- A plan is made from what the text area holds. -/
def Sound (unicode : Unicode) (s : TextArea Line) (plan : EditPlan) : Prop :=
  plan.Sound unicode s.text
    (normalizeAtomicRanges unicode.toGraphemes s.text.text s.elementRanges)

theorem Sane.sound_command (h : Sane unicode strict created s) (command : EditCommand) :
    s.Sound unicode (s.text.planCommand unicode command s.elementRanges) :=
  sound_planCommand h.now.boundary command s.elementRanges

theorem Sane.sound_replacement (h : Sane unicode strict created s) (range : ByteRange) (text : Text) :
    s.Sound unicode (s.planEditReplacement unicode range text) :=
  sound_planReplaceByteRange h.now.boundary range (s.expandTabs text) s.elementRanges

/-- A plan that was checked can be applied. -/
theorem exists_applyValidatedPlan (hvalid : s.text.validatePlan unicode plan = .ok ()) :
    ∃ b outcome, s.text.applyValidatedPlan unicode.toGraphemes plan = some (b, outcome) := by
  obtain ⟨u, v, htext, hstart, hstop⟩ := getBytes_eq_some (getBytes_of_valid hvalid)
  rw [EditBuffer.applyValidatedPlan]
  dsimp only
  split
  · rw [htext, replaceRange_append hstart hstop]
    exact ⟨_, _, rfl⟩
  · exact ⟨_, _, rfl⟩

theorem exists_applyValidatedEditPlan (hvalid : s.text.validatePlan unicode plan = .ok ())
    (kind : Option MutationKind) :
    ∃ t outcome, s.applyValidatedEditPlan unicode plan kind = some (t, outcome) := by
  obtain ⟨b, outcome, hb⟩ := exists_applyValidatedPlan hvalid
  rw [applyValidatedEditPlan, hb]
  dsimp only [Option.bind_eq_bind, Option.bind_some]
  split
  · exact ⟨_, _, rfl⟩
  · exact ⟨_, _, rfl⟩

theorem exists_applyEditPlan (hvalid : s.text.validatePlan unicode plan = .ok ())
    (kind : Option MutationKind) :
    ∃ t outcome, s.applyEditPlan unicode plan kind = some (t, outcome) := by
  rw [applyEditPlan.eq_def, hvalid]
  cases kind with
  | none => exact exists_applyValidatedEditPlan hvalid none
  | some k =>
    dsimp only
    split
    · have hpre : (s.preMutate k).text.validatePlan unicode plan = .ok () := by
        rw [preMutate_text]
        exact hvalid
      obtain ⟨t, outcome, ht⟩ := exists_applyValidatedEditPlan hpre (some k)
      rw [ht]
      exact ⟨_, _, rfl⟩
    · exact exists_applyValidatedEditPlan hvalid (some k)

theorem entryOk_of_applied (h : EntryOk unicode strict created s.snapshot)
    (hsound : s.Sound unicode plan) (happlied : Applied unicode s t plan outcome)
    (hclean : strict → s.PlanClean unicode plan) : EntryOk unicode strict created t.snapshot := by
  refine ⟨elementsOk_applied happlied hsound.valid h.elements (aligned_of_sound h.elements hsound),
    happlied.cursorOnBoundary hsound.valid, fun hstrict => ?_⟩
  have hout := outside_cursorByte happlied h.elements hsound
  have hclear := hclean hstrict t.text outcome happlied.buffer
  have helements : s.elementsBehind plan = t.elements := happlied.elements.symm
  rw [helements] at hclear
  exact hout.of_clear hclear

/-- A plan is applied, and the state behind it is sane. -/
theorem Sane.applyEditPlan (h : Sane unicode strict created s) (hsound : s.Sound unicode plan)
    (hclean : strict → s.PlanClean unicode plan) (kind : Option MutationKind) :
    ∃ t outcome, s.applyEditPlan unicode plan kind = some (t, outcome) ∧
      Sane unicode strict created t := by
  obtain ⟨t, outcome, ht⟩ := exists_applyEditPlan hsound.valid kind
  obtain ⟨-, happlied, hundo⟩ := applied_of_plan ht
  have hnow := entryOk_of_applied h.now hsound happlied hclean
  refine ⟨t, outcome, ht, ?_⟩
  rcases hundo with ⟨hundo, -⟩ | ⟨k, -, -, hundo⟩
  · exact h.of_now (by rw [hundo]) (by rw [hundo]) (by rw [hundo]) happlied.nextElementId hnow
  · apply (h.preMutate k).of_now (by rw [hundo]) (by rw [hundo]) (by rw [hundo]) _ hnow
    rw [preMutate_nextElementId]
    exact happlied.nextElementId

theorem Sane.applyEditCommand (h : Sane unicode strict created s) (command : EditCommand)
    (hclean : strict → s.CommandClean unicode command) (kind : Option MutationKind) :
    ∃ t outcome, s.applyEditCommand unicode command kind = some (t, outcome) ∧
      Sane unicode strict created t :=
  h.applyEditPlan (h.sound_command command) hclean kind

theorem Sane.command (h : Sane unicode strict created s) (command : EditCommand)
    (hclean : strict → s.CommandClean unicode command) (kind : Option MutationKind) :
    ∃ t, (s.applyEditCommand unicode command kind).map Prod.fst = some t ∧
      Sane unicode strict created t := by
  obtain ⟨t, outcome, ht, hsane⟩ := h.applyEditCommand command hclean kind
  refine ⟨t, ?_, hsane⟩
  rw [ht]
  rfl

theorem Sane.replacement (h : Sane unicode strict created s) {range : ByteRange} {text : Text}
    (hclean : strict → s.ReplacementClean unicode range text) (kind : Option MutationKind) :
    ∃ t, s.applyEditReplacement unicode range text kind = some t ∧
      Sane unicode strict created t := by
  obtain ⟨t, outcome, ht, hsane⟩ := h.applyEditPlan (h.sound_replacement range text) hclean kind
  refine ⟨t, ?_, hsane⟩
  rw [applyEditReplacement, ht]
  rfl

theorem Sane.setText (h : Sane unicode strict created s) (text : Text) :
    ∃ t, s.setText unicode text = some t ∧ Sane unicode strict created t := by
  have hvalid := (h.sound_replacement ⟨0, s.len⟩ text).valid
  rw [TextArea.setText]
  dsimp only
  rw [hvalid, preMutate_text]
  obtain ⟨b, outcome, hb⟩ := exists_applyValidatedPlan hvalid
  rw [hb]
  refine ⟨_, rfl, ?_⟩
  apply Sane.postMutate
  refine (h.preMutate .replace).of_now ?_ ?_ ?_ ?_ ⟨?_, ?_, ?_⟩
  · rfl
  · rfl
  · rfl
  · rfl
  · exact elementsOk_nil _ _
  · exact cursorOnBoundary_setCursorInner _ _
  · rintro - _ ⟨⟩

theorem Sane.insertStr (h : Sane unicode strict created s) (text : Text)
    (hclean : strict → s.InsertClean unicode text) :
    ∃ t, s.insertStr unicode text = some t ∧ Sane unicode strict created t := by
  cases text with
  | nil => exact ⟨s, rfl, h⟩
  | cons c text =>
    have hinsert (r : TextArea Line) (hr : Sane unicode strict created r)
        (hr' : strict → r.ReplacementClean unicode ⟨r.cursor, r.cursor⟩ (c :: text)) :
        ∃ t, (do
          let t ← r.applyEditReplacement unicode ⟨r.cursor, r.cursor⟩ (c :: text) (some .insert)
          return t.noteInsertWs (c :: text)) = some t ∧ Sane unicode strict created t := by
      obtain ⟨t, ht, hsane⟩ := hr.replacement hr' (some .insert)
      exact ⟨_, by rw [ht]; rfl, hsane.noteInsertWs _⟩
    have hfirst : strict → s.ReplacementClean unicode ⟨s.cursor, s.cursor⟩ (c :: text) :=
      fun hstrict => hclean hstrict (List.cons_ne_nil _ _)
    rw [TextArea.insertStr]
    dsimp only
    split
    · exact hinsert { s with undo := { s.undo with lastKind := none } }
        (h.of_same rfl rfl rfl rfl rfl rfl) hfirst
    · exact hinsert s h hfirst

theorem Sane.insertStrAt (h : Sane unicode strict created s) (pos : ℕ) (text : Text)
    (hclean : strict → text ≠ [] → s.ReplacementClean unicode ⟨pos, pos⟩ text) :
    ∃ t, s.insertStrAt unicode pos text = some t ∧ Sane unicode strict created t := by
  rw [TextArea.insertStrAt]
  split
  · exact ⟨s, rfl, h⟩
  · rename_i hne
    rw [List.isEmpty_iff] at hne
    obtain ⟨t, ht, hsane⟩ := h.replacement (fun hstrict => hclean hstrict hne) (some .insert)
    exact ⟨_, by rw [ht]; rfl, hsane.noteInsertWs _⟩

theorem Sane.deleteTimes {command : EditCommand} {n : ℕ} (h : Sane unicode strict created s)
    (hclean : strict → DeletesClean unicode command n s) :
    ∃ t, deleteTimes unicode command n s = some t ∧ Sane unicode strict created t := by
  induction n generalizing s with
  | zero => exact ⟨s, rfl, h⟩
  | succ n ih =>
    obtain ⟨t, outcome, ht, hsane⟩ :=
      h.applyEditCommand command (fun hstrict => (hclean hstrict).1) (some .delete)
    rw [TextArea.deleteTimes, ht]
    dsimp only [Option.bind_eq_bind, Option.bind_some]
    split
    · exact ⟨t, rfl, hsane⟩
    · exact ih hsane fun hstrict => (hclean hstrict).2 t outcome ht

theorem Sane.deleteGraphemes {command : EditCommand} {n : ℕ} (h : Sane unicode strict created s)
    (hclean : strict → s.GraphemesClean unicode command n) :
    ∃ t, s.deleteGraphemes unicode command n = some t ∧ Sane unicode strict created t := by
  rw [TextArea.deleteGraphemes]
  split
  · exact ⟨s, rfl, h⟩
  split
  · rename_i hone
    apply h.command
    intro hstrict
    have hfirst := hclean hstrict
    rw [GraphemesClean, if_pos hone] at hfirst
    exact hfirst
  · rename_i hmany
    obtain ⟨t, ht, hsane⟩ : ∃ t, TextArea.deleteTimes unicode command n s.beginUndoGroup = some t ∧
        Sane unicode strict created t := by
      apply h.beginUndoGroup.deleteTimes
      intro hstrict
      have htimes := hclean hstrict
      rw [GraphemesClean, if_neg hmany] at htimes
      exact htimes
    exact ⟨_, by rw [ht]; rfl, hsane.endUndoGroup⟩

theorem Sane.deleteSelection (h : Sane unicode strict created s)
    (hclean : strict → s.DeleteSelectionClean unicode) :
    ∃ t, s.deleteSelection unicode = some t ∧ Sane unicode strict created t := by
  rw [TextArea.deleteSelection.eq_def]
  cases hrange : s.selectionRange with
  | none => exact ⟨s, rfl, h⟩
  | some range =>
    obtain ⟨u, hu, hsane⟩ : ∃ u, s.applyEditReplacement unicode range [] (some .replace) = some u ∧
        Sane unicode strict created u :=
      h.replacement (fun hstrict => (hclean hstrict range hrange).1) _
    dsimp only
    rw [hu]
    refine ⟨_, rfl, ?_⟩
    have hmoved : Sane unicode strict created
        (u.setCursorInner unicode (min range.start u.len)) := by
      obtain ⟨htext, hcursor⟩ :=
        text_setCursorByte unicode.toGraphemes u.text (min range.start u.len)
      refine hsane.of_now rfl rfl rfl rfl ⟨?_, cursorOnBoundary_setCursorInner _ _, ?_⟩
      · rw [snapshot, TextArea.setCursorInner]
        dsimp only
        rw [htext]
        exact hsane.now.elements
      · intro hstrict
        rw [snapshot, TextArea.cursor, TextArea.setCursorInner]
        dsimp only
        rw [hcursor]
        apply Outside.of_clear _ ((hclean hstrict range hrange).2 u hu)
        obtain ⟨⟨u', outcome⟩, hplan, rfl⟩ := Option.map_eq_some_iff.mp hu
        obtain ⟨hvalid, happlied, -⟩ := applied_of_plan hplan
        exact outside_replaced happlied hvalid
          (aligned_of_sound h.now.elements (h.sound_replacement range []))
    exact (hmoved.postMutate).of_same rfl rfl rfl rfl rfl rfl

theorem Sane.overSelection (h : Sane unicode strict created s)
    {insert : TextArea Line → Option (TextArea Line)} {clean : TextArea Line → Prop}
    (hinsert : ∀ u, Sane unicode strict created u → (strict → clean u) →
      ∃ t, insert u = some t ∧ Sane unicode strict created t)
    (hclean : strict → s.OverSelectionClean unicode clean) :
    ∃ u t, s.beginUndoGroup.deleteSelection unicode = some u ∧ insert u = some t ∧
      Sane unicode strict created t.endUndoGroup := by
  obtain ⟨u, hu, hsane⟩ := h.beginUndoGroup.deleteSelection fun hstrict => (hclean hstrict).1
  obtain ⟨t, ht, hsane⟩ := hinsert u hsane fun hstrict => (hclean hstrict).2 u hu
  exact ⟨u, t, hu, ht, hsane.endUndoGroup⟩

theorem Sane.insertStrReplacingSelection (h : Sane unicode strict created s) (text : Text)
    (hclean : strict → s.Clean unicode (.insertStrReplacingSelection text)) :
    ∃ t, s.insertStrReplacingSelection unicode text = some t ∧ Sane unicode strict created t := by
  rw [TextArea.insertStrReplacingSelection.eq_def]
  simp only [Clean] at hclean
  cases hrange : s.selectionRange with
  | none =>
    rw [hrange] at hclean
    have hcleared : Sane unicode strict created s.clearSelection :=
      h.of_same rfl rfl rfl rfl rfl rfl
    exact hcleared.insertStr text hclean
  | some range =>
    rw [hrange] at hclean
    obtain ⟨u, t, hu, ht, hsane⟩ := h.overSelection
      (fun u hu hclean => hu.insertStr text hclean) hclean
    dsimp only
    rw [hu]
    refine ⟨t.endUndoGroup, ?_, hsane⟩
    change (TextArea.insertStr unicode u text >>= fun t => some t.endUndoGroup) = _
    rw [ht]
    rfl

theorem Sane.yank (h : Sane unicode strict created s)
    (hclean : strict → s.Clean unicode .yank) :
    ∃ t, s.yank unicode = some t ∧ Sane unicode strict created t := by
  rw [TextArea.yank.eq_def]
  simp only [Clean] at hclean
  split
  · exact ⟨s, rfl, h⟩
  rename_i hkilled
  rw [List.isEmpty_iff] at hkilled
  dsimp only
  cases hrange : s.selectionRange with
  | none =>
    rw [hrange] at hclean
    obtain ⟨t, ht, hsane⟩ := h.replacement (fun hstrict => hclean hstrict hkilled) (some .insert)
    dsimp only
    rw [ht]
    exact ⟨_, rfl, hsane.noteInsertWs _⟩
  | some range =>
    rw [hrange] at hclean
    obtain ⟨u, t, hu, ht, hsane⟩ := h.overSelection
      (fun u hu hclean => hu.replacement hclean (some .insert))
      fun hstrict => hclean hstrict hkilled
    dsimp only
    rw [hu]
    refine ⟨t.endUndoGroup.noteInsertWs s.killBuffer, ?_, hsane.noteInsertWs _⟩
    change (u.applyEditReplacement unicode ⟨u.cursor, u.cursor⟩ s.killBuffer (some .insert) >>=
      fun t => some (t.endUndoGroup.noteInsertWs s.killBuffer)) = _
    rw [ht]
    rfl

theorem Sane.killCurrentLine (h : Sane unicode strict created s)
    (hclean : strict → s.Clean unicode .killCurrentLine) :
    ∃ t, s.killCurrentLine unicode = some t ∧ Sane unicode strict created t := by
  rw [TextArea.killCurrentLine]
  simp only [Clean] at hclean
  split
  · rename_i hempty
    rw [if_pos hempty] at hclean
    split
    · rename_i hpos
      exact h.replacement (fun hstrict => hclean hstrict hpos) (some .kill)
    · exact ⟨s, rfl, h⟩
  · rename_i hline
    rw [if_neg hline] at hclean
    exact h.replacement hclean (some .kill)

/-- An element that is put into the text spans what was inserted. -/
theorem Sane.applyElementTransaction (h : Sane unicode strict created s)
    (hsound : s.Sound unicode plan) (mark : ℕ) (display : Option Line)
    (hclean : strict → s.ElementClean unicode plan mark display) :
    ∃ t, s.applyElementTransaction unicode plan mark display = some t ∧
      Sane unicode strict (created ++ [(s.nextElementId, plan.replacement)]) t := by
  have hvalid : (s.preMutate .element).text.validatePlan unicode plan = .ok () := by
    rw [preMutate_text]
    exact hsound.valid
  obtain ⟨u, outcome, hu⟩ := exists_applyValidatedEditPlan hvalid (some .element)
  obtain ⟨happlied, hundo⟩ := applied_of_validated hu
  have hold : ElementsOk created (s.preMutate .element).text.text
      (s.preMutate .element).elements := by
    rw [preMutate_text, preMutate_elements]
    exact h.now.elements
  have haligned : ∀ e ∈ (s.preMutate .element).elements,
      plan.replacedByteRange.Aligned e.range := by
    rw [preMutate_elements]
    exact aligned_of_sound h.now.elements hsound
  have hmid := elementsOk_applied happlied hvalid hold haligned
  obtain ⟨a, b, -, htext, hstart, -⟩ := happlied.splice hvalid
  obtain ⟨a', b', -, hstart', hstop'⟩ := getBytes_eq_some (getBytes_of_valid hvalid)
  have hid : u.nextElementId = s.nextElementId := by
    rw [happlied.nextElementId, preMutate_nextElementId]
  have hslice : getBytes u.text.text plan.replacedByteRange.start
      (plan.replacedByteRange.start + byteLen plan.replacement) = some plan.replacement := by
    rw [htext, ← hstart]
    exact getBytes_append _ _ _
  have hnew := elementsOk_addElement ⟨plan.replacedByteRange.start,
    plan.replacedByteRange.start + byteLen plan.replacement⟩ mark display hmid hslice
    fun e' he' => by
      obtain ⟨e, -, -, hplace⟩ := mem_of_applied happlied hvalid haligned he'
      rcases hplace with ⟨hbefore, hsame⟩ | ⟨hbehind, hmoved⟩
      · rw [hsame]
        exact Or.inl hbefore
      · rw [hmoved]
        dsimp only
        omega
  have hmem := mem_addElement u ⟨plan.replacedByteRange.start,
    plan.replacedByteRange.start + byteLen plan.replacement⟩ mark display
  have hout := (outside_edges hnew hmem).2
  have hclamp := clampPos_of_outside hout (hnew.le _ hmem).2
  rw [hid] at hnew
  have htransaction : s.applyElementTransaction unicode plan mark display =
      some (((u.addElement ⟨plan.replacedByteRange.start,
        plan.replacedByteRange.start + byteLen plan.replacement⟩ mark display).setCursor unicode
          (plan.replacedByteRange.start + byteLen plan.replacement)).postMutate) := by
    rw [TextArea.applyElementTransaction.eq_def, hsound.valid]
    dsimp only
    rw [hu]
    rfl
  have hclear := fun hstrict => hclean hstrict _ htransaction
  refine ⟨_, htransaction, ?_⟩
  have hnext : (u.addElement ⟨plan.replacedByteRange.start,
      plan.replacedByteRange.start + byteLen plan.replacement⟩ mark display).nextElementId =
        s.nextElementId + 1 := congrArg (· + 1) hid
  have hundo : (u.addElement ⟨plan.replacedByteRange.start,
      plan.replacedByteRange.start + byteLen plan.replacement⟩ mark display).undo =
        (s.preMutate .element).undo := hundo
  have hlen := (hnew.le _ hmem).2
  generalize u.addElement ⟨plan.replacedByteRange.start,
    plan.replacedByteRange.start + byteLen plan.replacement⟩ mark display = w at *
  generalize plan.replacedByteRange.start + byteLen plan.replacement = stop at *
  have hmin : min stop w.len = stop := Nat.min_eq_left hlen
  dsimp only at hclamp
  obtain ⟨hsame, hcursor⟩ := text_setCursorByte unicode.toGraphemes w.text stop
  have hset : w.setCursor unicode stop = w.setCursorInner unicode stop := by
    rw [TextArea.setCursor, hmin, hclamp]
  rw [hset] at hclear ⊢
  have hpre := h.preMutate .element
  apply Sane.postMutate
  refine ⟨⟨?_, cursorOnBoundary_setCursorInner _ _, fun hstrict => ?_⟩, fun entry hentry => ?_,
    fun entry hentry => ?_, fun entry hentry => ?_, ?_⟩
  · rw [snapshot, TextArea.setCursorInner]
    dsimp only
    rw [hsame]
    exact hnew
  · have hq := hclear hstrict
    rw [TextArea.postMutate, TextArea.setCursorInner] at hq
    dsimp only at hq
    rw [hsame] at hq
    rw [snapshot, TextArea.cursor, TextArea.setCursorInner]
    dsimp only
    rw [hcursor]
    exact hout.of_clear hq
  · exact (hpre.stack entry (hundo ▸ hentry)).mono _
  · exact (hpre.redo entry (hundo ▸ hentry)).mono _
  · exact (hpre.checkpoint entry (hundo ▸ hentry)).mono _
  · change FreshIds _ w.nextElementId
    rw [hnext]
    exact h.fresh.concat _

theorem elementsOk_eraseP {elements : List (TextElement Line)} {text : Text}
    (h : ElementsOk created text elements) (p : TextElement Line → Bool) :
    ElementsOk created text (elements.eraseP p) :=
  ⟨h.sorted.sublist List.eraseP_sublist, h.apart.sublist List.eraseP_sublist,
    fun e he => h.spans e (List.mem_of_mem_eraseP he)⟩

theorem Sane.inlineElement (h : Sane unicode strict created s) (id : ℕ)
    (hclean : strict → s.InlineClean unicode id) :
    Sane unicode strict created (s.inlineElement unicode id) := by
  rw [TextArea.inlineElement.eq_def]
  cases hfind : s.elements.find? fun e => decide (e.id = id) with
  | none => exact h
  | some e =>
    have hpre := h.preMutate .element
    have hsub : ∀ r ∈ ((s.elements.eraseP fun e => decide (e.id = id)).map TextElement.range),
        r ∈ s.elementRanges := by
      intro r hr
      obtain ⟨f, hf, rfl⟩ := List.mem_map.mp hr
      exact List.mem_map_of_mem (List.mem_of_mem_eraseP hf)
    have herased : Sane unicode strict created { s.preMutate .element with
        elements := (s.preMutate .element).elements.eraseP fun e => decide (e.id = id) } := by
      refine hpre.of_now ?_ ?_ ?_ ?_ ⟨?_, ?_, fun hstrict r hr => ?_⟩
      · rfl
      · rfl
      · rfl
      · rfl
      · exact elementsOk_eraseP hpre.now.elements _
      · exact hpre.now.boundary
      · rw [snapshot, preMutate_elements] at hr
        have hout := hpre.now.outside hstrict r
        rw [snapshot, preMutate_elements] at hout
        exact hout (hsub r hr)
    have hmoved : Sane unicode strict created (TextArea.setCursorInner unicode
        { s.preMutate .element with
          elements := (s.preMutate .element).elements.eraseP fun e => decide (e.id = id) }
        e.range.stop) := by
      apply herased.setCursorInner
      · intro _ r hr
        rw [elementRanges, preMutate_elements] at hr
        exact (outside_edges h.now.elements (List.mem_of_find?_eq_some hfind)).2 r (hsub r hr)
      · intro hstrict
        rw [MoveClean, elementRanges, preMutate_text, preMutate_elements]
        exact hclean hstrict e hfind
    exact hmoved.of_same rfl rfl rfl rfl rfl rfl

end Edits

/-- What an operation creates. -/
def createdBy (s : TextArea Line) : Op Line → List (ℕ × Text)
  | .insertElement text _ _ | .replaceRangeWithElement _ text _ _ =>
    [(s.nextElementId, s.expandTabs text)]
  | _ => []

/-- What several operations create. -/
def createdAlong (unicode : Unicode) : TextArea Line → List (Op Line) → List (ℕ × Text)
  | _, [] => []
  | s, op :: ops => s.createdBy op ++
    match s.step unicode op with
    | some t => createdAlong unicode t ops
    | none => []

section Runs

variable {unicode : Unicode} {strict : Prop} {created : List (ℕ × Text)} {s t : TextArea Line}

theorem exists_of_some {P : TextArea Line → Prop} (h : P t) : ∃ u, some t = some u ∧ P u :=
  ⟨t, rfl, h⟩

/-- An operation that creates nothing ends, and the state behind it is sane. -/
theorem sane_of_step (h : Sane unicode strict created s) {op : Op Line}
    (hop : s.createdBy op = []) (hclean : strict → s.Clean unicode op) :
    ∃ t, s.step unicode op = some t ∧ Sane unicode strict created t := by
  cases op with
  | insertStr text => exact h.insertStr text hclean
  | insertStrAt pos text => exact h.insertStrAt pos text hclean
  | replaceRange range text => exact h.replacement hclean _
  | setText text => exact h.setText text
  | applyClassifiedCommand command =>
    cases command with
    | insert character => exact h.insertStr [character] hclean
    | moveGraphemeLeft | moveGraphemeRight | moveLogicalLineStart | moveLogicalLineEnd
    | deleteGraphemeBackward | deleteGraphemeForward | deleteToLineStart | deleteToLineEnd =>
      exact h.command _ hclean _
    | moveWordLeft | moveWordRight | deleteWordBackward | deleteWordForward =>
      exact h.command _ hclean _
  | deleteBackward | deleteForward => exact h.deleteGraphemes hclean
  | deleteBackwardWord | deleteBackwardUnixWord | deleteForwardWord | killToEndOfLine
  | killToBeginningOfLine =>
    exact h.command _ hclean _
  | killCurrentLine => exact h.killCurrentLine hclean
  | yank => exact h.yank hclean
  | insertElement | replaceRangeWithElement => cases hop
  | inlineElement id => exact exists_of_some (h.inlineElement id hclean)
  | setSelection | clearSelection => exact exists_of_some (h.of_same rfl rfl rfl rfl rfl rfl)
  | deleteSelection => exact h.deleteSelection hclean
  | insertStrReplacingSelection text => exact h.insertStrReplacingSelection text hclean
  | setCursor | moveCursorToBeginningOfLine | moveCursorToEndOfLine =>
    exact exists_of_some (h.setCursor hclean)
  | moveCursorUp view =>
    exact exists_of_some
      (h.setCursorInner (fun _ => outside_cursorUpTarget h.now.elements view) hclean)
  | moveCursorDown view =>
    exact exists_of_some
      (h.setCursorInner (fun _ => outside_cursorDownTarget h.now.elements view) hclean)
  | undo => exact exists_of_some h.undoOnce
  | redo => exact exists_of_some h.redoOnce
  | beginUndoGroup => exact exists_of_some h.beginUndoGroup
  | endUndoGroup => exact exists_of_some h.endUndoGroup
  | cancelUndoGroup => exact exists_of_some h.cancelUndoGroup

/-- An operation ends, and the state behind it is sane. -/
theorem sane_step (h : Sane unicode strict created s) (op : Op Line)
    (hclean : strict → s.Clean unicode op) :
    ∃ t, s.step unicode op = some t ∧ Sane unicode strict (created ++ s.createdBy op) t := by
  by_cases hop : s.createdBy op = []
  · rw [hop, List.append_nil]
    exact sane_of_step h hop hclean
  · cases op with
    | insertElement text kind display =>
      exact h.applyElementTransaction (h.sound_replacement _ text) kind display hclean
    | replaceRangeWithElement range text kind display =>
      exact h.applyElementTransaction (h.sound_replacement range text) kind display hclean
    | _ => exact (hop rfl).elim

theorem sane_run (h : Sane unicode strict created s) (ops : List (Op Line))
    (hclean : strict → s.Along unicode (Clean unicode) ops) :
    ∃ t, s.run unicode ops = some t ∧
      Sane unicode strict (created ++ s.createdAlong unicode ops) t := by
  induction ops generalizing s created with
  | nil =>
    refine ⟨s, rfl, ?_⟩
    rw [createdAlong, List.append_nil]
    exact h
  | cons op ops ih =>
    obtain ⟨u, hu, hsane⟩ := sane_step h op fun hstrict => (hclean hstrict).1
    obtain ⟨t, ht, hsane⟩ := ih hsane fun hstrict => (hclean hstrict).2 u hu
    refine ⟨t, ?_, ?_⟩
    · rw [run, hu]
      exact ht
    · rw [createdAlong, hu, ← List.append_assoc]
      exact hsane

theorem sane_new (strict : Prop) : Sane unicode strict [] (new : TextArea Line) :=
  ⟨⟨elementsOk_nil _ _, unicode.zero [], fun _ => nofun⟩, nofun, nofun, nofun, List.nodup_nil, nofun⟩

end Runs

/-- A plan the editor makes from a state. -/
inductive Planned (unicode : Unicode) (s : TextArea Line) : EditPlan → Prop where
  | command (command : EditCommand) :
    Planned unicode s (s.text.planCommand unicode command s.elementRanges)
  | replacement (range : ByteRange) (text : Text) :
    Planned unicode s (s.planEditReplacement unicode range text)

/-- Any operations on an empty text area end. The elements are in order, apart, and span what they
were created with; every plan passes its check and takes each element whole or leaves it; and the
cursor is at a boundary. It is outside of the elements where no operation moves it to a boundary
over the edge of one. -/
theorem integrity (unicode : Unicode) (ops : List (Op Line)) :
    ∃ s, (new : TextArea Line).run unicode ops = some s ∧
      ElementsOk (new.createdAlong unicode ops) s.text.text s.elements ∧
      ((new.createdAlong unicode ops).map Prod.fst).Nodup ∧
      (∀ e ∈ s.elements, e.range.start ≤ e.range.stop ∧ e.range.stop ≤ s.len) ∧
      (∀ plan, s.Planned unicode plan → s.text.validatePlan unicode plan = .ok () ∧
        ∀ e ∈ s.elements, plan.replacedByteRange.Aligned e.range) ∧
      s.CursorOnBoundary unicode ∧
      ((new : TextArea Line).Along unicode (Clean unicode) ops → Outside s.cursor s.elementRanges) := by
  obtain ⟨s, hs, hsane⟩ := sane_run (sane_new False) ops nofun
  rw [List.nil_append] at hsane
  have hplanned (plan : EditPlan) (hplan : s.Planned unicode plan) : s.Sound unicode plan := by
    cases hplan with
    | command command => exact hsane.sound_command command
    | replacement range text => exact hsane.sound_replacement range text
  refine ⟨s, hs, hsane.now.elements, hsane.fresh.1, hsane.now.elements.le, fun plan hplan => ?_,
    hsane.now.boundary, fun hclean => ?_⟩
  · exact ⟨(hplanned plan hplan).valid, aligned_of_sound hsane.now.elements (hplanned plan hplan)⟩
  · obtain ⟨t, ht, hstrict⟩ := sane_run (sane_new True) ops fun _ => hclean
    rw [hs] at ht
    cases ht
    exact hstrict.now.outside trivial




/-- A mark behind an element joins the last character of it, and the cursor that is put behind the
element goes into it. -/
theorem cursor_inside_element :
    let s := typed [.insertElement ['a', 'b'] 1 none, .insertStr ['\u0301'], .setCursor 2]
    new.run marks [.insertElement ['a', 'b'] 1 none, .insertStr ['\u0301'], .setCursor 2] = some s ∧
      s.elementRanges = [⟨0, 2⟩] ∧ s.cursor = 1 ∧ ¬Outside s.cursor s.elementRanges := by
  have hranges : (typed [.insertElement ['a', 'b'] 1 none, .insertStr ['\u0301'],
      .setCursor 2]).elementRanges = [⟨0, 2⟩] := by
    decide
  have hcursor : (typed [.insertElement ['a', 'b'] 1 none, .insertStr ['\u0301'],
      .setCursor 2]).cursor = 1 := by
    decide
  refine ⟨by decide, hranges, hcursor, ?_⟩
  rw [hranges, hcursor]
  intro hout
  have hsides := hout ⟨0, 2⟩ (List.mem_singleton_self _)
  dsimp only at hsides
  omega

end TextArea

end Ezer.Textarea
