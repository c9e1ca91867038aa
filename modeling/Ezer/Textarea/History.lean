import Ezer.Textarea.Steps
import Ezer.Lib.Timeline

/-!
# The history of the text area

An operation either leaves the history and the contents, or notes in the history what the
contents were, or goes on with the mutation that was noted last. Inside of a group only
the contents change.
-/

namespace Ezer.Textarea

open Lib

/-- What the history brings back. -/
abbrev Contents (Line : Type) : Type := Text × List (TextElement Line)

/-- The contents an entry keeps. -/
def UndoEntry.contents {Line : Type} (entry : UndoEntry Line) : Contents Line :=
  (entry.text, entry.elements)

namespace TextArea

variable {Line : Type}

/-- The contents. -/
def contents (s : TextArea Line) : Contents Line := (s.text.text, s.elements)

/-- The cursor is at a boundary of the text. -/
def CursorOnBoundary (unicode : Unicode) (s : TextArea Line) : Prop :=
  unicode.isBoundary s.text.text s.cursor = true

/-- Two states have the same history. -/
structure HistoryKept (s t : TextArea Line) : Prop where
  stack : t.undo.stack = s.undo.stack
  redo : t.undo.redo = s.undo.redo
  maxDepth : t.undo.maxDepth = s.undo.maxDepth
  groupDepth : t.undo.groupDepth = s.undo.groupDepth
  checkpoint : 0 < s.undo.groupDepth → t.undo.groupCheckpoint = s.undo.groupCheckpoint
  lastKind : t.undo.lastKind = none ∨ t.undo.lastKind = s.undo.lastKind

/-- A mutation outside of groups is noted, or continues the one that was noted last. -/
structure Recorded (s t : TextArea Line) : Prop where
  outside : s.undo.groupDepth = 0
  groupDepth : t.undo.groupDepth = 0
  maxDepth : t.undo.maxDepth = s.undo.maxDepth
  redo : t.undo.redo = []
  stack : t.undo.stack = (s.undo.push s.snapshot).stack ∨
    t.undo.stack = s.undo.stack ∧ s.undo.lastKind ≠ none

/-- What an operation does that neither opens nor closes a group. -/
structure Edited (unicode : Unicode) (s t : TextArea Line) : Prop where
  history : (HistoryKept s t ∧ (s.undo.groupDepth = 0 → t.contents = s.contents)) ∨ Recorded s t
  cursor : s.CursorOnBoundary unicode → t.CursorOnBoundary unicode

/-- What an operation does that changes no contents. -/
structure Alike (unicode : Unicode) (s t : TextArea Line) : Prop where
  history : HistoryKept s t
  contents : t.contents = s.contents
  cursor : s.CursorOnBoundary unicode → t.CursorOnBoundary unicode

section Relations

variable {unicode : Unicode} {s t u : TextArea Line}

theorem HistoryKept.refl (s : TextArea Line) : HistoryKept s s :=
  ⟨rfl, rfl, rfl, rfl, fun _ => rfl, Or.inr rfl⟩

theorem HistoryKept.trans (h : HistoryKept s t) (k : HistoryKept t u) : HistoryKept s u := by
  refine ⟨k.stack.trans h.stack, k.redo.trans h.redo, k.maxDepth.trans h.maxDepth,
    k.groupDepth.trans h.groupDepth, fun hopen => ?_, ?_⟩
  · apply (k.checkpoint _).trans (h.checkpoint hopen)
    rw [h.groupDepth]
    exact hopen
  · rcases k.lastKind with hnone | hsame
    · exact Or.inl hnone
    · rw [hsame]
      exact h.lastKind

theorem historyKept_of_undo (h : t.undo = s.undo) : HistoryKept s t := by
  refine ⟨?_, ?_, ?_, ?_, fun _ => ?_, Or.inr ?_⟩
  all_goals rw [h]

theorem historyKept_of_lastCursor {n : ℕ} (h : t.undo = { s.undo with lastCursor := n }) :
    HistoryKept s t := by
  refine ⟨?_, ?_, ?_, ?_, fun _ => ?_, Or.inr ?_⟩
  all_goals rw [h]

theorem Alike.refl (s : TextArea Line) : Alike unicode s s := ⟨.refl s, rfl, id⟩

theorem Alike.trans (h : Alike unicode s t) (k : Alike unicode t u) : Alike unicode s u :=
  ⟨h.history.trans k.history, k.contents.trans h.contents, k.cursor ∘ h.cursor⟩

theorem Alike.edited (h : Alike unicode s t) : Edited unicode s t :=
  ⟨Or.inl ⟨h.history, fun _ => h.contents⟩, h.cursor⟩

theorem Edited.alike (h : Edited unicode s t) (k : Alike unicode t u) : Edited unicode s u := by
  refine ⟨?_, k.cursor ∘ h.cursor⟩
  rcases h.history with ⟨hkept, hsame⟩ | hrecorded
  · exact Or.inl ⟨hkept.trans k.history, fun hclosed => k.contents.trans (hsame hclosed)⟩
  · refine Or.inr ⟨hrecorded.outside, k.history.groupDepth.trans hrecorded.groupDepth,
      k.history.maxDepth.trans hrecorded.maxDepth, k.history.redo.trans hrecorded.redo, ?_⟩
    rw [k.history.stack]
    exact hrecorded.stack

/-- What is neither text nor element nor history does not matter. -/
theorem Edited.of_same (h : Edited unicode s t) {r : TextArea Line} (htext : s.text = r.text)
    (helements : s.elements = r.elements) (hundo : s.undo = r.undo) : Edited unicode r t := by
  have hsnapshot : s.snapshot = r.snapshot := by
    rw [snapshot, snapshot, TextArea.cursor, TextArea.cursor, htext, helements]
  obtain ⟨hhistory, hcursor⟩ := h
  rw [CursorOnBoundary, TextArea.cursor, htext] at hcursor
  refine ⟨?_, hcursor⟩
  rcases hhistory with ⟨hkept, hsame⟩ | hrecorded
  · left
    refine ⟨(historyKept_of_undo hundo).trans hkept, fun houtside => ?_⟩
    rw [hsame (by rw [hundo, houtside]), contents, contents, htext, helements]
  · right
    have hstack := hrecorded.stack
    rw [hundo, hsnapshot] at hstack
    have houtside := hrecorded.outside
    have hdepth := hrecorded.maxDepth
    rw [hundo] at houtside hdepth
    exact ⟨houtside, hrecorded.groupDepth, hdepth, hrecorded.redo, hstack⟩

/-- Inside of a group an operation leaves the history. -/
theorem Edited.kept (h : Edited unicode s t) (hopen : 0 < s.undo.groupDepth) : HistoryKept s t := by
  rcases h.history with ⟨hkept, -⟩ | hrecorded
  · exact hkept
  · have houtside := hrecorded.outside
    omega

theorem kept_of_edits (h : Relation.ReflTransGen (Edited unicode) s t)
    (hopen : 0 < s.undo.groupDepth) : HistoryKept s t := by
  induction h with
  | refl => exact .refl s
  | tail _ hstep ih =>
    apply ih.trans (hstep.kept _)
    rw [ih.groupDepth]
    exact hopen

theorem cursor_of_edits (h : Relation.ReflTransGen (Edited unicode) s t)
    (hcursor : s.CursorOnBoundary unicode) : t.CursorOnBoundary unicode := by
  induction h with
  | refl => exact hcursor
  | tail _ hstep ih => exact hstep.cursor ih

end Relations

section Alike

variable {unicode : Unicode} (s : TextArea Line)

/-- A change of what the history does not keep. -/
theorem alike_of_text (t : TextArea Line) (htext : t.text = s.text) (helements : t.elements = s.elements)
    (hhistory : HistoryKept s t) : Alike unicode s t := by
  refine ⟨hhistory, ?_, fun h => ?_⟩
  · rw [contents, contents, htext, helements]
  · rw [CursorOnBoundary, cursor, htext]
    exact h

theorem alike_postMutate : Alike unicode s s.postMutate :=
  alike_of_text s _ rfl rfl ⟨rfl, rfl, rfl, rfl, fun _ => rfl, Or.inr rfl⟩

theorem alike_clearSelection : Alike unicode s s.clearSelection :=
  alike_of_text s _ rfl rfl (historyKept_of_undo rfl)

theorem alike_setSelection (anchor head : ℕ) : Alike unicode s (s.setSelection anchor head) :=
  alike_of_text s _ rfl rfl (historyKept_of_undo rfl)

theorem alike_noteInsertWs (text : Text) : Alike unicode s (s.noteInsertWs text) := by
  rw [noteInsertWs]
  split
  · exact .refl s
  · exact alike_of_text s _ rfl rfl ⟨rfl, rfl, rfl, rfl, fun _ => rfl, Or.inr rfl⟩

theorem text_setCursorByte (g : Graphemes) (b : EditBuffer) (pos : ℕ) :
    (b.setCursorByte g pos).1.text = b.text ∧
      (b.setCursorByte g pos).1.cursorByte = g.normalizeExternalCursor b.text pos := by
  rw [EditBuffer.setCursorByte]
  split
  · exact ⟨rfl, rfl⟩
  · exact EditBuffer.same_of_generation
      { b with cursorByte := g.normalizeExternalCursor b.text pos } true

theorem cursorOnBoundary_setCursorInner (pos : ℕ) :
    (s.setCursorInner unicode pos).CursorOnBoundary unicode := by
  obtain ⟨htext, hcursor⟩ := text_setCursorByte unicode.toGraphemes s.text pos
  rw [CursorOnBoundary, cursor, setCursorInner, htext, hcursor]
  exact unicode.isBoundary_normalize _ _

theorem alike_setCursorInner (pos : ℕ) : Alike unicode s (s.setCursorInner unicode pos) := by
  obtain ⟨htext, hcursor⟩ := text_setCursorByte unicode.toGraphemes s.text pos
  refine ⟨historyKept_of_undo rfl, ?_, fun _ => cursorOnBoundary_setCursorInner s pos⟩
  rw [contents, contents, setCursorInner, htext]

theorem alike_setCursor (pos : ℕ) : Alike unicode s (s.setCursor unicode pos) :=
  alike_setCursorInner s _

end Alike

section Edits

variable {unicode : Unicode} {s t u : TextArea Line}

theorem recorded_of_push (kind : MutationKind) (shouldPush : Bool)
    (houtside : s.undo.groupDepth = 0) (hbatch : shouldPush = false → s.undo.lastKind ≠ none) :
    Recorded s { s with
      undo := { (if shouldPush then s.undo.push s.snapshot else s.undo) with
        redo := []
        lastKind := some kind } } := by
  cases shouldPush with
  | true => exact ⟨houtside, houtside, rfl, rfl, Or.inl rfl⟩
  | false => exact ⟨houtside, houtside, rfl, rfl, Or.inr ⟨rfl, hbatch rfl⟩⟩

theorem recorded_preMutate (kind : MutationKind) (houtside : s.undo.groupDepth = 0) :
    Recorded s (s.preMutate kind) := by
  rw [preMutate, if_neg (by omega)]
  apply recorded_of_push kind _ houtside
  intro hbatch hnone
  rw [hnone] at hbatch
  cases hbatch

theorem preMutate_of_open (kind : MutationKind) (hopen : 0 < s.undo.groupDepth) :
    s.preMutate kind = s := by
  rw [preMutate, if_pos hopen]

/-- A mutation is noted before it happens. -/
theorem Edited.of_preMutate (kind : MutationKind) (h : HistoryKept (s.preMutate kind) t)
    (hcursor : s.CursorOnBoundary unicode → t.CursorOnBoundary unicode) : Edited unicode s t := by
  refine ⟨?_, hcursor⟩
  rcases Nat.eq_zero_or_pos s.undo.groupDepth with houtside | hopen
  · have hpre := recorded_preMutate kind houtside
    right
    refine ⟨houtside, h.groupDepth.trans hpre.groupDepth, h.maxDepth.trans hpre.maxDepth,
      h.redo.trans hpre.redo, ?_⟩
    rw [h.stack]
    exact hpre.stack
  · rw [preMutate_of_open kind hopen] at h
    left
    exact ⟨h, fun houtside => by omega⟩

/-- A plan that was checked leaves the cursor at a boundary. -/
theorem Applied.cursorOnBoundary {plan : EditPlan} {outcome : EditOutcome}
    (h : Applied unicode s t plan outcome) (hvalid : s.text.validatePlan unicode plan = .ok ()) :
    t.CursorOnBoundary unicode := by
  have hedited := EditBuffer.edited_of_plan h.buffer
  have hcursor := hedited.cursor
  rw [CursorOnBoundary, cursor, hcursor]
  cases haffinity : plan.cursorAffinity with
  | right => exact unicode.isBoundary_ceil _ _
  | exact =>
    rw [EditBuffer.validatePlan] at hvalid
    split at hvalid
    · cases hvalid
    split at hvalid
    · cases hvalid
    split at hvalid
    · cases hvalid
    split at hvalid
    · cases hvalid
    split at hvalid
    · cases hvalid
    · rename_i hexact
      rw [not_and_or, not_or, not_not, Bool.not_eq_false] at hexact
      rcases hexact with hne | ⟨hsame, hboundary⟩
      · exact (hne haffinity).elim
      · rw [hedited.keeps hsame.symm]
        exact hboundary

theorem edited_of_plan {plan : EditPlan} {kind : Option MutationKind} {outcome : EditOutcome}
    (h : s.applyEditPlan unicode plan kind = some (t, outcome))
    (hkind : kind = none → isSemanticEdit plan = false) : Edited unicode s t := by
  obtain ⟨hvalid, happlied, hundo⟩ := applied_of_plan h
  have hcursor := happlied.cursorOnBoundary hvalid
  rcases hundo with ⟨hundo, hnone⟩ | ⟨k, -, -, hundo⟩
  · have hplan : isSemanticEdit plan = false := by
      by_contra hsemantic
      rw [Bool.not_eq_false] at hsemantic
      rw [hkind (hnone hsemantic)] at hsemantic
      cases hsemantic
    obtain ⟨htext, helements⟩ := happlied.contents hplan
    refine ⟨Or.inl ⟨historyKept_of_undo hundo, fun _ => ?_⟩, fun _ => hcursor⟩
    rw [contents, contents, htext, helements]
  · apply Edited.of_preMutate k _ fun _ => hcursor
    exact historyKept_of_lastCursor hundo

theorem edited_of_replacement {range : ByteRange} {text : Text} {kind : MutationKind}
    (h : s.applyEditReplacement unicode range text (some kind) = some t) : Edited unicode s t := by
  obtain ⟨⟨u, outcome⟩, hplan, rfl⟩ := Option.map_eq_some_iff.mp h
  exact edited_of_plan hplan nofun

theorem isSemanticEdit_move (b : EditBuffer) (c target : ℕ) :
    isSemanticEdit (b.makePlan ⟨c, c⟩ [] target .exact) = false := by
  have hremoved : (getBytes b.text c c).getD [] = [] := by
    cases hbytes : getBytes b.text c c with
    | none => rfl
    | some m =>
      obtain ⟨u, v, -, hstart, hstop⟩ := getBytes_eq_some hbytes
      rw [Option.getD_some]
      by_contra hne
      have hpos := byteLen_pos hne
      omega
  rw [isSemanticEdit, EditBuffer.makePlan]
  dsimp only
  rw [hremoved]
  simp

theorem edited_of_command {command : EditCommand} {kind : MutationKind} {outcome : EditOutcome}
    (h : s.applyEditCommand unicode command (some kind) = some (t, outcome)) :
    Edited unicode s t :=
  edited_of_plan h nofun

theorem edited_applyClassifiedCommand_of {command : EditCommand} {kind : Option MutationKind}
    (h : (s.applyEditCommand unicode command kind).map Prod.fst = some t)
    (hkind : kind = none →
      isSemanticEdit (s.text.planCommand unicode command s.elementRanges) = false) :
    Edited unicode s t := by
  obtain ⟨⟨u, outcome⟩, hplan, rfl⟩ := Option.map_eq_some_iff.mp h
  exact edited_of_plan hplan hkind

theorem edited_setText {text : Text} (h : s.setText unicode text = some t) :
    Edited unicode s t := by
  rw [setText] at h
  dsimp only at h
  split at h
  · cases h
  obtain ⟨⟨buffer, outcome⟩, hbuffer, h⟩ := Option.bind_eq_some_iff.mp h
  cases h
  apply Edited.of_preMutate .replace
  · exact historyKept_of_lastCursor rfl
  · exact fun _ => (alike_postMutate _).cursor (cursorOnBoundary_setCursorInner _ _)

/-- Inserting a text with nothing before it notes no less than inserting it at once. -/
theorem edited_insertStr {text : Text} (h : s.insertStr unicode text = some t) :
    Edited unicode s t := by
  cases text with
  | nil =>
    cases h
    exact (Alike.refl s).edited
  | cons c text =>
    rw [insertStr] at h
    obtain ⟨u, hu, h⟩ := Option.bind_eq_some_iff.mp h
    cases h
    apply Edited.alike _ (alike_noteInsertWs u _)
    split at hu
    · obtain ⟨hhistory, hcursor⟩ := edited_of_replacement hu
      refine ⟨?_, hcursor⟩
      rcases hhistory with ⟨hkept, hsame⟩ | hrecorded
      · left
        exact ⟨⟨hkept.stack, hkept.redo, hkept.maxDepth, hkept.groupDepth, hkept.checkpoint,
          Or.inl (hkept.lastKind.elim id id)⟩, hsame⟩
      · right
        refine ⟨hrecorded.outside, hrecorded.groupDepth, hrecorded.maxDepth, hrecorded.redo, ?_⟩
        rcases hrecorded.stack with hpush | ⟨-, hkind⟩
        · exact Or.inl hpush
        · exact (hkind rfl).elim
    · exact edited_of_replacement hu

theorem edited_insertStrAt {pos : ℕ} {text : Text} (h : s.insertStrAt unicode pos text = some t) :
    Edited unicode s t := by
  rw [insertStrAt] at h
  split at h
  · cases h
    exact (Alike.refl s).edited
  · obtain ⟨u, hu, h⟩ := Option.bind_eq_some_iff.mp h
    cases h
    exact (edited_of_replacement hu).alike (alike_noteInsertWs u text)

theorem edited_deleteSelection (h : s.deleteSelection unicode = some t) : Edited unicode s t := by
  rw [deleteSelection.eq_def] at h
  split at h
  · cases h
    exact (Alike.refl s).edited
  · obtain ⟨u, hu, h⟩ := Option.bind_eq_some_iff.mp h
    cases h
    apply (edited_of_replacement hu).alike
    exact ((alike_setCursorInner u _).trans (alike_postMutate _)).trans (alike_clearSelection _)

theorem edited_killCurrentLine (h : s.killCurrentLine unicode = some t) : Edited unicode s t := by
  rw [killCurrentLine] at h
  split at h
  · split at h
    · exact edited_of_replacement h
    · cases h
      exact (Alike.refl s).edited
  · exact edited_of_replacement h

theorem edited_applyElementTransaction {plan : EditPlan} {kind : ℕ} {display : Option Line}
    (h : s.applyElementTransaction unicode plan kind display = some t) : Edited unicode s t := by
  rw [applyElementTransaction.eq_def] at h
  split at h
  · cases h
  obtain ⟨⟨u, outcome⟩, hu, h⟩ := Option.bind_eq_some_iff.mp h
  cases h
  have hundo := (applied_of_validated hu).2
  apply Edited.of_preMutate .element
  · apply (historyKept_of_undo hundo).trans
    exact historyKept_of_lastCursor rfl
  · exact fun _ => (alike_postMutate _).cursor (cursorOnBoundary_setCursorInner _ _)

theorem edited_inlineElement (id : ℕ) : Edited unicode s (s.inlineElement unicode id) := by
  rw [inlineElement.eq_def]
  split
  · exact (Alike.refl s).edited
  · apply Edited.of_preMutate .element
    · exact ⟨rfl, rfl, rfl, rfl, fun _ => rfl, Or.inl rfl⟩
    · exact fun _ => cursorOnBoundary_setCursorInner _ _

theorem edited_applyClassifiedCommand {command : EditCommand}
    (h : s.applyClassifiedCommand unicode command = some t) : Edited unicode s t := by
  cases command with
  | insert character =>
    have hinsert : s.insertStr unicode [character] = some t := h
    exact edited_insertStr hinsert
  | moveGraphemeLeft | moveGraphemeRight | moveWordLeft | moveWordRight =>
    exact edited_applyClassifiedCommand_of h fun _ => isSemanticEdit_move _ _ _
  | moveLogicalLineStart | moveLogicalLineEnd =>
    exact edited_applyClassifiedCommand_of h fun _ => isSemanticEdit_move _ _ _
  | deleteGraphemeBackward | deleteGraphemeForward | deleteToLineStart | deleteToLineEnd =>
    exact edited_applyClassifiedCommand_of h nofun
  | deleteWordBackward | deleteWordForward => exact edited_applyClassifiedCommand_of h nofun

end Edits

section Groups

variable {unicode : Unicode} {s t u : TextArea Line}

/-- A group is seen to have changed something, or it left the elements. -/
def SeesChange (s : TextArea Line) (checkpoint : UndoEntry Line) : Prop :=
  s.changedFrom checkpoint = true ∨ s.elements = checkpoint.elements

theorem contents_of_sees {checkpoint : UndoEntry Line} (hsees : s.SeesChange checkpoint)
    (hsame : s.changedFrom checkpoint = false) : s.contents = checkpoint.contents := by
  rcases hsees with hchanged | helements
  · rw [hsame] at hchanged
    cases hchanged
  · rw [changedFrom, Bool.or_eq_false_iff, Bool.or_eq_false_iff, decide_eq_false_iff_not,
      not_not] at hsame
    rw [contents, UndoEntry.contents, hsame.1.1, helements]

theorem endUndoGroup_close {checkpoint : UndoEntry Line} (hdepth : s.undo.groupDepth = 1)
    (hcheckpoint : s.undo.groupCheckpoint = some checkpoint) :
    s.endUndoGroup = resetBatching { s with
      undo :=
        if s.changedFrom checkpoint then
          { ({ s.undo with groupDepth := 0, groupCheckpoint := none }.push checkpoint) with
            redo := [] }
        else { s.undo with groupDepth := 0, groupCheckpoint := none } } := by
  rw [endUndoGroup.eq_def, hdepth, hcheckpoint]
  rfl

theorem endUndoGroup_inner {depth : ℕ} (hdepth : s.undo.groupDepth = depth + 2) :
    s.endUndoGroup = { s with undo := { s.undo with groupDepth := depth + 1 } } := by
  rw [endUndoGroup.eq_def, hdepth]
  dsimp only
  rw [if_pos (Nat.succ_pos depth)]

theorem endUndoGroup_outside (hdepth : s.undo.groupDepth = 0) : s.endUndoGroup = s := by
  rw [endUndoGroup.eq_def, hdepth]

theorem same_endUndoGroup (s : TextArea Line) :
    s.endUndoGroup.text = s.text ∧ s.endUndoGroup.elements = s.elements := by
  rw [endUndoGroup.eq_def]
  split
  · exact ⟨rfl, rfl⟩
  · dsimp only
    split
    · exact ⟨rfl, rfl⟩
    · exact ⟨rfl, rfl⟩

/-- A group that is opened and closed again is one operation. -/
theorem edited_group (hu : Relation.ReflTransGen (Edited unicode) s.beginUndoGroup u)
    (hseen : s.undo.groupDepth = 0 → u.SeesChange s.snapshot) :
    Edited unicode s u.endUndoGroup := by
  have hkept := kept_of_edits hu (Nat.succ_pos _)
  have hdepth : u.undo.groupDepth = s.undo.groupDepth + 1 := hkept.groupDepth
  have hcheckpoint := hkept.checkpoint (Nat.succ_pos _)
  obtain ⟨htext, helements⟩ := same_endUndoGroup u
  refine ⟨?_, fun hcursor => ?_⟩
  · rcases Nat.eq_zero_or_pos s.undo.groupDepth with houtside | hopen
    · have hpoint : s.beginUndoGroup.undo.groupCheckpoint = some s.snapshot := by
        rw [beginUndoGroup, houtside]
        rfl
      rw [hpoint] at hcheckpoint
      rw [houtside] at hdepth
      rw [endUndoGroup_close hdepth hcheckpoint]
      cases hchanged : u.changedFrom s.snapshot with
      | true =>
        right
        refine ⟨houtside, rfl, hkept.maxDepth, rfl, Or.inl ?_⟩
        change (UndoState.push _ s.snapshot).stack = _
        rw [UndoState.push, UndoState.push]
        dsimp only
        rw [hkept.stack, hkept.maxDepth]
        rfl
      | false =>
        left
        refine ⟨⟨hkept.stack, hkept.redo, hkept.maxDepth, houtside.symm, ?_, Or.inl rfl⟩, fun _ => ?_⟩
        · intro hopen
          omega
        · exact contents_of_sees (hseen houtside) hchanged
    · obtain ⟨depth, hpred⟩ := Nat.exists_eq_succ_of_ne_zero hopen.ne'
      have hpoint : s.beginUndoGroup.undo.groupCheckpoint = s.undo.groupCheckpoint := by
        rw [beginUndoGroup, if_neg hopen.ne']
      rw [hpoint] at hcheckpoint
      rw [hpred] at hdepth
      rw [endUndoGroup_inner hdepth]
      left
      refine ⟨⟨hkept.stack, hkept.redo, hkept.maxDepth, hpred.symm, fun _ => hcheckpoint,
        hkept.lastKind⟩, fun houtside => ?_⟩
      omega
  · rw [CursorOnBoundary, cursor, htext]
    exact cursor_of_edits hu hcursor

theorem shrinks_of_plan {plan : EditPlan} {kind : Option MutationKind} {outcome : EditOutcome}
    (h : s.applyEditPlan unicode plan kind = some (t, outcome)) (hplan : plan.replacement = []) :
    t.contents = s.contents ∨ byteLen t.text.text < byteLen s.text.text := by
  obtain ⟨hvalid, happlied, -⟩ := applied_of_plan h
  cases hsemantic : isSemanticEdit plan with
  | false =>
    obtain ⟨htext, helements⟩ := happlied.contents hsemantic
    left
    rw [contents, contents, htext, helements]
  | true =>
    obtain ⟨a, b, hs, ht, hstart, hstop⟩ := happlied.splice hvalid
    right
    have hne : 0 < byteLen plan.removedText := by
      rw [isSemanticEdit, Bool.or_eq_true, decide_eq_true_iff, decide_eq_true_iff, hplan] at hsemantic
      rcases hsemantic with hremoved | hrange
      · exact byteLen_pos hremoved
      · omega
    rw [hs, ht, hplan, byteLen_append, byteLen_append, byteLen_append, byteLen_append, byteLen_nil]
    omega

theorem edits_deleteTimes {command : EditCommand} {n : ℕ}
    (h : deleteTimes unicode command n s = some t) :
    Relation.ReflTransGen (Edited unicode) s t := by
  induction n generalizing s with
  | zero =>
    cases h
    exact .refl
  | succ n ih =>
    rw [deleteTimes] at h
    obtain ⟨⟨u, outcome⟩, hu, h⟩ := Option.bind_eq_some_iff.mp h
    have hedited := edited_of_command hu
    dsimp only at h
    split at h
    · cases h
      exact .single hedited
    · exact .head hedited (ih h)

theorem shrinks_deleteTimes {command : EditCommand} {n : ℕ}
    (hcommand : ∀ (b : EditBuffer) (ranges : List ByteRange),
      (b.planCommand unicode command ranges).replacement = [])
    (h : deleteTimes unicode command n s = some t) :
    t.contents = s.contents ∨ byteLen t.text.text < byteLen s.text.text := by
  induction n generalizing s with
  | zero =>
    cases h
    exact Or.inl rfl
  | succ n ih =>
    rw [deleteTimes] at h
    obtain ⟨⟨u, outcome⟩, hu, h⟩ := Option.bind_eq_some_iff.mp h
    have hfirst := shrinks_of_plan hu (hcommand _ _)
    dsimp only at h
    split at h
    · cases h
      exact hfirst
    · rcases ih h with hsame | hless
      · have htext : t.text.text = u.text.text := congrArg Prod.fst hsame
        rw [hsame, htext]
        exact hfirst
      · rcases hfirst with hsame | hshorter
        · have htext : u.text.text = s.text.text := congrArg Prod.fst hsame
          rw [htext] at hless
          exact Or.inr hless
        · exact Or.inr (hless.trans hshorter)

theorem edited_deleteGraphemes {command : EditCommand} {n : ℕ}
    (hcommand : ∀ (b : EditBuffer) (ranges : List ByteRange),
      (b.planCommand unicode command ranges).replacement = [])
    (h : s.deleteGraphemes unicode command n = some t) : Edited unicode s t := by
  rw [deleteGraphemes] at h
  split at h
  · cases h
    exact (Alike.refl s).edited
  split at h
  · exact edited_applyClassifiedCommand_of h nofun
  · obtain ⟨u, hu, rfl⟩ := Option.map_eq_some_iff.mp h
    apply edited_group (edits_deleteTimes hu)
    intro _
    rcases shrinks_deleteTimes hcommand hu with hsame | hshorter
    · exact Or.inr (congrArg Prod.snd hsame)
    · left
      have hne : s.text.text ≠ u.text.text := by
        intro heq
        have hbegin : s.beginUndoGroup.text.text = s.text.text := rfl
        rw [hbegin, heq] at hshorter
        exact lt_irrefl _ hshorter
      rw [changedFrom, snapshot, decide_eq_true hne, Bool.true_or, Bool.true_or]

/-- What is put in place of a selection, inside of a group. -/
def replacedSelection (unicode : Unicode) (insert : TextArea Line → Option (TextArea Line))
    (s : TextArea Line) : Option (TextArea Line) :=
  (s.beginUndoGroup.deleteSelection unicode).bind insert

theorem edited_replacedSelection {insert : TextArea Line → Option (TextArea Line)}
    (hinsert : ∀ v w, insert v = some w → Edited unicode v w)
    (h : replacedSelection unicode insert s = some u)
    (hseen : s.undo.groupDepth = 0 → u.SeesChange s.snapshot) :
    Edited unicode s u.endUndoGroup := by
  obtain ⟨v, hv, hu⟩ := Option.bind_eq_some_iff.mp h
  apply edited_group _ hseen
  exact (Relation.ReflTransGen.single (edited_deleteSelection hv)).tail (hinsert v u hu)

theorem edited_insertStrReplacingSelection {text : Text}
    (h : s.insertStrReplacingSelection unicode text = some t)
    (hseen : ∀ u, s.undo.groupDepth = 0 →
      replacedSelection unicode (insertStr unicode · text) s = some u → u.SeesChange s.snapshot) :
    Edited unicode s t := by
  rw [insertStrReplacingSelection.eq_def] at h
  split at h
  · exact (edited_insertStr h).of_same rfl rfl rfl
  · obtain ⟨v, hv, h⟩ := Option.bind_eq_some_iff.mp h
    obtain ⟨u, hu, h⟩ := Option.bind_eq_some_iff.mp h
    cases h
    have hreplaced : replacedSelection unicode (insertStr unicode · text) s = some u :=
      Option.bind_eq_some_iff.mpr ⟨v, hv, hu⟩
    exact edited_replacedSelection (fun _ _ => edited_insertStr) hreplaced
      fun houtside => hseen u houtside hreplaced

/-- What was killed last, inserted at the cursor. -/
def insertKilled (unicode : Unicode) (killed : Text) (s : TextArea Line) : Option (TextArea Line) :=
  s.applyEditReplacement unicode ⟨s.cursor, s.cursor⟩ killed (some .insert)

theorem edited_yank (h : s.yank unicode = some t)
    (hseen : ∀ u, s.undo.groupDepth = 0 →
      replacedSelection unicode (insertKilled unicode s.killBuffer) s = some u →
        u.SeesChange s.snapshot) :
    Edited unicode s t := by
  rw [yank.eq_def] at h
  split at h
  · cases h
    exact (Alike.refl s).edited
  dsimp only at h
  split at h
  · obtain ⟨u, hu, rfl⟩ := Option.map_eq_some_iff.mp h
    exact (edited_of_replacement hu).alike (alike_noteInsertWs u _)
  · obtain ⟨v, hv, h⟩ := Option.bind_eq_some_iff.mp h
    obtain ⟨u, hu, h⟩ := Option.bind_eq_some_iff.mp h
    cases h
    have hreplaced : replacedSelection unicode (insertKilled unicode s.killBuffer) s = some u :=
      Option.bind_eq_some_iff.mpr ⟨v, hv, hu⟩
    apply Edited.alike _ (alike_noteInsertWs _ _)
    exact edited_replacedSelection (fun _ _ => edited_of_replacement) hreplaced
      fun houtside => hseen u houtside hreplaced

/-- Each time a group closes that no other is around, its change is seen, or it left the elements. -/
def Seen (unicode : Unicode) (s : TextArea Line) : Op Line → Prop
  | .endUndoGroup => s.undo.groupDepth = 1 →
    ∀ checkpoint, s.undo.groupCheckpoint = some checkpoint → s.SeesChange checkpoint
  | .insertStrReplacingSelection text => ∀ u, s.undo.groupDepth = 0 →
    replacedSelection unicode (insertStr unicode · text) s = some u → u.SeesChange s.snapshot
  | .yank => ∀ u, s.undo.groupDepth = 0 →
    replacedSelection unicode (insertKilled unicode s.killBuffer) s = some u →
      u.SeesChange s.snapshot
  | _ => True

theorem seen_of_open {op : Op Line} (hopen : 0 < s.undo.groupDepth) (hop : op ≠ .endUndoGroup) :
    s.Seen unicode op := by
  cases op with
  | endUndoGroup => exact (hop rfl).elim
  | insertStrReplacingSelection | yank => exact fun u houtside => by omega
  | _ => trivial

end Groups

end TextArea

/-- Neither moves along the history nor opens or closes a group. -/
def Op.IsEdit {Line : Type} : Op Line → Prop
  | .undo | .redo | .beginUndoGroup | .endUndoGroup | .cancelUndoGroup => False
  | _ => True

namespace TextArea

variable {Line : Type} {unicode : Unicode} {s t : TextArea Line}

theorem Edited.of_some (h : Alike unicode s t) {u : TextArea Line} (hu : some t = some u) :
    Edited unicode s u := by
  cases hu
  exact h.edited

/-- An operation that is none of the history is an edit. -/
theorem edited_step {op : Op Line} (h : s.step unicode op = some t) (hop : op.IsEdit)
    (hseen : s.Seen unicode op) : Edited unicode s t := by
  cases op with
  | insertStr text => exact edited_insertStr h
  | insertStrAt pos text => exact edited_insertStrAt h
  | replaceRange range text => exact edited_of_replacement h
  | setText text => exact edited_setText h
  | applyClassifiedCommand command => exact edited_applyClassifiedCommand h
  | deleteBackward | deleteForward => exact edited_deleteGraphemes (fun _ _ => rfl) h
  | deleteBackwardWord | deleteBackwardUnixWord | deleteForwardWord | killToEndOfLine
  | killToBeginningOfLine =>
    exact edited_applyClassifiedCommand_of h nofun
  | killCurrentLine => exact edited_killCurrentLine h
  | yank => exact edited_yank h hseen
  | insertElement | replaceRangeWithElement => exact edited_applyElementTransaction h
  | inlineElement id =>
    cases h
    exact edited_inlineElement id
  | setSelection anchor head => exact .of_some (alike_setSelection s anchor head) h
  | clearSelection => exact .of_some (alike_clearSelection s) h
  | deleteSelection => exact edited_deleteSelection h
  | insertStrReplacingSelection text => exact edited_insertStrReplacingSelection h hseen
  | setCursor pos => exact .of_some (alike_setCursor s pos) h
  | moveCursorUp | moveCursorDown => exact .of_some (alike_setCursorInner s _) h
  | moveCursorToBeginningOfLine | moveCursorToEndOfLine => exact .of_some (alike_setCursor s _) h
  | undo | redo | beginUndoGroup | endUndoGroup | cancelUndoGroup => exact hop.elim

end TextArea

end Ezer.Textarea
