import Ezer.Textarea.Area
import Ezer.Textarea.Plans

/-!
# What the operations of the text area keep

Every operation is put together from plans that were checked. What a plan does to the
history, to the contents and to the cursor is said once, and each operation from it.
-/

namespace Ezer.Textarea

open Lib

section Buffers

variable {g : Graphemes} {b c : EditBuffer} {plan : EditPlan} {outcome : EditOutcome}

/-- A new generation of a text is the same text. -/
theorem EditBuffer.same_of_generation (b : EditBuffer) (new : Bool) :
    (if new then b.advanceGeneration else b).text = b.text ∧
      (if new then b.advanceGeneration else b).cursorByte = b.cursorByte := by
  cases new with
  | false => exact ⟨rfl, rfl⟩
  | true =>
    rw [if_pos rfl, advanceGeneration]
    split
    · exact ⟨rfl, rfl⟩
    · exact ⟨rfl, rfl⟩

/-- What a plan does to a buffer. -/
structure EditBuffer.Edited (g : Graphemes) (b c : EditBuffer) (plan : EditPlan) : Prop where
  edits : plan.removedText ≠ plan.replacement →
    replaceRange b.text plan.replacedByteRange plan.replacement = some c.text
  keeps : plan.removedText = plan.replacement → c.text = b.text
  cursor : c.cursorByte =
    match plan.cursorAffinity with
    | .exact => plan.cursorByte
    | .right => g.ceilGraphemeBoundary c.text plan.cursorByte

theorem EditBuffer.edited_of_plan (h : b.applyValidatedPlan g plan = some (c, outcome)) :
    b.Edited g c plan := by
  rw [applyValidatedPlan] at h
  dsimp only at h
  split at h
  · rename_i hchanged
    have hne := of_decide_eq_true hchanged
    obtain ⟨text, htext, hrest⟩ := Option.bind_eq_some_iff.mp h
    cases Option.some.inj hrest
    obtain ⟨hsame, hcursor⟩ := EditBuffer.same_of_generation _ _
    refine ⟨fun _ => ?_, fun heq => (hne heq).elim, ?_⟩
    · rw [hsame]
      exact htext
    · rw [hsame]
      exact hcursor
  · rename_i hchanged
    have heq := of_decide_eq_false (Bool.eq_false_iff.mpr hchanged)
    obtain ⟨text, htext, hrest⟩ := Option.bind_eq_some_iff.mp h
    cases htext
    cases Option.some.inj hrest
    obtain ⟨hsame, hcursor⟩ := EditBuffer.same_of_generation _ _
    refine ⟨fun hne => (heq hne).elim, fun _ => hsame, ?_⟩
    rw [hsame]
    exact hcursor

theorem replaceRange_append {u m v replacement : Text} {range : ByteRange}
    (hstart : byteLen u = range.start) (hstop : byteLen u + byteLen m = range.stop) :
    replaceRange (u ++ m ++ v) range replacement = some (u ++ replacement ++ v) := by
  have hsize : range.stop - range.start = byteLen m := by omega
  rw [replaceRange, List.append_assoc, ← hstart, splitBytes_append, hstart, hsize]
  change (splitBytes (byteLen m) (m ++ v) >>= fun r => some (u ++ replacement ++ r.2)) = _
  rw [splitBytes_append]
  rfl

end Buffers

namespace TextArea

variable {Line : Type}

section Fields

variable (s : TextArea Line) (kind : MutationKind)

@[simp]
theorem preMutate_text : (s.preMutate kind).text = s.text := by
  rw [preMutate]
  split
  · rfl
  · rfl

@[simp]
theorem preMutate_elements : (s.preMutate kind).elements = s.elements := by
  rw [preMutate]
  split
  · rfl
  · rfl

@[simp]
theorem preMutate_nextElementId : (s.preMutate kind).nextElementId = s.nextElementId := by
  rw [preMutate]
  split
  · rfl
  · rfl

@[simp]
theorem preMutate_tabWidth : (s.preMutate kind).tabWidth = s.tabWidth := by
  rw [preMutate]
  split
  · rfl
  · rfl

end Fields

variable {unicode : Unicode}

section Plans

variable {s t : TextArea Line} {plan : EditPlan} {kind : Option MutationKind}
  {outcome : EditOutcome}

/-- What a plan does to a text area. -/
structure Applied (unicode : Unicode) (s t : TextArea Line) (plan : EditPlan) (outcome : EditOutcome) :
    Prop where
  buffer : s.text.applyValidatedPlan unicode.toGraphemes plan = some (t.text, outcome)
  elements : t.elements =
    if isSemanticEdit plan then
      shiftElements s.elements plan.replacedByteRange.start
        (plan.replacedByteRange.stop - plan.replacedByteRange.start) (byteLen plan.replacement)
    else s.elements
  nextElementId : t.nextElementId = s.nextElementId
  tabWidth : t.tabWidth = s.tabWidth

theorem applied_of_validated (h : s.applyValidatedEditPlan unicode plan kind = some (t, outcome)) :
    Applied unicode s t plan outcome ∧ t.undo = s.undo := by
  rw [applyValidatedEditPlan] at h
  obtain ⟨⟨buffer, outcome'⟩, hbuffer, h⟩ := Option.bind_eq_some_iff.mp h
  dsimp only at h
  split at h
  · rename_i hsemantic
    cases h
    exact ⟨⟨hbuffer, by rw [if_pos hsemantic], rfl, rfl⟩, rfl⟩
  · rename_i hsemantic
    cases h
    exact ⟨⟨hbuffer, by rw [if_neg hsemantic], rfl, rfl⟩, rfl⟩

/-- A plan is applied behind a check, and the history is noted before it where it edits. -/
theorem applied_of_plan (h : s.applyEditPlan unicode plan kind = some (t, outcome)) :
    s.text.validatePlan unicode plan = .ok () ∧ Applied unicode s t plan outcome ∧
      (t.undo = s.undo ∧ (isSemanticEdit plan = true → kind = none) ∨
        ∃ k, kind = some k ∧ isSemanticEdit plan = true ∧
          t.undo = { (s.preMutate k).undo with lastCursor := t.cursor }) := by
  rw [applyEditPlan.eq_def] at h
  split at h
  · cases h
  rename_i hvalid
  refine ⟨hvalid, ?_⟩
  cases kind with
  | none =>
    obtain ⟨happlied, hundo⟩ := applied_of_validated h
    exact ⟨happlied, Or.inl ⟨hundo, fun _ => rfl⟩⟩
  | some k =>
    dsimp only at h
    split at h
    · rename_i hsemantic
      obtain ⟨⟨u, outcome'⟩, hu, ht⟩ := Option.map_eq_some_iff.mp h
      cases ht
      obtain ⟨happlied, hundo⟩ := applied_of_validated hu
      refine ⟨⟨?_, ?_, ?_, ?_⟩, Or.inr ⟨k, rfl, hsemantic, ?_⟩⟩
      · rw [← preMutate_text s k]
        exact happlied.buffer
      · rw [← preMutate_elements s k]
        exact happlied.elements
      · rw [← preMutate_nextElementId s k]
        exact happlied.nextElementId
      · rw [← preMutate_tabWidth s k]
        exact happlied.tabWidth
      · rw [postMutate, hundo]
        rfl
    · rename_i hsemantic
      obtain ⟨happlied, hundo⟩ := applied_of_validated h
      exact ⟨happlied, Or.inl ⟨hundo, fun hedit => (hsemantic hedit).elim⟩⟩

theorem getBytes_of_valid (hvalid : s.text.validatePlan unicode plan = .ok ()) :
    getBytes s.text.text plan.replacedByteRange.start plan.replacedByteRange.stop =
      some plan.removedText := by
  rw [EditBuffer.validatePlan] at hvalid
  split at hvalid
  · cases hvalid
  split at hvalid
  · cases hvalid
  split at hvalid
  · cases hvalid
  · rename_i hremoved
    exact not_not.mp hremoved

/-- A plan that edits nothing leaves the contents. -/
theorem Applied.contents (h : Applied unicode s t plan outcome) (hplan : isSemanticEdit plan = false) :
    t.text.text = s.text.text ∧ t.elements = s.elements := by
  refine ⟨?_, ?_⟩
  · rw [isSemanticEdit, Bool.or_eq_false_iff, decide_eq_false_iff_not, not_not] at hplan
    exact (EditBuffer.edited_of_plan h.buffer).keeps hplan.1
  · rw [h.elements, hplan, if_neg Bool.false_ne_true]

/-- What is in the range of a plan that was checked is replaced, and nothing else. -/
theorem Applied.splice (h : Applied unicode s t plan outcome)
    (hvalid : s.text.validatePlan unicode plan = .ok ()) :
    ∃ u v, s.text.text = u ++ plan.removedText ++ v ∧
      t.text.text = u ++ plan.replacement ++ v ∧ byteLen u = plan.replacedByteRange.start ∧
      byteLen u + byteLen plan.removedText = plan.replacedByteRange.stop := by
  have hedited := EditBuffer.edited_of_plan h.buffer
  obtain ⟨u, v, htext, hstart, hstop⟩ := getBytes_eq_some (getBytes_of_valid hvalid)
  refine ⟨u, v, htext, ?_, hstart, hstop⟩
  by_cases hsame : plan.removedText = plan.replacement
  · rw [hedited.keeps hsame, htext, hsame]
  · have hreplaced := hedited.edits hsame
    rw [htext, replaceRange_append hstart hstop] at hreplaced
    exact (Option.some.inj hreplaced).symm

end Plans

end TextArea

end Ezer.Textarea
