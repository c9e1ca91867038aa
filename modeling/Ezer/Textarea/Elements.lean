import Ezer.Textarea.Steps

/-!
# The elements keep their text

An edit takes each element whole or leaves it, so an element that is left spans the text
it was created with.
-/

namespace Ezer.Textarea

open Lib

variable {Line : Type}

/-- The elements of a text are in order and apart, and each spans the text it was created with. -/
structure ElementsOk (created : List (ℕ × Text)) (text : Text) (elements : List (TextElement Line)) :
    Prop where
  sorted : elements.Pairwise fun a b => a.range.start ≤ b.range.start
  apart : elements.Pairwise fun a b =>
    a.range.stop ≤ b.range.start ∨ b.range.stop ≤ a.range.start
  spans : ∀ e ∈ elements, ∃ m, (e.id, m) ∈ created ∧
    getBytes text e.range.start e.range.stop = some m

section Slices

theorem prefix_of_byteLen {u v t : Text} (hu : u <+: t) (hv : v <+: t)
    (hle : byteLen u ≤ byteLen v) : u <+: v := by
  rcases List.prefix_or_prefix_of_prefix hu hv with h | h
  · exact h
  · obtain ⟨w, rfl⟩ := h
    rw [byteLen_append] at hle
    have hw : w = [] := by
      by_contra hne
      have hpos := byteLen_pos hne
      omega
    rw [hw, List.append_nil]

/-- A slice before what is replaced stays. -/
theorem getBytes_before {u v w m : Text} {first last : ℕ}
    (h : getBytes (u ++ v) first last = some m) (hle : last ≤ byteLen u) :
    getBytes (u ++ w) first last = some m := by
  obtain ⟨a, b, ht, rfl, rfl⟩ := getBytes_eq_some h
  have hsize : byteLen (a ++ m) ≤ byteLen u := by
    rw [byteLen_append]
    exact hle
  obtain ⟨c, rfl⟩ := prefix_of_byteLen ⟨b, ht.symm⟩ ⟨v, rfl⟩ hsize
  rw [List.append_assoc (a ++ m) c w]
  exact getBytes_append a m (c ++ w)

/-- A slice behind what is replaced moves with the text. -/
theorem getBytes_behind {u v w m : Text} {first last : ℕ}
    (h : getBytes (u ++ v) first last = some m) (hle : byteLen u ≤ first) :
    getBytes (w ++ v) (first + byteLen w - byteLen u) (last + byteLen w - byteLen u) = some m := by
  obtain ⟨a, b, ht, rfl, rfl⟩ := getBytes_eq_some h
  have hprefix : u <+: a := by
    apply prefix_of_byteLen ⟨v, rfl⟩ _ hle
    rw [ht, List.append_assoc]
    exact ⟨m ++ b, rfl⟩
  obtain ⟨c, rfl⟩ := hprefix
  have hv : v = c ++ m ++ b := by
    rw [List.append_assoc, List.append_assoc] at ht
    rw [List.append_assoc]
    exact List.append_cancel_left ht
  have hslice := getBytes_append (w ++ c) m b
  have hstart : byteLen (u ++ c) + byteLen w - byteLen u = byteLen (w ++ c) := by
    rw [byteLen_append, byteLen_append]
    omega
  have hstop : byteLen (u ++ c) + byteLen m + byteLen w - byteLen u =
      byteLen (w ++ c) + byteLen m := by
    rw [byteLen_append, byteLen_append]
    omega
  rw [hstart, hstop, hv, ← List.append_assoc, ← List.append_assoc]
  exact hslice

end Slices

section Shift

variable {first removed inserted : ℕ}

/-- An element that an edit leaves is before what is replaced, or behind it. -/
theorem shift_cases (inserted : ℕ) {e : TextElement Line}
    (haligned : (⟨first, first + removed⟩ : ByteRange).Aligned e.range)
    (hleft : ¬(first ≤ e.range.start ∧ e.range.stop ≤ first + removed)) :
    (e.range.stop ≤ first ∧ e.shift first removed inserted = e) ∨
      (first + removed ≤ e.range.start ∧ first < e.range.stop ∧
        e.shift first removed inserted =
          { e with range :=
            ⟨e.range.start + inserted - removed, e.range.stop + inserted - removed⟩ }) := by
  rw [ByteRange.Aligned] at haligned
  dsimp only at haligned
  rw [TextElement.shift]
  by_cases hbefore : e.range.stop ≤ first
  · exact Or.inl ⟨hbefore, if_pos hbefore⟩
  · rw [if_neg hbefore]
    have hbehind : first + removed ≤ e.range.start := by omega
    exact Or.inr ⟨hbehind, Nat.not_le.mp hbefore, if_pos hbehind⟩

variable {elements : List (TextElement Line)}

theorem mem_shiftElements {e' : TextElement Line}
    (he' : e' ∈ shiftElements elements first removed inserted) :
    ∃ e ∈ elements, ¬(first ≤ e.range.start ∧ e.range.stop ≤ first + removed) ∧
      e.shift first removed inserted = e' := by
  obtain ⟨e, he, rfl⟩ := List.mem_map.mp he'
  obtain ⟨hmem, hleft⟩ := List.mem_filter.mp he
  refine ⟨e, hmem, ?_, rfl⟩
  rw [Bool.not_eq_true', Bool.and_eq_false_iff, decide_eq_false_iff_not,
    decide_eq_false_iff_not] at hleft
  exact not_and_or.mpr hleft

/-- A relation between elements that an edit keeps for those it leaves holds of what it leaves. -/
theorem pairwise_shiftElements {R : TextElement Line → TextElement Line → Prop}
    (h : elements.Pairwise R)
    (hshift : ∀ a ∈ elements, ∀ b ∈ elements, R a b →
      ¬(first ≤ a.range.start ∧ a.range.stop ≤ first + removed) →
      ¬(first ≤ b.range.start ∧ b.range.stop ≤ first + removed) →
      R (a.shift first removed inserted) (b.shift first removed inserted)) :
    (shiftElements elements first removed inserted).Pairwise R := by
  rw [shiftElements, List.pairwise_map]
  have hleft (e : TextElement Line) (he : e ∈ elements.filter fun e =>
      !(decide (first ≤ e.range.start) && decide (e.range.stop ≤ first + removed))) :
      e ∈ elements ∧ ¬(first ≤ e.range.start ∧ e.range.stop ≤ first + removed) := by
    obtain ⟨hmem, hleft⟩ := List.mem_filter.mp he
    rw [Bool.not_eq_true', Bool.and_eq_false_iff, decide_eq_false_iff_not,
      decide_eq_false_iff_not] at hleft
    exact ⟨hmem, not_and_or.mpr hleft⟩
  refine List.Pairwise.imp_of_mem ?_ (h.filter _)
  intro a b ha hb hab
  obtain ⟨hma, hla⟩ := hleft a ha
  obtain ⟨hmb, hlb⟩ := hleft b hb
  exact hshift a hma b hmb hab hla hlb

/-- An edit leaves two elements in the order they had. -/
theorem shift_ordered (inserted : ℕ) {a b : TextElement Line} (hlea : a.range.start ≤ a.range.stop)
    (ha : (⟨first, first + removed⟩ : ByteRange).Aligned a.range)
    (hb : (⟨first, first + removed⟩ : ByteRange).Aligned b.range)
    (hla : ¬(first ≤ a.range.start ∧ a.range.stop ≤ first + removed))
    (hlb : ¬(first ≤ b.range.start ∧ b.range.stop ≤ first + removed)) :
    (a.range.start ≤ b.range.start → (a.shift first removed inserted).range.start ≤
        (b.shift first removed inserted).range.start) ∧
      (a.range.stop ≤ b.range.start → (a.shift first removed inserted).range.stop ≤
        (b.shift first removed inserted).range.start) := by
  rcases shift_cases inserted ha hla with ⟨hbefore, ha'⟩ | ⟨hbehind, -, ha'⟩
  · rcases shift_cases inserted hb hlb with ⟨-, hb'⟩ | ⟨hbehind, -, hb'⟩
    · rw [ha', hb']
      exact ⟨id, id⟩
    · rw [ha', hb']
      dsimp only
      omega
  · rcases shift_cases inserted hb hlb with ⟨hbefore, hb'⟩ | ⟨hbehind', -, hb'⟩
    · omega
    · rw [ha', hb']
      dsimp only
      omega

/-- What an edit leaves is in order. -/
theorem sorted_shiftElements (inserted : ℕ) (hle : ∀ e ∈ elements, e.range.start ≤ e.range.stop)
    (haligned : ∀ e ∈ elements, (⟨first, first + removed⟩ : ByteRange).Aligned e.range)
    (hsorted : elements.Pairwise fun a b => a.range.start ≤ b.range.start) :
    (shiftElements elements first removed inserted).Pairwise fun a b =>
      a.range.start ≤ b.range.start := by
  apply pairwise_shiftElements hsorted
  intro a ha b hb hab hla hlb
  exact (shift_ordered inserted (hle a ha) (haligned a ha) (haligned b hb) hla hlb).1 hab

theorem apart_shiftElements (inserted : ℕ) (hle : ∀ e ∈ elements, e.range.start ≤ e.range.stop)
    (haligned : ∀ e ∈ elements, (⟨first, first + removed⟩ : ByteRange).Aligned e.range)
    (hapart : elements.Pairwise fun a b =>
      a.range.stop ≤ b.range.start ∨ b.range.stop ≤ a.range.start) :
    (shiftElements elements first removed inserted).Pairwise fun a b =>
      a.range.stop ≤ b.range.start ∨ b.range.stop ≤ a.range.start := by
  apply pairwise_shiftElements hapart
  intro a ha b hb hab hla hlb
  exact hab.imp
    (shift_ordered inserted (hle a ha) (haligned a ha) (haligned b hb) hla hlb).2
    (shift_ordered inserted (hle b hb) (haligned b hb) (haligned a ha) hlb hla).2

end Shift

theorem ElementsOk.le {created : List (ℕ × Text)} {text : Text} {elements : List (TextElement Line)}
    (h : ElementsOk created text elements) : ∀ e ∈ elements,
      e.range.start ≤ e.range.stop ∧ e.range.stop ≤ byteLen text := by
  intro e he
  obtain ⟨m, -, hm⟩ := h.spans e he
  obtain ⟨a, b, rfl, hstart, hstop⟩ := getBytes_eq_some hm
  rw [byteLen_append, byteLen_append]
  omega

theorem ElementsOk.mono {created more : List (ℕ × Text)} {text : Text}
    {elements : List (TextElement Line)} (h : ElementsOk created text elements) :
    ElementsOk (created ++ more) text elements := by
  refine ⟨h.sorted, h.apart, fun e he => ?_⟩
  obtain ⟨m, hmem, hm⟩ := h.spans e he
  exact ⟨m, List.mem_append_left _ hmem, hm⟩

theorem elementsOk_nil (created : List (ℕ × Text)) (text : Text) :
    ElementsOk created text ([] : List (TextElement Line)) :=
  ⟨List.Pairwise.nil, List.Pairwise.nil, nofun⟩

section Applied

variable {unicode : Unicode} {s t : TextArea Line} {plan : EditPlan} {outcome : EditOutcome}

variable {created : List (ℕ × Text)}

/-- A plan for a text takes each element of it whole or leaves it. -/
theorem aligned_of_sound (hs : ElementsOk created s.text.text s.elements)
    (h : plan.Sound unicode s.text
      (normalizeAtomicRanges unicode.toGraphemes s.text.text s.elementRanges)) :
    ∀ e ∈ s.elements, plan.replacedByteRange.Aligned e.range := by
  intro e he
  obtain ⟨hle, hlen⟩ := hs.le e he
  rw [ByteRange.Aligned]
  rcases Nat.lt_or_eq_of_le hle with hlt | heq
  · obtain ⟨a, ha, hstart, hstop⟩ :=
      exists_normalizeAtomicRanges unicode.toGraphemes s.text.text s.elementRanges
        (List.mem_map_of_mem he) hlt hlen
    have haligned := h.aligned a ha
    rw [ByteRange.Aligned] at haligned
    omega
  · omega

/-- An offset in no atomic range is in no element. -/
theorem outside_elements (hs : ElementsOk created s.text.text s.elements) {n : ℕ}
    (h : Outside n (normalizeAtomicRanges unicode.toGraphemes s.text.text s.elementRanges)) :
    Outside n s.elementRanges := by
  intro r hr
  obtain ⟨e, he, rfl⟩ := List.mem_map.mp hr
  obtain ⟨hle, hlen⟩ := hs.le e he
  rcases Nat.lt_or_eq_of_le hle with hlt | heq
  · obtain ⟨a, ha, hstart, hstop⟩ :=
      exists_normalizeAtomicRanges unicode.toGraphemes s.text.text s.elementRanges hr hlt hlen
    have houtside := h a ha
    omega
  · omega

theorem empty_of_valid (hvalid : s.text.validatePlan unicode plan = .ok ())
    (hsemantic : isSemanticEdit plan = false) :
    plan.replacement = [] ∧ plan.replacedByteRange.start = plan.replacedByteRange.stop := by
  obtain ⟨u, v, -, hstart, hstop⟩ := getBytes_eq_some (TextArea.getBytes_of_valid hvalid)
  rw [isSemanticEdit, Bool.or_eq_false_iff, decide_eq_false_iff_not, decide_eq_false_iff_not,
    not_not] at hsemantic
  have hnil : plan.removedText = [] := by
    by_contra hne
    have hpos := byteLen_pos hne
    omega
  rw [hnil, byteLen_nil] at hstop
  rw [← hsemantic.1]
  exact ⟨hnil, by omega⟩

/-- Where an element is behind a plan. -/
theorem mem_of_applied (h : TextArea.Applied unicode s t plan outcome)
    (hvalid : s.text.validatePlan unicode plan = .ok ())
    (haligned : ∀ e ∈ s.elements, plan.replacedByteRange.Aligned e.range)
    {e' : TextElement Line} (he' : e' ∈ t.elements) :
    ∃ e ∈ s.elements, e'.id = e.id ∧
      ((e.range.stop ≤ plan.replacedByteRange.start ∧ e'.range = e.range) ∨
        (plan.replacedByteRange.stop ≤ e.range.start ∧
          e'.range = ⟨e.range.start + byteLen plan.replacement -
              (plan.replacedByteRange.stop - plan.replacedByteRange.start),
            e.range.stop + byteLen plan.replacement -
              (plan.replacedByteRange.stop - plan.replacedByteRange.start)⟩)) := by
  have hkeeps := empty_of_valid hvalid
  have hrange : plan.replacedByteRange.start ≤ plan.replacedByteRange.stop := by
    obtain ⟨u, v, -, hstart, hstop⟩ := getBytes_eq_some (TextArea.getBytes_of_valid hvalid)
    omega
  rw [h.elements] at he'
  generalize plan.replacedByteRange = r at he' hrange hkeeps haligned ⊢
  obtain ⟨first, stop⟩ := r
  dsimp only at he' hrange hkeeps haligned ⊢
  obtain ⟨removed, rfl⟩ := Nat.exists_eq_add_of_le hrange
  rw [Nat.add_sub_cancel_left] at he' ⊢
  cases hsemantic : isSemanticEdit plan with
  | false =>
    rw [hsemantic, if_neg Bool.false_ne_true] at he'
    obtain ⟨hnil, hempty⟩ := hkeeps hsemantic
    have hremoved : removed = 0 := by omega
    refine ⟨e', he', rfl, ?_⟩
    have hcut := haligned e' he'
    rw [ByteRange.Aligned] at hcut
    dsimp only at hcut
    rw [hnil, byteLen_nil, hremoved, Nat.add_zero, Nat.add_zero, Nat.sub_zero, Nat.sub_zero]
    by_cases hbefore : e'.range.stop ≤ first
    · exact Or.inl ⟨hbefore, rfl⟩
    · exact Or.inr ⟨by omega, rfl⟩
  | true =>
    rw [hsemantic, if_pos rfl] at he'
    obtain ⟨e, he, hleft, rfl⟩ := mem_shiftElements he'
    refine ⟨e, he, ?_⟩
    rcases shift_cases (byteLen plan.replacement) (haligned e he) hleft with
      ⟨hbefore, hshift⟩ | ⟨hbehind, -, hshift⟩
    · rw [hshift]
      exact ⟨rfl, Or.inl ⟨hbefore, rfl⟩⟩
    · rw [hshift]
      exact ⟨rfl, Or.inr ⟨hbehind, rfl⟩⟩

/-- The elements that a plan leaves keep their text. -/
theorem elementsOk_applied (h : TextArea.Applied unicode s t plan outcome)
    (hvalid : s.text.validatePlan unicode plan = .ok ())
    (hs : ElementsOk created s.text.text s.elements)
    (haligned : ∀ e ∈ s.elements, plan.replacedByteRange.Aligned e.range) :
    ElementsOk created t.text.text t.elements := by
  obtain ⟨u, v, hsText, htText, hstart, hstop⟩ := h.splice hvalid
  have hrange : plan.replacedByteRange.start ≤ plan.replacedByteRange.stop := by omega
  have hle : ∀ e ∈ s.elements, e.range.start ≤ e.range.stop := fun e he => (hs.le e he).1
  have hsize : plan.replacedByteRange.start +
      (plan.replacedByteRange.stop - plan.replacedByteRange.start) =
        plan.replacedByteRange.stop := by omega
  have hcut : ∀ e ∈ s.elements, (⟨plan.replacedByteRange.start, plan.replacedByteRange.start +
      (plan.replacedByteRange.stop - plan.replacedByteRange.start)⟩ : ByteRange).Aligned
        e.range := by
    rw [hsize]
    exact haligned
  refine ⟨?_, ?_, fun e' he' => ?_⟩
  · rw [h.elements]
    split
    · exact sorted_shiftElements _ hle hcut hs.sorted
    · exact hs.sorted
  · rw [h.elements]
    split
    · exact apart_shiftElements _ hle hcut hs.apart
    · exact hs.apart
  · obtain ⟨e, he, hid, hplace⟩ := mem_of_applied h hvalid haligned he'
    obtain ⟨m, hmem, hm⟩ := hs.spans e he
    refine ⟨m, hid ▸ hmem, ?_⟩
    rw [htText]
    rw [hsText] at hm
    rcases hplace with ⟨hbefore, hsame⟩ | ⟨hbehind, hmoved⟩
    · rw [hsame, List.append_assoc]
      rw [List.append_assoc] at hm
      exact getBytes_before hm (by omega)
    · have hlen : byteLen (u ++ plan.removedText) = plan.replacedByteRange.stop := by
        rw [byteLen_append]
        exact hstop
      have hslice := getBytes_behind (w := u ++ plan.replacement) hm (by omega)
      have hfirst (n : ℕ) : n + byteLen (u ++ plan.replacement) - byteLen (u ++ plan.removedText) =
          n + byteLen plan.replacement -
            (plan.replacedByteRange.stop - plan.replacedByteRange.start) := by
        rw [byteLen_append, byteLen_append]
        omega
      rw [hfirst, hfirst] at hslice
      rw [hmoved]
      exact hslice

/-- Where an edit begins no element is. -/
theorem outside_replaced (h : TextArea.Applied unicode s t plan outcome)
    (hvalid : s.text.validatePlan unicode plan = .ok ())
    (haligned : ∀ e ∈ s.elements, plan.replacedByteRange.Aligned e.range) :
    Outside plan.replacedByteRange.start t.elementRanges := by
  intro r hr
  obtain ⟨e', he', rfl⟩ := List.mem_map.mp hr
  obtain ⟨e, -, -, hplace⟩ := mem_of_applied h hvalid haligned he'
  obtain ⟨u, v, -, hstart, hstop⟩ := getBytes_eq_some (TextArea.getBytes_of_valid hvalid)
  rcases hplace with ⟨hbefore, hsame⟩ | ⟨hbehind, hmoved⟩
  · rw [hsame]
    exact Or.inr hbefore
  · rw [hmoved]
    dsimp only
    omega

/-- Where a plan puts the cursor, before it goes to a boundary, no element is. -/
theorem outside_cursorByte (h : TextArea.Applied unicode s t plan outcome)
    (hs : ElementsOk created s.text.text s.elements)
    (hsound : plan.Sound unicode s.text
      (normalizeAtomicRanges unicode.toGraphemes s.text.text s.elementRanges)) :
    Outside plan.cursorByte t.elementRanges := by
  have haligned := aligned_of_sound hs hsound
  have hlands := hsound.lands
  obtain ⟨u, v, -, hstart, hstop⟩ :=
    getBytes_eq_some (TextArea.getBytes_of_valid hsound.valid)
  intro r hr
  obtain ⟨e', he', rfl⟩ := List.mem_map.mp hr
  obtain ⟨e, he, -, hplace⟩ := mem_of_applied h hsound.valid haligned he'
  have hmem : e.range ∈ s.elementRanges := List.mem_map_of_mem he
  have hle := (hs.le e he).1
  rw [EditPlan.Lands] at hlands
  cases haffinity : plan.cursorAffinity with
  | exact =>
    rw [haffinity] at hlands
    obtain ⟨hnil, hempty, htarget⟩ := hlands
    have houtside := outside_elements hs htarget.outside e.range hmem
    rw [hnil, byteLen_nil] at hplace
    rcases hplace with ⟨-, hsame⟩ | ⟨-, hmoved⟩
    · rw [hsame]
      exact houtside
    · rw [hmoved]
      dsimp only
      omega
  | right =>
    rw [haffinity] at hlands
    rcases hlands with hend | ⟨hbefore, houtside⟩ | ⟨c, hbehind, -, houtside, hc⟩
    · rcases hplace with ⟨hplace, hsame⟩ | ⟨hplace, hmoved⟩
      · rw [hsame]
        omega
      · rw [hmoved]
        dsimp only
        omega
    · have hout := outside_elements hs houtside e.range hmem
      rcases hplace with ⟨hplace, hsame⟩ | ⟨hplace, hmoved⟩
      · rw [hsame]
        exact hout
      · rw [hmoved]
        dsimp only
        omega
    · have hout := outside_elements hs houtside e.range hmem
      rcases hplace with ⟨hplace, hsame⟩ | ⟨hplace, hmoved⟩
      · rw [hsame]
        omega
      · rw [hmoved]
        dsimp only
        omega

end Applied

section Add

/-- An element that spans what it was created with, apart from the others, may be added. -/
theorem elementsOk_addElement {created : List (ℕ × Text)} {s : TextArea Line} {text : Text}
    (range : ByteRange) (kind : ℕ) (display : Option Line)
    (hs : ElementsOk created s.text.text s.elements)
    (hslice : getBytes s.text.text range.start range.stop = some text)
    (hapart : ∀ e ∈ s.elements, e.range.stop ≤ range.start ∨ range.stop ≤ e.range.start) :
    ElementsOk (created ++ [(s.nextElementId, text)]) (s.addElement range kind display).text.text
      (s.addElement range kind display).elements := by
  have htotal : Std.Total fun a b : TextElement Line => a.range.start ≤ b.range.start :=
    ⟨fun a b => Nat.le_total _ _⟩
  have htrans : IsTrans (TextElement Line) fun a b => a.range.start ≤ b.range.start :=
    ⟨fun a b c => Nat.le_trans⟩
  rw [TextArea.addElement]
  refine ⟨List.pairwise_insertionSort _ _, ?_, fun e he => ?_⟩
  · rw [(List.perm_insertionSort _ _).pairwise_iff fun h => h.symm, List.pairwise_append]
    refine ⟨hs.apart, List.pairwise_singleton _ _, fun a ha b hb => ?_⟩
    rw [List.mem_singleton.mp hb]
    exact hapart a ha
  · rw [(List.perm_insertionSort _ _).mem_iff, List.mem_append, List.mem_singleton] at he
    rcases he with he | rfl
    · obtain ⟨m, hmem, hm⟩ := hs.spans e he
      exact ⟨m, List.mem_append_left _ hmem, hm⟩
    · exact ⟨text, List.mem_append_right _ (List.mem_singleton_self _), hslice⟩

theorem mem_addElement (s : TextArea Line) (range : ByteRange) (kind : ℕ) (display : Option Line) :
    (⟨s.nextElementId, range, kind, display⟩ : TextElement Line) ∈
      (s.addElement range kind display).elements := by
  rw [TextArea.addElement]
  dsimp only
  rw [(List.perm_insertionSort _ _).mem_iff]
  exact List.mem_append_right _ (List.mem_singleton_self _)

end Add

section Edges

variable {created : List (ℕ × Text)} {s : TextArea Line}

/-- The edges of an element are in no element. -/
theorem outside_edges {text : Text} (hs : ElementsOk created text s.elements) {e : TextElement Line}
    (he : e ∈ s.elements) :
    Outside e.range.start s.elementRanges ∧ Outside e.range.stop s.elementRanges := by
  have hsymm : Std.Symm fun a b : TextElement Line =>
      a.range.stop ≤ b.range.start ∨ b.range.stop ≤ a.range.start := ⟨fun a b h => h.symm⟩
  have hle := hs.le e he
  have hcases (f : TextElement Line) (hf : f ∈ s.elements) :
      f = e ∨ e.range.stop ≤ f.range.start ∨ f.range.stop ≤ e.range.start := by
    by_cases heq : e = f
    · exact Or.inl heq.symm
    · exact Or.inr (hs.apart.forall he hf heq)
  refine ⟨fun r hr => ?_, fun r hr => ?_⟩
  · obtain ⟨f, hf, rfl⟩ := List.mem_map.mp hr
    have hlef := hs.le f hf
    rcases hcases f hf with rfl | hapart
    · exact Or.inl le_rfl
    · omega
  · obtain ⟨f, hf, rfl⟩ := List.mem_map.mp hr
    have hlef := hs.le f hf
    rcases hcases f hf with rfl | hapart
    · exact Or.inr le_rfl
    · omega

theorem outside_of_findElementContaining {n : ℕ} (h : s.findElementContaining n = none) :
    Outside n s.elementRanges := by
  intro r hr
  obtain ⟨e, he, rfl⟩ := List.mem_map.mp hr
  have hnot := List.find?_eq_none.mp h e he
  rw [decide_eq_true_iff] at hnot
  omega

/-- An offset that is moved out of an element is in none. -/
theorem outside_clampPosToNearestBoundary {text : Text} (hs : ElementsOk created text s.elements)
    (n : ℕ) : Outside (s.clampPosToNearestBoundary n) s.elementRanges := by
  rw [TextArea.clampPosToNearestBoundary]
  cases hfind : s.findElementContaining (min n s.len) with
  | none => exact outside_of_findElementContaining hfind
  | some e =>
    obtain ⟨hstart, hstop⟩ := outside_edges hs (List.mem_of_find?_eq_some hfind)
    dsimp only
    split
    · exact hstart
    · exact hstop

theorem clampPos_of_outside {n : ℕ} (h : Outside n s.elementRanges) (hle : n ≤ s.len) :
    s.clampPosToNearestBoundary n = n := by
  have hnone : s.findElementContaining n = none := by
    rw [TextArea.findElementContaining, List.find?_eq_none]
    intro e he
    have hout := h e.range (List.mem_map_of_mem he)
    rw [decide_eq_true_iff]
    omega
  rw [TextArea.clampPosToNearestBoundary, Nat.min_eq_left hle, hnone]

end Edges

end Ezer.Textarea
