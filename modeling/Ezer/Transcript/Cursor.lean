import Ezer.Transcript.DeltaReplay

/-!
# Reconnecting behind a cursor

A client that has seen a file up to its last surviving line reconnects with the
event id of this line. When the line is not rewound since, the lines it is sent
are those behind the ones it has seen. An event id that is used again behind a
rewind stands for a line that the client has not seen.
-/

namespace Ezer.Transcript

open Ezer.Lib

section

variable {T : Type*} {classify : T → RewindStep}

/-- Survivors that no marker cuts stay in front. -/
theorem filterRewindBy_prefix {first rest : List T}
    (h : ∀ part, part <+: rest →
      (filterRewindBy classify first).length ≤ (filterRewindBy classify (first ++ part)).length) :
    filterRewindBy classify first <+: filterRewindBy classify (first ++ rest) := by
  induction rest using List.reverseRecOn with
  | nil => rw [List.append_nil]
  | append_singleton rest item ih =>
    have hbefore := ih fun part hpart => h part (hpart.trans (List.prefix_append rest [item]))
    have hlength := h (rest ++ [item]) List.prefix_rfl
    rw [← List.append_assoc] at hlength ⊢
    cases hclass : classify item with
    | rewind target =>
      rw [filterRewindBy_concat_rewind classify _ hclass] at hlength ⊢
      rw [List.length_take] at hlength
      rw [List.prefix_take_iff]
      exact ⟨hbefore, hlength.trans (Nat.min_le_left _ _)⟩
    | userChunk | other =>
      rw [filterRewindBy_concat classify _ (by simp [hclass])]
      exact hbefore.trans (List.prefix_append _ _)

end

section

variable (reader : LineReader)

/-- A rewind among the new lines removed a line that survived before them. -/
def Rewound (before new : Text) : Prop :=
  ∃ part, part <+: liveLines new ∧
    (filterRewindLines reader (liveLines before ++ part)).length <
      (filterRewindLines reader (liveLines before)).length

/-- A client that reconnects is sent what it has not seen, or everything when its line was rewound. -/
structure Resumes (before new cursor : Text) : Prop where
  accepted : (prepareReplayLines reader (before ++ new) (some cursor)).markReplay = false →
    (prepareReplayLines reader (before ++ new) none).lines =
      (prepareReplayLines reader before none).lines ++
        (prepareReplayLines reader (before ++ new) (some cursor)).lines
  refused : Rewound reader before new →
    (prepareReplayLines reader (before ++ new) (some cursor)).markReplay = true ∧
      (prepareReplayLines reader (before ++ new) (some cursor)).lines =
        (prepareReplayLines reader (before ++ new) none).lines

variable {reader}

variable {behind first : List Text} {cursor line : Text}

/-- The place of the cursor is that of the last line with its event id. -/
theorem cursorPlace_eq (hline : lineEventId reader line = some cursor)
    (hbehind : ∀ other ∈ behind, lineEventId reader other ≠ some cursor) :
    cursorPlace reader (first ++ line :: behind) cursor = some first.length := by
  have hnone : behind.reverse.findIdx? (fun line => lineHasEventId reader line cursor) = none := by
    rw [List.findIdx?_eq_none_iff]
    intro other hother
    simpa [lineHasEventId] using hbehind other (List.mem_reverse.mp hother)
  have hfound : lineHasEventId reader line cursor = true := by simp [lineHasEventId, hline]
  have hreverse : (first ++ line :: behind).reverse = behind.reverse ++ line :: first.reverse := by
    simp
  rw [cursorPlace, hreverse, List.findIdx?_append, hnone, List.findIdx?_cons, hfound, if_pos rfl,
    Option.map_some, Option.none_or, Option.map_some, List.length_reverse]
  simp only [List.length_append, List.length_cons, Option.some.injEq]
  omega

theorem cursorPlace_eq_none {filtered : List Text}
    (h : ∀ line ∈ filtered, lineEventId reader line ≠ some cursor) :
    cursorPlace reader filtered cursor = none := by
  rw [cursorPlace, Option.map_eq_none_iff, List.findIdx?_eq_none_iff]
  intro line hline
  simpa [lineHasEventId] using h line (List.mem_reverse.mp hline)

/-- Lines with event ids of their own have no id twice. -/
theorem eventId_ne_of_nodup
    (hnodup : ((first ++ line :: behind).filterMap (lineEventId reader)).Nodup)
    (hline : lineEventId reader line = some cursor) :
    ∀ other ∈ behind, lineEventId reader other ≠ some cursor := by
  intro other hother heq
  rw [List.filterMap_append, List.filterMap_cons_some hline] at hnodup
  have hbehind := (List.nodup_append.mp hnodup).2.1
  rw [List.nodup_cons] at hbehind
  exact hbehind.1 (List.mem_filterMap.mpr ⟨other, hother, heq⟩)

/-- The replay behind a cursor whose tail has event ids. -/
theorem prepareReplayLines_of_bounded {contents : Text}
    (hfiltered : filterRewindLines reader (liveLines contents) = first ++ line :: behind)
    (hplace : cursorPlace reader (first ++ line :: behind) cursor = some first.length)
    (hbounded : ∀ other ∈ behind, lineIsDroppedOnReplay reader other = true ∨
      (lineEventId reader other).isSome = true) :
    (prepareReplayLines reader contents (some cursor)).markReplay = false ∧
      (prepareReplayLines reader contents (some cursor)).lines =
        behind.filter fun other => !lineIsDroppedOnReplay reader other := by
  have htail : tailBounded reader (first ++ line :: behind) first.length = true := by
    rw [tailBounded, List.append_cons, List.drop_left' (by simp), List.all_eq_true]
    intro other hother
    simpa using hbounded other hother
  have hpos : (some first.length).filter (tailBounded reader (first ++ line :: behind)) =
      some first.length := by
    rw [Option.filter_some, if_pos htail]
  rw [prepareReplayLines, hfiltered, Option.bind_some, hplace, hpos]
  refine ⟨rfl, ?_⟩
  rw [Option.elim_some, List.append_cons, List.drop_left' (by simp)]

/-- Without an accepted cursor everything is sent. -/
theorem prepareReplayLines_of_refused {contents : Text}
    (h : ∀ pos ∈ cursorPlace reader (filterRewindLines reader (liveLines contents)) cursor,
      tailBounded reader (filterRewindLines reader (liveLines contents)) pos = false) :
    (prepareReplayLines reader contents (some cursor)).markReplay = true ∧
      (prepareReplayLines reader contents (some cursor)).lines =
        (prepareReplayLines reader contents none).lines := by
  have hpos : (cursorPlace reader (filterRewindLines reader (liveLines contents)) cursor).filter
      (tailBounded reader (filterRewindLines reader (liveLines contents))) = none := by
    rw [Option.filter_eq_none_iff]
    intro pos hmem
    simpa using h pos hmem
  rw [prepareReplayLines, Option.bind_some, hpos]
  exact ⟨rfl, rfl⟩

theorem tailBounded_eq_false :
    tailBounded reader (first ++ line :: behind) first.length = false ↔
      ∃ unknown ∈ behind, lineIsDroppedOnReplay reader unknown = false ∧
        lineEventId reader unknown = none := by
  rw [tailBounded, List.append_cons, List.drop_left' (by simp), List.all_eq_false]
  simp

/-- When every line with the event id of the cursor has a line without an id behind it, everything is sent. -/
theorem prepareReplayLines_of_unbounded {contents : Text}
    (hdistinct : ((filterRewindLines reader (liveLines contents)).filterMap
      (lineEventId reader)).Nodup)
    (h : ∀ first other behind,
      filterRewindLines reader (liveLines contents) = first ++ other :: behind →
      lineEventId reader other = some cursor →
        ∃ unknown ∈ behind, lineIsDroppedOnReplay reader unknown = false ∧
          lineEventId reader unknown = none) :
    (prepareReplayLines reader contents (some cursor)).markReplay = true ∧
      (prepareReplayLines reader contents (some cursor)).lines =
        (prepareReplayLines reader contents none).lines := by
  apply prepareReplayLines_of_refused
  intro pos hpos
  by_cases hother : ∃ other ∈ filterRewindLines reader (liveLines contents),
      lineEventId reader other = some cursor
  · obtain ⟨other, hmem, heq⟩ := hother
    obtain ⟨first, behind, hfiltered⟩ := List.append_of_mem hmem
    have hunknown := h first other behind hfiltered heq
    rw [hfiltered] at hdistinct hpos ⊢
    rw [cursorPlace_eq heq (eventId_ne_of_nodup hdistinct heq), Option.mem_some_iff] at hpos
    rw [← hpos, tailBounded_eq_false]
    exact hunknown
  · rw [cursorPlace_eq_none fun line hline heq => hother ⟨line, hline, heq⟩] at hpos
    cases hpos

/-- A reconnecting client is sent what it has not seen exactly when no line behind a rewind of its line
stands for it again. -/
theorem resumes_iff (hborrows : reader.Borrows) {before new line cursor : Text}
    (hbefore : endsWithNewline before = true)
    (hlast : (filterRewindLines reader (liveLines before)).getLast? = some line)
    (hline : lineEventId reader line = some cursor)
    (hdistinct : ((filterRewindLines reader (liveLines (before ++ new))).filterMap
      (lineEventId reader)).Nodup) :
    Resumes reader before new cursor ↔
      (Rewound reader before new → ∀ first other behind,
        filterRewindLines reader (liveLines (before ++ new)) = first ++ other :: behind →
        lineEventId reader other = some cursor →
          ∃ unknown ∈ behind, lineIsDroppedOnReplay reader unknown = false ∧
            lineEventId reader unknown = none) := by
  constructor
  · rintro ⟨-, hrefused⟩ hrewound first other behind hfiltered hother
    by_contra hbounded
    push Not at hbounded
    rw [hfiltered] at hdistinct
    have haccepted := prepareReplayLines_of_bounded hfiltered
      (cursorPlace_eq hother (eventId_ne_of_nodup hdistinct hother)) fun unknown hunknown => by
        cases hdropped : lineIsDroppedOnReplay reader unknown with
        | true => exact .inl rfl
        | false => exact .inr (Option.isSome_iff_ne_none.mpr (hbounded unknown hunknown hdropped))
    rw [(hrefused hrewound).1] at haccepted
    exact absurd haccepted.1 Bool.true_eq_false.mp
  · intro h
    refine ⟨fun haccepted => ?_, fun hrewound => prepareReplayLines_of_unbounded hdistinct (h hrewound)⟩
    by_cases hrewound : Rewound reader before new
    · rw [(prepareReplayLines_of_unbounded hdistinct (h hrewound)).1] at haccepted
      cases haccepted
    have hlive : liveLines (before ++ new) = liveLines before ++ liveLines new := by
      rw [liveLines, lines_append (.inr hbefore), List.filter_append]
      rfl
    have hkept : filterRewindLines reader (liveLines before) <+:
        filterRewindLines reader (liveLines (before ++ new)) := by
      rw [hlive, filterRewindLines_eq hborrows, filterRewindLines_eq hborrows]
      apply filterRewindBy_prefix
      intro part hpart
      by_contra hlength
      refine hrewound ⟨part, hpart, ?_⟩
      rw [filterRewindLines_eq hborrows, filterRewindLines_eq hborrows]
      exact Nat.lt_of_not_le hlength
    obtain ⟨first, hfirst⟩ := List.getLast?_eq_some_iff.mp hlast
    obtain ⟨behind, hbehind⟩ := hkept
    rw [hfirst, List.append_assoc, List.singleton_append] at hbehind
    have hplace : cursorPlace reader (first ++ line :: behind) cursor = some first.length := by
      rw [← hbehind] at hdistinct
      exact cursorPlace_eq hline (eventId_ne_of_nodup hdistinct hline)
    have hbounded : tailBounded reader (first ++ line :: behind) first.length = true := by
      by_contra hunbounded
      have hrefused : (prepareReplayLines reader (before ++ new) (some cursor)).markReplay = true := by
        refine (prepareReplayLines_of_refused fun pos hpos => ?_).1
        rw [← hbehind] at hpos ⊢
        rw [hplace, Option.mem_some_iff] at hpos
        rw [← hpos]
        simpa using hunbounded
      rw [hrefused] at haccepted
      cases haccepted
    have hsent := prepareReplayLines_of_bounded hbehind.symm hplace fun other hother => by
      rw [tailBounded, List.append_cons, List.drop_left' (by simp), List.all_eq_true] at hbounded
      simpa using hbounded other hother
    rw [hsent.2, prepareReplayLines_none, prepareReplayLines_none, ← hbehind, hfirst,
      List.append_cons, List.filter_append]

end

/-- The file with one prompt, as a client has seen it. -/
def seenPrompts : List SampleLine := [.stampedChunk 0 "a".toList 0]

/-- The same file after another prompt. -/
def morePrompts : List SampleLine := [.stampedChunk 0 "a".toList 0, .stampedChunk 1 "b".toList 1]

/-- A client that has seen the first prompt is sent the second. -/
theorem second_prompt_resumed :
    Resumes (SampleLine.reader morePrompts) (SampleLine.file seenPrompts)
      (SampleLine.file [.stampedChunk 1 "b".toList 1]) "s-0".toList := by
  refine (@resumes_iff _ (SampleLine.borrows_reader morePrompts) _ _
    (SampleLine.stampedChunk 0 "a".toList 0).text _ (by decide +kernel) (by decide +kernel)
    (by decide +kernel) (by decide +kernel)).mpr ?_
  rintro ⟨part, hpart, hlength⟩
  have hnew : liveLines (SampleLine.file [.stampedChunk 1 "b".toList 1]) =
      [(SampleLine.stampedChunk 1 "b".toList 1).text] := by decide +kernel
  rw [hnew, List.prefix_cons_iff] at hpart
  rcases hpart with rfl | ⟨rest, rfl, hrest⟩
  · rw [List.append_nil] at hlength
    exact absurd hlength (Nat.lt_irrefl _)
  · rw [List.prefix_nil.mp hrest] at hlength
    exact absurd hlength (by decide +kernel)

/-- The file with two prompts, as a client has seen it. -/
def rewoundPrompts : List SampleLine := [.stampedChunk 0 "a".toList 0, .stampedChunk 1 "b".toList 1]

/-- A rewind to the second prompt, and a prompt in its place that has its event id again. -/
def replacedPrompt : List SampleLine := [.marker 1, .stampedChunk 1 "c".toList 1]

/-- The cursor of a rewound line is accepted when its event id is used again. -/
theorem reused_event_id_accepted :
    ¬∀ reader : LineReader, reader.Borrows → ∀ before new line cursor,
      endsWithNewline before = true →
      (filterRewindLines reader (liveLines before)).getLast? = some line →
      lineEventId reader line = some cursor →
      ((filterRewindLines reader (liveLines (before ++ new))).filterMap
        (lineEventId reader)).Nodup →
      Resumes reader before new cursor := by
  intro h
  have hresumes := h (SampleLine.reader (rewoundPrompts ++ replacedPrompt))
    (SampleLine.borrows_reader _) (SampleLine.file rewoundPrompts) (SampleLine.file replacedPrompt)
    (SampleLine.stampedChunk 1 "b".toList 1).text "s-1".toList (by decide +kernel)
    (by decide +kernel) (by decide +kernel) (by decide +kernel)
  have hrewound : Rewound (SampleLine.reader (rewoundPrompts ++ replacedPrompt))
      (SampleLine.file rewoundPrompts) (SampleLine.file replacedPrompt) :=
    ⟨[(SampleLine.marker 1).text], by decide +kernel, by decide +kernel⟩
  have hrefused := (hresumes.refused hrewound).1
  revert hrefused
  decide +kernel

end Ezer.Transcript
