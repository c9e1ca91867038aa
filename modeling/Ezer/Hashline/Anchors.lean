import Ezer.Hashline.Edits
import Ezer.Hashline.Generated

/-!
# Printed anchors name their lines

Every anchor that the tools print for a content names the line it stands
before, whether it is sent back alone or with the line after it. Conversely an
anchor that is accepted has the hashes of the line it names.
-/

namespace Ezer.Hashline

open Ezer.Lib

/-- An anchor is labelled with the number of a line and accepted as that line, alone and
before an arrow and a text. -/
structure Names (scheme : AnchorScheme) (ls : List Text) (anchor : Text) (i : ℕ) : Prop where
  label : ∃ suffix, anchor = digits (i + 1) ++ ':' :: suffix
  alone : validateAnchor anchor ls scheme = .ok i
  before_text : ∀ text, validateAnchor (anchor ++ arrow :: text) ls scheme = .ok i

/-- A text is a line after an anchor that names it. -/
def IsPrintedLine (scheme : AnchorScheme) (ls : List Text) (text : Text) : Prop :=
  ∃ i anchor line, ls[i]? = some line ∧ text = anchor ++ arrow :: line ∧
    Names scheme ls anchor i

section Printed

variable {scheme : AnchorScheme} {ls : List Text} {i : ℕ} {line : Text}

theorem validateAnchor_parsed {anchorStr : Text} {parsed : ParsedAnchor}
    (hparse : ParsedAnchor.parse (stripArrow anchorStr) = some parsed)
    (hvalid : validate scheme parsed ls = .valid) :
    validateAnchor anchorStr ls scheme = .ok (parsed.line - 1) := by
  unfold validateAnchor
  dsimp only
  rw [hparse, Option.some_or]
  dsimp only
  rw [hvalid]

theorem names_anchorAt (hline : ls[i]? = some line) (hlt : i + 1 < usizeCount) :
    Names scheme ls (digits (i + 1) ++ ':' :: anchorSuffix (anchorAt scheme ls i line)) i := by
  have hlettered := lettered_anchorAt scheme ls i line
  have hall := all_isAnchorChar hlettered (i + 1)
  have hparse := parse_anchor hlettered (Nat.succ_pos i) hlt
  constructor
  · exact ⟨_, rfl⟩
  · rw [← stripArrow_of_all hall] at hparse
    exact validateAnchor_parsed hparse (validate_anchorAt hline)
  · intro text
    rw [← stripArrow_append hall text] at hparse
    exact validateAnchor_parsed hparse (validate_anchorAt hline)

theorem isPrintedLine_anchorAt (hline : ls[i]? = some line) (hlt : ls.length < usizeCount) :
    IsPrintedLine scheme ls
      (anchoredLine (i + 1) (anchorSuffix (anchorAt scheme ls i line)) line) := by
  have hi : i < ls.length := (List.getElem?_eq_some_iff.mp hline).1
  refine ⟨i, _, line, hline, rfl, names_anchorAt hline (by omega)⟩

theorem newline_not_mem_digits (n : ℕ) : '\n' ∉ digits n := by
  intro h
  have hdigit := isDigit_of_mem_digits h
  cases hdigit

theorem newline_not_mem_anchoredLine (hnewline : '\n' ∉ line) :
    '\n' ∉ anchoredLine (i + 1) (anchorSuffix (anchorAt scheme ls i line)) line := by
  have hall := all_isAnchorChar (lettered_anchorAt scheme ls i line) (i + 1)
  unfold anchoredLine
  rw [List.mem_append, List.mem_cons]
  rintro (h | h | h)
  · exact not_mem_of_all hall rfl h
  · cases h
  · exact hnewline h

theorem newline_not_mem_splitLines {content : Text} (h : line ∈ splitLines content) :
    '\n' ∉ line := by
  unfold splitLines at h
  split at h
  · rw [List.mem_singleton.mp h]
    exact List.not_mem_nil
  · rcases List.mem_append.mp h with h | h
    · exact newline_not_mem_lines h
    · split at h
      · rw [List.mem_singleton.mp h]
        exact List.not_mem_nil
      · cases h

/-- A line of some rendered lines of a content is one of them. -/
theorem isPrintedLine_of_mem {content text : Text} {printed : List Text}
    (hlt : (splitLines content).length < usizeCount)
    (hprinted : ∀ t ∈ printed, ∃ i line, (splitLines content)[i]? = some line ∧
      t = anchoredLine (i + 1) (anchorSuffix (anchorAt scheme (splitLines content) i line)) line)
    (h : text ∈ (joinLines printed).splitOn '\n') (hne : text ≠ []) :
    IsPrintedLine scheme (splitLines content) text := by
  obtain ⟨t, ht, hsplit⟩ := mem_splitOn_joinLines h hne
  obtain ⟨i, line, hline, rfl⟩ := hprinted t ht
  have hnewline := newline_not_mem_splitLines (List.mem_of_getElem? hline)
  rw [List.splitOn_eq_singleton (newline_not_mem_anchoredLine hnewline),
    List.mem_singleton] at hsplit
  rw [hsplit]
  exact isPrintedLine_anchorAt hline hlt

theorem getElem?_of_mem_selectLines {offset limit : Option ℕ} {p : Text × ℕ}
    (h : p ∈ selectLines ls offset limit) : ls[p.2]? = some p.1 := by
  have hmem : p ∈ ls.zipIdx := by
    unfold selectLines at h
    dsimp only at h
    split at h
    · exact List.mem_of_mem_drop h
    · exact List.mem_of_mem_drop (List.mem_of_mem_take h)
  exact List.mk_mem_zipIdx_iff_getElem?.mp hmem

/-- Every line of a formatted content is printed after an anchor that names it. -/
theorem isPrintedLine_formatHashlineContent {content text : Text} {offset limit : Option ℕ}
    (hlt : (splitLines content).length < usizeCount)
    (h : text ∈ (formatHashlineContent content offset limit scheme).1.splitOn '\n')
    (hne : text ≠ []) : IsPrintedLine scheme (splitLines content) text := by
  apply isPrintedLine_of_mem hlt _ h hne
  intro t ht
  obtain ⟨⟨line, i⟩, hmem, rfl⟩ := List.mem_map.mp ht
  have hline := getElem?_of_mem_selectLines hmem
  refine ⟨i, line, hline, ?_⟩
  dsimp only at hline ⊢
  rw [getElem?_generateAnchors, hline]
  rfl

end Printed

section Snippets

variable {scheme : AnchorScheme} {content : Text}

/-- A line of a snippet is a mark for lines that are not shown, or a printed line. -/
def IsSnippetLine (scheme : AnchorScheme) (ls : List Text) (text : Text) : Prop :=
  (∃ n, text = gapMark n) ∨ IsPrintedLine scheme ls text

theorem snippetParts_part {total : ℕ} {first : Bool} {prevEnd : ℕ} {regions : List (ℕ × ℕ)}
    {part : Text} (h : part ∈ snippetParts content total scheme first prevEnd regions) :
    (∃ n, part = gapMark n) ∨
      ∃ offset limit, part = (formatHashlineContent content offset limit scheme).1 := by
  induction regions generalizing first prevEnd with
  | nil =>
    unfold snippetParts at h
    split at h
    · exact .inl ⟨_, List.mem_singleton.mp h⟩
    · cases h
  | cons region regions ih =>
    unfold snippetParts at h
    rcases List.mem_append.mp h with h | h
    · split at h
      · split at h
        · exact .inl ⟨_, List.mem_singleton.mp h⟩
        · cases h
      · exact .inl ⟨_, List.mem_singleton.mp h⟩
    · rcases List.mem_cons.mp h with h | h
      · exact .inr ⟨_, _, h⟩
      · exact ih h

theorem newline_not_mem_gapMark (n : ℕ) : '\n' ∉ gapMark n := by
  unfold gapMark
  rw [List.mem_append, List.mem_append]
  rintro ((h | h) | h)
  · simp at h
  · exact newline_not_mem_digits n h
  · simp at h

theorem isSnippetLine_buildSnippet {regions : List (ℕ × ℕ)} {total : ℕ} {text : Text}
    (hlt : (splitLines content).length < usizeCount)
    (h : text ∈ (buildSnippet content regions total scheme).splitOn '\n') (hne : text ≠ []) :
    IsSnippetLine scheme (splitLines content) text := by
  unfold buildSnippet at h
  split at h
  · dsimp only at h
    split at h
    · exact .inr (isPrintedLine_formatHashlineContent hlt h hne)
    · obtain ⟨part, hpart, hsplit⟩ := mem_splitOn_joinLines h hne
      rcases snippetParts_part hpart with ⟨n, rfl⟩ | ⟨offset, limit, rfl⟩
      · rw [List.splitOn_eq_singleton (newline_not_mem_gapMark n), List.mem_singleton] at hsplit
        exact .inl ⟨n, hsplit⟩
      · exact .inr (isPrintedLine_formatHashlineContent hlt hsplit hne)
  · rw [List.splitOn_nil, List.mem_singleton] at h
    exact (hne h).elim

/-- Every line of the snippet after an edit is printed after an anchor that names it in the
new content, or marks lines that are not shown. -/
theorem isSnippetLine_applyEdits {old filePath : Text} {ops : List HashlineOp}
    {applied : HashlineEditsApplied} {text : Text}
    (houtput : (applyEdits old ops filePath scheme).output = .editsApplied applied)
    (hcontent : (applyEdits old ops filePath scheme).newContent = some content)
    (hlt : (splitLines content).length < usizeCount)
    (h : text ∈ applied.snippet.splitOn '\n') (hne : text ≠ []) :
    IsSnippetLine scheme (splitLines content) text := by
  unfold applyEdits at houtput hcontent
  split at houtput
  · dsimp only at hcontent
    split at houtput
    · cases houtput
    · rename_i hdetect
      rw [hdetect] at hcontent
      cases hcontent
      cases houtput
      exact .inr (isPrintedLine_formatHashlineContent hlt h hne)
  · dsimp only at houtput
    split at houtput
    · cases houtput
    · split at houtput
      · cases houtput
      · rename_i resolved hresolved _ hoverlap
        simp only [hresolved, hoverlap] at hcontent
        cases hcontent
        cases houtput
        exact isSnippetLine_buildSnippet hlt h hne

end Snippets

section Errors

variable {scheme : AnchorScheme} {ls : List Text}

/-- What an error shows of a content: printed lines, and an anchor of the line it suggests. -/
structure ShowsAnchors (scheme : AnchorScheme) (ls : List Text) (e : HashlineEditError) :
    Prop where
  context : ∀ ctx, e.context = some ctx → ∀ text ∈ ctx.splitOn '\n', text ≠ [] →
    IsPrintedLine scheme ls text
  current : ∀ text, e.current = some text → IsPrintedLine scheme ls text
  shifted : ∀ fresh, e.shiftedAnchor = some fresh →
    ∃ i, e.shiftedTo = some (i + 1) ∧ Names scheme ls fresh i

theorem findShifted_found {parsed : ParsedAnchor} {radius newLine : ℕ}
    (h : findShifted scheme parsed ls radius = .found newLine) :
    ∃ i line, newLine = i + 1 ∧ ls[i]? = some line := by
  unfold findShifted at h
  dsimp only at h
  split at h
  · cases h
  · rename_i newLine' hcandidates
    cases h
    have hmem := List.mem_singleton_self newLine
    rw [← hcandidates] at hmem
    obtain ⟨i, hi, rfl⟩ := List.mem_map.mp hmem
    have hcandidate := List.of_mem_filter hi
    unfold isCandidate at hcandidate
    split at hcandidate
    · cases hcandidate
    · split at hcandidate
      · cases hcandidate
      · rename_i line hline
        exact ⟨i, line, rfl, hline⟩
  · cases h

theorem printed_staleContext {content : Text} {n : ℕ} {t : Text}
    (h : t ∈ staleContext (generateAnchors scheme (splitLines content)) (splitLines content) n) :
    ∃ i line, (splitLines content)[i]? = some line ∧
      t = anchoredLine (i + 1)
        (anchorSuffix (anchorAt scheme (splitLines content) i line)) line := by
  unfold staleContext at h
  obtain ⟨i, -, hi⟩ := List.mem_filterMap.mp h
  rw [getElem?_generateAnchors] at hi
  cases hline : (splitLines content)[i]? with
  | none =>
    rw [hline] at hi
    cases hi
  | some line =>
    rw [hline] at hi
    cases hi
    exact ⟨i, line, hline, rfl⟩

theorem isPrintedLine_current {content : Text} {line : ℕ} {text : Text}
    (hlt : (splitLines content).length < usizeCount)
    (h : (match (generateAnchors scheme (splitLines content))[line - 1]?,
        (splitLines content)[line - 1]? with
      | some a, some l => some (renderAnchoredLine a l)
      | _, _ => none) = some text) : IsPrintedLine scheme (splitLines content) text := by
  rw [getElem?_generateAnchors] at h
  cases hline : (splitLines content)[line - 1]? with
  | none =>
    rw [hline] at h
    cases h
  | some line =>
    rw [hline] at h
    cases h
    exact isPrintedLine_anchorAt hline hlt

theorem showsAnchors_staleAnchorError {content anchorStr : Text} {parsed : ParsedAnchor}
    (hlt : (splitLines content).length < usizeCount) :
    ShowsAnchors scheme (splitLines content)
      (staleAnchorError scheme anchorStr parsed (splitLines content)) := by
  have hcontext : ∀ text ∈ (joinLines (staleContext
      (generateAnchors scheme (splitLines content)) (splitLines content)
      parsed.line)).splitOn '\n', text ≠ [] → IsPrintedLine scheme (splitLines content) text :=
    fun text h hne => isPrintedLine_of_mem hlt (fun t ht => printed_staleContext ht) h hne
  have hcurrent := fun text => @isPrintedLine_current scheme content parsed.line text hlt
  unfold staleAnchorError
  dsimp only
  cases hshift : findShifted scheme parsed (splitLines content) defaultSearchRadius with
  | found newLine =>
    obtain ⟨i, line, rfl, hline⟩ := findShifted_found hshift
    have hi : i < (splitLines content).length := (List.getElem?_eq_some_iff.mp hline).1
    have hanchor : (generateAnchors scheme (splitLines content))[i]? =
        some (anchorAt scheme (splitLines content) i line) := by
      rw [getElem?_generateAnchors, hline]
      rfl
    constructor
    · intro ctx hctx
      cases hctx
      exact hcontext
    · exact hcurrent
    · intro fresh hfresh
      dsimp only at hfresh
      rw [if_neg (Nat.succ_ne_zero i), Nat.add_sub_cancel, hanchor] at hfresh
      cases hfresh
      exact ⟨i, rfl, names_anchorAt hline (by omega)⟩
  | ambiguous | notFound =>
    constructor
    · intro ctx hctx
      cases hctx
      exact hcontext
    · exact hcurrent
    · intro fresh hfresh
      cases hfresh

theorem showsAnchors_of_none {e : HashlineEditError} (hcontext : e.context = none)
    (hcurrent : e.current = none) (hshifted : e.shiftedAnchor = none) :
    ShowsAnchors scheme ls e := by
  constructor
  · intro ctx h
    rw [hcontext] at h
    cases h
  · intro text h
    rw [hcurrent] at h
    cases h
  · intro fresh h
    rw [hshifted] at h
    cases h

theorem showsAnchors_validateAnchor {content anchorStr : Text} {e : HashlineEditError}
    (hlt : (splitLines content).length < usizeCount)
    (h : validateAnchor anchorStr (splitLines content) scheme = .error e) :
    ShowsAnchors scheme (splitLines content) e := by
  unfold validateAnchor at h
  dsimp only at h
  split at h
  · cases h
    exact showsAnchors_of_none rfl rfl rfl
  · split at h
    · cases h
    · cases h
      exact showsAnchors_of_none rfl rfl rfl
    · cases h
      exact showsAnchors_staleAnchorError hlt

end Errors

section Accepted

variable {scheme : AnchorScheme} {ls : List Text}

theorem recoverAnchorBySuffix_some {suffix : Text} {p : ParsedAnchor}
    (h : recoverAnchorBySuffix suffix ls scheme = some p) :
    ∃ a ∈ generateAnchors scheme ls, p = ⟨a.line, a.localHash, a.context⟩ ∧
      suffix = anchorSuffix a := by
  unfold recoverAnchorBySuffix at h
  dsimp only at h
  split at h
  · rename_i a hfound
    cases h
    have hmem := List.mem_singleton_self a
    rw [← hfound] at hmem
    refine ⟨a, List.mem_of_mem_filter hmem, rfl, ?_⟩
    have hmatch := List.of_mem_filter hmem
    unfold anchorSuffix
    split at hmatch
    · rename_i ctx localHash sfxCtx hctx hsplit
      simp only [Bool.and_eq_true, decide_eq_true_eq] at hmatch
      obtain ⟨hlocal, hsfx⟩ := hmatch
      rw [eq_of_splitOnce hsplit, hctx, ← hlocal, ← hsfx]
      simp
    · rename_i hctx hsplit
      rw [hctx]
      exact (of_decide_eq_true hmatch).symm
    · cases hmatch
  · cases h

theorem line_of_mem_generateAnchors {a : Anchor} (h : a ∈ generateAnchors scheme ls) :
    ∃ i line, ls[i]? = some line ∧ a = anchorAt scheme ls i line := by
  obtain ⟨i, hi⟩ := List.mem_iff_getElem?.mp h
  rw [getElem?_generateAnchors] at hi
  obtain ⟨line, hline, rfl⟩ := Option.map_eq_some_iff.mp hi
  exact ⟨i, line, hline, rfl⟩

/-- An accepted anchor has the hashes of the line that it names, or is exactly these hashes
without a line number. -/
theorem validateAnchor_ok {anchorStr : Text} {i : ℕ}
    (h : validateAnchor anchorStr ls scheme = .ok i) :
    ∃ a, (generateAnchors scheme ls)[i]? = some a ∧
      ((∃ p, ParsedAnchor.parse (stripArrow anchorStr) = some p ∧ p.line = i + 1 ∧
          p.localHash = a.localHash ∧ (a.context.isSome → p.context = a.context)) ∨
        (ParsedAnchor.parse (stripArrow anchorStr) = none ∧
          stripArrow anchorStr = anchorSuffix a)) := by
  unfold validateAnchor at h
  dsimp only at h
  cases hparse : ParsedAnchor.parse (stripArrow anchorStr) with
  | some p =>
    rw [hparse, Option.some_or] at h
    dsimp only at h
    split at h
    · rename_i hvalid
      obtain ⟨i', line, hi', hline, hlocal, hctx⟩ := validate_valid.mp hvalid
      cases h
      refine ⟨anchorAt scheme ls i' line, ?_, .inl ⟨p, rfl, ?_, hlocal, hctx⟩⟩
      · rw [hi', Nat.add_sub_cancel, getElem?_generateAnchors, hline]
        rfl
      · rw [hi', Nat.add_sub_cancel]
    · cases h
    · cases h
  | none =>
    rw [hparse, Option.none_or] at h
    split at h
    · cases h
    · rename_i p hrecover
      obtain ⟨a, hmem, rfl, hsuffix⟩ := recoverAnchorBySuffix_some hrecover
      obtain ⟨i', line, hline, rfl⟩ := line_of_mem_generateAnchors hmem
      split at h
      · cases h
        refine ⟨anchorAt scheme ls i' line, ?_, .inr ⟨rfl, hsuffix⟩⟩
        show (generateAnchors scheme ls)[i']? = _
        rw [getElem?_generateAnchors, hline]
        rfl
      · cases h
      · cases h

end Accepted

/-- Every anchor that is printed for a content names its line: in a formatted content, in
the snippet of the edit that made the content, and in the errors of anchors. Conversely an
anchor that is accepted has the hashes of the line it names. A content has fewer lines than
a machine word counts. -/
theorem printed_anchors_name_lines (scheme : AnchorScheme) (content : Text)
    (hlt : (splitLines content).length < usizeCount) :
    (∀ offset limit,
      ∀ text ∈ (formatHashlineContent content offset limit scheme).1.splitOn '\n',
        text ≠ [] → IsPrintedLine scheme (splitLines content) text) ∧
    (∀ old ops filePath applied,
      (applyEdits old ops filePath scheme).output = .editsApplied applied →
      (applyEdits old ops filePath scheme).newContent = some content →
        ∀ text ∈ applied.snippet.splitOn '\n', text ≠ [] →
          IsSnippetLine scheme (splitLines content) text) ∧
    (∀ anchorStr e, validateAnchor anchorStr (splitLines content) scheme = .error e →
      ShowsAnchors scheme (splitLines content) e) ∧
    (∀ anchorStr i, validateAnchor anchorStr (splitLines content) scheme = .ok i →
      ∃ a, (generateAnchors scheme (splitLines content))[i]? = some a ∧
        ((∃ p, ParsedAnchor.parse (stripArrow anchorStr) = some p ∧ p.line = i + 1 ∧
            p.localHash = a.localHash ∧ (a.context.isSome → p.context = a.context)) ∨
          (ParsedAnchor.parse (stripArrow anchorStr) = none ∧
            stripArrow anchorStr = anchorSuffix a))) := by
  refine ⟨?_, ?_, ?_, ?_⟩
  · intro offset limit text h hne
    exact isPrintedLine_formatHashlineContent hlt h hne
  · intro old ops filePath applied houtput hcontent text h hne
    exact isSnippetLine_applyEdits houtput hcontent hlt h hne
  · intro anchorStr e h
    exact showsAnchors_validateAnchor hlt h
  · intro anchorStr i h
    exact validateAnchor_ok h

def defaultHashLen : HashLen := ⟨3, by decide, by decide⟩

/-- The scheme of the default parameters. -/
def defaultScheme : AnchorScheme := .chunkFingerprint defaultHashLen 8 (by decide)

/-- The only line of a content is printed after an anchor that names it. -/
theorem printed_line_named :
    IsPrintedLine defaultScheme (splitLines ['x'])
      (formatHashlineContent ['x'] none none defaultScheme).1 := by
  apply (printed_anchors_name_lines defaultScheme ['x'] (by decide)).1 none none
  · decide +kernel
  · decide +kernel

end Ezer.Hashline
