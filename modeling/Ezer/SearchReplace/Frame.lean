import Ezer.SearchReplace.Tool

/-!
# What a replacement leaves as it was

The characters of a file with their bytes, and those of the edited file: the
ones outside the parts replaced are written with their own bytes, but that a
file with a CR LF has all its line ends written as CR LF. Every occurrence in
the searched text meets a part that was replaced.
-/

namespace Ezer.SearchReplace

open Lib

/-- The first pieces of a text, up to so many bytes of it. -/
def takePieces : ℕ → List Piece → List Piece
  | 0, _ => []
  | _, [] => []
  | n + 1, p :: ps => p :: takePieces (n + 1 - p.char.utf8Size) ps

/-- The pieces of a text from so many bytes of it on. -/
def dropPieces : ℕ → List Piece → List Piece
  | 0, ps => ps
  | _, [] => []
  | n + 1, p :: ps => dropPieces (n + 1 - p.char.utf8Size) ps

/-- The pieces with others in place of spans of the text, from an offset on. -/
def editPieces (new : List Piece) : ℕ → List Span → List Piece → List Piece
  | _, [], ps => ps
  | offset, s :: rest, ps =>
    takePieces (s.start - offset) ps ++ new ++
      editPieces new s.stop rest (dropPieces (s.stop - offset) ps)

/-- The pieces of the text that is searched in a file. -/
def matchPieces (bytes : List UInt8) : List Piece :=
  if hasCrlf (fromUtf8Lossy bytes) then foldCrlf (utf8Pieces bytes) else utf8Pieces bytes

/-- The parts of a text that are replaced: those equal to what is searched, or without one of
these those that read as it. -/
def matchedSpans (host : Host) (input : SearchReplaceInput) (matchText : Text) : List Span :=
  match matchIndices input.oldString matchText with
  | [] =>
    match findNormalizedMatchPositions matchText input.oldString with
    | .matches found => if host.unicodeNormalizedFallback then found else []
    | _ => []
  | positions => positions.map fun pos => ⟨pos, byteLen input.oldString⟩

/-- A part of a text is one that may be replaced. -/
def Occurs (host : Host) (input : SearchReplaceInput) (matchText : Text) (s : Span) : Prop :=
  ∃ m, getBytes matchText s.start s.stop = some m ∧
    (m = input.oldString ∨ host.unicodeNormalizedFallback = true ∧
      normalizeConfusables m = normalizeConfusables input.oldString)

/-- What is written for a character of the edited file behind another. In a file with a CR LF, a
line end is written as CR LF, of which the carriage return may be the character before it. What
was read from its own encoding is written as it was. -/
def WrittenPiece (crlf : Bool) (before : Option Char) (p : Piece) (out : List UInt8) : Prop :=
  if crlf = true ∧ p.char = '\n' then out = if before = some '\r' then [10] else [13, 10]
  else p.bytes = String.utf8EncodeChar p.char → out = p.bytes

/-- What is written for the characters of the edited file behind one. -/
inductive WrittenPieces (crlf : Bool) : Option Char → List Piece → List UInt8 → Prop
  | nil {before : Option Char} : WrittenPieces crlf before [] []
  | cons {before : Option Char} {p : Piece} {ps : List Piece} {out rest : List UInt8}
      (here : WrittenPiece crlf before p out) (behind : WrittenPieces crlf (some p.char) ps rest) :
      WrittenPieces crlf before (p :: ps) (out ++ rest)

/-- The pieces of the edited file. -/
def editedPieces (host : Host) (input : SearchReplaceInput) (bytes : List UInt8) : List Piece :=
  editPieces (textPieces input.newString) 0
    (matchedSpans host input (matchTextOf (fromUtf8Lossy bytes))) (matchPieces bytes)

theorem pieceText_matchPieces (bytes : List UInt8) :
    pieceText (matchPieces bytes) = matchTextOf (fromUtf8Lossy bytes) := by
  rw [matchPieces, matchTextOf]
  split
  · rw [pieceText_foldCrlf, pieceText_utf8Pieces]
  · exact pieceText_utf8Pieces bytes

theorem pieceText_takePieces {u v : Text} {ps : List Piece} (h : pieceText ps = u ++ v) :
    pieceText (takePieces (byteLen u) ps) = u := by
  induction u generalizing ps with
  | nil => rw [byteLen_nil, takePieces, pieceText_nil]
  | cons c u ih =>
    cases ps with
    | nil => cases h
    | cons p ps =>
      obtain ⟨hc, hrest⟩ := List.cons_eq_cons.mp h
      have hpos : 0 < c.utf8Size := Char.utf8Size_pos c
      obtain ⟨n, hn⟩ : ∃ n, byteLen (c :: u) = n + 1 := by
        rw [byteLen_cons]
        exact ⟨c.utf8Size - 1 + byteLen u, by omega⟩
      have hsub : n + 1 - p.char.utf8Size = byteLen u := by
        rw [← hn, byteLen_cons, hc, Nat.add_sub_cancel_left]
      rw [hn, takePieces, pieceText_cons, hsub, ih hrest, hc]

theorem takePieces_append_dropPieces (n : ℕ) (ps : List Piece) :
    takePieces n ps ++ dropPieces n ps = ps := by
  induction ps generalizing n with
  | nil => cases n <;> rfl
  | cons p ps ih =>
    cases n with
    | zero => rfl
    | succ n => exact congrArg (p :: ·) (ih _)

theorem pieceText_dropPieces {u v : Text} {ps : List Piece} (h : pieceText ps = u ++ v) :
    pieceText (dropPieces (byteLen u) ps) = v := by
  have hparts := congrArg pieceText (takePieces_append_dropPieces (byteLen u) ps)
  rw [pieceText_append, pieceText_takePieces h, h] at hparts
  exact List.append_cancel_left hparts

theorem pieceText_editPieces (newString tail : Text) {parts : List (Text × Text)} (offset : ℕ)
    {ps : List Piece} (h : pieceText ps = Cuts.text ⟨parts, tail⟩) :
    pieceText (editPieces (textPieces newString) offset (spansFrom offset parts) ps) =
      Cuts.replaced ⟨parts, tail⟩ newString := by
  induction parts generalizing offset ps with
  | nil => exact h
  | cons part parts ih =>
    obtain ⟨g, m⟩ := part
    rw [Cuts.text_cons] at h
    have hstart : offset + byteLen g - offset = byteLen g := Nat.add_sub_cancel_left _ _
    have hstop : Span.stop ⟨offset + byteLen g, byteLen m⟩ - offset = byteLen (g ++ m) := by
      rw [byteLen_append]
      change offset + byteLen g + byteLen m - offset = byteLen g + byteLen m
      omega
    have hkept := pieceText_takePieces (h.trans (List.append_assoc _ _ _))
    have hrest := ih (offset + byteLen g + byteLen m) (pieceText_dropPieces h)
    rw [spansFrom, editPieces, hstart, hstop, pieceText_append, pieceText_append, hkept,
      pieceText_textPieces, Cuts.replaced_cons, ← hrest]
    rfl

theorem writtenPieces_encode {ps : List Piece} {before : Option Char} :
    WrittenPieces false before ps (encodeUtf8 (pieceText ps)) := by
  induction ps generalizing before with
  | nil => exact .nil
  | cons p ps ih =>
    refine .cons ?_ ih
    rw [WrittenPiece, if_neg (fun h => Bool.false_ne_true h.1)]
    exact Eq.symm

theorem writtenPieces_crlf {ps : List Piece} {before : Option Char} :
    WrittenPieces true before ps (crlfBytes before (pieceText ps)) := by
  induction ps generalizing before with
  | nil => exact .nil
  | cons p ps ih =>
    refine .cons ?_ ih
    rw [WrittenPiece, crlfChar]
    by_cases hc : p.char = '\n'
    · rw [if_pos ⟨rfl, hc⟩, if_pos hc]
    · rw [if_neg (fun h => hc h.2), if_neg hc]
      exact Eq.symm

theorem writtenPieces_of_text (crlf : Bool) (ps : List Piece) :
    WrittenPieces crlf none ps (encodeUtf8
      (if crlf then lfToCrlf (crlfToLf (pieceText ps)) else pieceText ps)) := by
  cases crlf with
  | false => exact writtenPieces_encode
  | true =>
    have hencode := @encodeUtf8_lfToCrlf_crlfToLf (pieceText ps) none (fun h => by cases h)
    rw [if_pos rfl, hencode]
    exact writtenPieces_crlf

/-- What a replacement that was applied wrote. -/
theorem written_of_applied {host : Host} {input : SearchReplaceInput} {crlf fallback : Bool}
    {replaced : Text × List ℕ} {applied : SearchReplaceEditsApplied}
    (h : (writeReplacement host input crlf fallback replaced).output = .editsApplied applied) :
    (writeReplacement host input crlf fallback replaced).written =
      some (encodeUtf8 (if crlf then lfToCrlf (crlfToLf replaced.1) else replaced.1)) := by
  unfold writeReplacement at h ⊢
  dsimp only at h ⊢
  split
  · rename_i hmem
    rw [hmem] at h
    cases h
  · rfl
  · rename_i hmem
    rw [hmem] at h
    dsimp only at h
    split
    · rename_i e hwrite
      rw [hwrite] at h
      cases e <;> cases h
    · rfl

/-- A call that replaces nothing. -/
def Unapplied (call : Except ToolError Outcome) : Prop :=
  ∀ r, call = .ok r → ∀ applied, r.output ≠ .editsApplied applied

theorem unapplied_bind {α : Type} {x : Except ToolError α} {f : α → Except ToolError Outcome}
    (h : ∀ a, Unapplied (f a)) : Unapplied (x >>= f) := by
  intro r hr
  cases x with
  | error e => cases hr
  | ok a => exact h a r hr

theorem unapplied_noMatchesFound (host : Host) (input : SearchReplaceInput) (matchText : Text) :
    Unapplied (noMatchesFound host input matchText) := by
  refine unapplied_bind fun _ => unapplied_bind fun _ => unapplied_bind fun _ => ?_
  rintro r hr applied happlied
  cases hr
  cases happlied

theorem unapplied_multipleMatchesFound (host : Host) (how : Text) :
    Unapplied (multipleMatchesFound host how) := by
  refine unapplied_bind fun _ => ?_
  rintro r hr applied happlied
  cases hr
  cases happlied

theorem unapplied_ambiguousMatch (host : Host) : Unapplied (ambiguousMatch host) := by
  refine unapplied_bind fun _ => ?_
  rintro r hr applied happlied
  cases hr
  cases happlied

theorem pairwise_spansFrom (offset : ℕ) (parts : List (Text × Text)) :
    (spansFrom offset parts).Pairwise fun s t => s.stop ≤ t.start := by
  induction parts generalizing offset with
  | nil => exact List.Pairwise.nil
  | cons part parts ih =>
    obtain ⟨g, m⟩ := part
    rw [spansFrom]
    refine List.Pairwise.cons ?_ (ih _)
    intro t ht
    exact spansFrom_start_le ht

/-- What is replaced in a text that has what is searched. -/
structure Replaced (host : Host) (input : SearchReplaceInput) (crlf : Bool) (matchText : Text)
    (cuts : Cuts) (r : Outcome) : Prop where
  text : cuts.text = matchText
  spans : cuts.spans = matchedSpans host input matchText
  written : r.written = some (encodeUtf8
    (if crlf then lfToCrlf (crlfToLf (cuts.replaced input.newString))
      else cuts.replaced input.newString))
  occurs : ∀ s ∈ cuts.spans, Occurs host input matchText s
  once : input.replaceAll = false → cuts.spans.length = 1
  covers : ∀ a b, matchText = a ++ input.oldString ++ b →
    ∃ s ∈ cuts.spans, s.Meets (byteLen a) (byteLen a + byteLen input.oldString)

theorem mem_spansFrom {offset : ℕ} {parts : List (Text × Text)} {s : Span}
    (h : s ∈ spansFrom offset parts) (a tail : Text) (ha : byteLen a = offset) :
    ∃ part ∈ parts, getBytes (a ++ Cuts.text ⟨parts, tail⟩) s.start s.stop = some part.2 := by
  induction parts generalizing offset a with
  | nil => cases h
  | cons part parts ih =>
    obtain ⟨g, m⟩ := part
    rw [spansFrom] at h
    rw [Cuts.text_cons]
    cases h with
    | head =>
      refine ⟨(g, m), List.mem_cons_self, ?_⟩
      have hget := getBytes_append (a ++ g) m (Cuts.text ⟨parts, tail⟩)
      rw [byteLen_append, ha, List.append_assoc, List.append_assoc] at hget
      rw [List.append_assoc]
      exact hget
    | tail _ h =>
      obtain ⟨part, hpart, hget⟩ := ih h (a ++ g ++ m)
        (by rw [byteLen_append, byteLen_append, ha])
      refine ⟨part, List.mem_cons_of_mem _ hpart, ?_⟩
      rw [← List.append_assoc, ← List.append_assoc]
      exact hget

theorem Cuts.getBytes_of_mem_spans {cuts : Cuts} {s : Span} (h : s ∈ cuts.spans) :
    ∃ part ∈ cuts.parts, getBytes cuts.text s.start s.stop = some part.2 :=
  mem_spansFrom h [] cuts.tail rfl

theorem map_start_spansFrom {pattern : Text} {parts : List (Text × Text)} (offset : ℕ)
    (h : ∀ part ∈ parts, part.2 = pattern) :
    ((spansFrom offset parts).map Span.start).map (fun pos => (⟨pos, byteLen pattern⟩ : Span)) =
      spansFrom offset parts := by
  induction parts generalizing offset with
  | nil => rfl
  | cons part parts ih =>
    obtain ⟨g, m⟩ := part
    have hm : m = pattern := h _ List.mem_cons_self
    rw [spansFrom, List.map_cons, List.map_cons,
      ih _ (fun part hpart => h part (List.mem_cons_of_mem _ hpart)), hm]

/-- What was replaced cuts the searched text. -/
theorem replaced_of_applied {host : Host} {input : SearchReplaceInput} {crlf : Bool}
    {matchText : Text} {r : Outcome} {applied : SearchReplaceEditsApplied}
    (hold : input.oldString ≠ []) (h : replaceFound host input crlf matchText = .ok r)
    (happlied : r.output = .editsApplied applied) :
    ∃ cuts, Replaced host input crlf matchText cuts r := by
  obtain ⟨parted, htext, hcut, hindices⟩ := exists_cuts_matchIndices hold matchText
  unfold replaceFound at h
  split at h
  · rename_i hnone
    have hempty : parted.parts = [] := by
      rw [hnone] at hindices
      cases hparts : parted.parts with
      | nil => rfl
      | cons part parts =>
        rw [Cuts.spans, hparts] at hindices
        cases hindices
    split at h
    · rename_i hfallback
      split at h
      · rename_i found hfound
        split at h
        · exact (unapplied_multipleMatchesFound _ _ r h applied happlied).elim
        split at h
        · exact (unapplied_noMatchesFound _ _ _ r h applied happlied).elim
        rename_i hmany hsome
        cases h
        obtain ⟨cuts, hcuts, hspans, hnorm⟩ := exists_cuts_findNormalized hfound
        refine ⟨cuts, hcuts, ?_, ?_, ?_, ?_, ?_⟩
        · rw [matchedSpans, hnone, hfound, hspans]
          dsimp only
          rw [if_pos hfallback]
        · rw [written_of_applied happlied, replaceNormalizedMatches, ← hspans, ← hcuts,
            replaceSpans_spans]
        · intro s hs
          obtain ⟨part, hpart, hget⟩ := Cuts.getBytes_of_mem_spans hs
          rw [hcuts] at hget
          exact ⟨part.2, hget, Or.inr ⟨hfallback, hnorm part hpart⟩⟩
        · intro honce
          have hpos : found ≠ [] := fun hnil => hsome (List.isEmpty_iff.mpr hnil)
          have hlen := List.length_pos_iff.mpr hpos
          have hle : ¬ 1 < found.length := fun hlt => hmany ⟨hlt, honce⟩
          rw [hspans]
          omega
        · intro a b hab
          refine (hcut.tail ⟨a, b, ?_⟩).elim
          rw [← hab, ← htext, Cuts.text, hempty]
          rfl
      · exact (unapplied_ambiguousMatch _ r h applied happlied).elim
      · exact (unapplied_noMatchesFound _ _ _ r h applied happlied).elim
    · exact (unapplied_noMatchesFound _ _ _ r h applied happlied).elim
  · rename_i positions hsome
    split at h
    · exact (unapplied_multipleMatchesFound _ _ r h applied happlied).elim
    rename_i hmany
    cases h
    have hspans : (matchIndices input.oldString matchText).map
        (fun pos => (⟨pos, byteLen input.oldString⟩ : Span)) = parted.spans := by
      rw [hindices]
      exact map_start_spansFrom 0 hcut.matched
    refine ⟨parted, htext, ?_, ?_, ?_, ?_, ?_⟩
    · rw [matchedSpans]
      split
      · rename_i hnone
        exact (hsome hnone).elim
      · exact hspans.symm
    · rw [written_of_applied happlied, replaceUsingPositions, hspans, ← htext, replaceSpans_spans]
    · intro s hs
      obtain ⟨part, hpart, hget⟩ := Cuts.getBytes_of_mem_spans hs
      rw [htext] at hget
      exact ⟨part.2, hget, Or.inl (hcut.matched part hpart)⟩
    · intro honce
      have hpos := List.length_pos_iff.mpr hsome
      have hle : ¬ 1 < (matchIndices input.oldString matchText).length :=
        fun hlt => hmany ⟨hlt, honce⟩
      have hlen := congrArg List.length hspans
      rw [List.length_map] at hlen
      omega
    · intro a b hab
      have hmeets := meets_spansFrom hold hcut 0 (htext.trans hab)
      rw [Nat.zero_add] at hmeets
      exact hmeets

/-- What an applied replacement wrote: the parts of the searched text that are replaced are apart
and occurrences of what was searched, one of them unless all were asked for; they meet every
occurrence in the searched text; and outside of them the file is written as it was, but for its
line ends if one is CR LF and but for bytes that are not UTF-8. -/
theorem replacement_frame {host : Host} {input : SearchReplaceInput} {bytes : List UInt8}
    {r : Outcome} {applied : SearchReplaceEditsApplied} (hold : input.oldString ≠ [])
    (hread : host.readFile = .ok bytes) (h : handleReplacement host input = .ok r)
    (happlied : r.output = .editsApplied applied) :
    let matchText := matchTextOf (fromUtf8Lossy bytes)
    let spans := matchedSpans host input matchText
    (∃ written, r.written = some written ∧
      WrittenPieces (hasCrlf (fromUtf8Lossy bytes)) none (editedPieces host input bytes) written) ∧
    (∀ s ∈ spans, Occurs host input matchText s) ∧
    spans.Pairwise (fun s t => s.stop ≤ t.start) ∧
    (input.replaceAll = false → spans.length = 1) ∧
    ∀ a b, matchText = a ++ input.oldString ++ b →
      ∃ s ∈ spans, s.Meets (byteLen a) (byteLen a + byteLen input.oldString) := by
  intro matchText spans
  rw [handleReplacement, hread] at h
  obtain ⟨cuts, hcuts⟩ := replaced_of_applied hold h happlied
  have hspans : cuts.spans = spans := hcuts.spans
  refine ⟨⟨_, hcuts.written, ?_⟩, ?_, ?_, ?_, ?_⟩
  · have hedited : pieceText (editedPieces host input bytes) = cuts.replaced input.newString := by
      rw [editedPieces, ← hcuts.spans]
      refine pieceText_editPieces input.newString cuts.tail 0 ?_
      rw [pieceText_matchPieces]
      exact hcuts.text.symm
    rw [← hedited]
    exact writtenPieces_of_text _ _
  · rw [← hspans]
    exact hcuts.occurs
  · rw [← hspans]
    exact pairwise_spansFrom 0 cuts.parts
  · rw [← hspans]
    exact hcuts.once
  · rw [← hspans]
    exact hcuts.covers

/-- A session with neither memory files nor hints, and a file. -/
def plainHost (bytes : List UInt8) : Host where
  readFile := .ok bytes
  writeMemoryV2File _ := .ok false
  writeFile _ := .ok ()
  unicodeNormalizedFallback := false
  path := ['f']
  notFoundMessage := []
  render _ := .ok []
  isLegacy := false
  includeUserEditHint := true
  nearestMatchHint _ _ := []
  confusableHint _ _ _ _ _ := none

theorem replacement_frame_mixed :
    let host := plainHost [97, 13, 10, 98, 10]
    let input : SearchReplaceInput := ⟨['f'], ['a'], ['c'], false⟩
    ∃ r applied, handleReplacement host input = .ok r ∧ r.output = .editsApplied applied ∧
      r.written = some [99, 13, 10, 98, 13, 10] ∧
      ∃ written, r.written = some written ∧
        WrittenPieces true none (editedPieces host input [97, 13, 10, 98, 10]) written := by
  intro host input
  refine ⟨_, _, rfl, rfl, by decide +kernel, ?_⟩
  exact (@replacement_frame host input [97, 13, 10, 98, 10] _ _ (by decide) rfl rfl rfl).1

/-- A replacement changes bytes outside the parts that it replaces. -/
theorem not_replacement_keeps_bytes :
    ¬ ∀ (host : Host) (input : SearchReplaceInput) (bytes : List UInt8) (r : Outcome)
      (applied : SearchReplaceEditsApplied), input.oldString ≠ [] → host.readFile = .ok bytes →
      handleReplacement host input = .ok r → r.output = .editsApplied applied →
      let text := fromUtf8Lossy bytes
      let newString := if hasCrlf text then lfToCrlf (crlfToLf input.newString) else input.newString
      r.written = some (pieceBytes (editPieces (textPieces newString) 0
        (matchedSpans host input (matchTextOf text)) (matchPieces bytes))) := by
  intro h
  have hbytes := h (plainHost [97, 13, 10, 98, 10, 255]) ⟨['f'], ['a'], ['c'], false⟩
    [97, 13, 10, 98, 10, 255] _ _ (by decide) rfl rfl rfl
  have hne : ¬ some (encodeUtf8 (lfToCrlf (crlfToLf ['c', '\n', 'b', '\n', replacementChar]))) =
      some (pieceBytes (editPieces (textPieces ['c']) 0 [⟨0, 1⟩]
        (matchPieces [97, 13, 10, 98, 10, 255]))) := by
    decide +kernel
  exact hne hbytes

end Ezer.SearchReplace
