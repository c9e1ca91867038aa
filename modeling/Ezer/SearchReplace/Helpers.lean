import Ezer.Lib.Slices

/-!
# Where a replacement finds its text

The Unicode characters that look like ASCII ones, the search that reads them as
these, and the replacement of the parts that a search found.
-/

namespace Ezer.SearchReplace

open Lib

/-- The Unicode characters that look like ASCII ones. -/
def confusableMap : List (Char × Text) :=
  [ (Char.ofNat 0x201C, ['"']),
    (Char.ofNat 0x201D, ['"']),
    (Char.ofNat 0x2018, ['\'']),
    (Char.ofNat 0x2019, ['\'']),
    (Char.ofNat 0x2014, ['-', '-']),
    (Char.ofNat 0x2013, ['-']),
    (Char.ofNat 0x2026, ['.', '.', '.']),
    (Char.ofNat 0x00A0, [' ']) ]

/-- What a character is read as, if it is one that looks like ASCII. -/
def lookup (c : Char) : Option Text := (confusableMap.find? fun entry => entry.1 == c).map Prod.snd

/-- A text with ASCII in place of the characters that look like it. -/
def normalizeConfusables (s : Text) : Text := s.flatMap fun c => (lookup c).getD [c]

/-- For each byte of a text so read, and for its end, the offset it comes from. -/
def offsetsFrom : ℕ → Text → List ℕ
  | offset, [] => [offset]
  | offset, c :: cs =>
    (match lookup c with
      | some replacement => List.replicate (byteLen replacement) offset
      | none => (List.range c.utf8Size).map (offset + ·)) ++
    offsetsFrom (offset + c.utf8Size) cs

/-- A text so read, with the offset that each of its bytes comes from. -/
def buildOffsetMap (s : Text) : Text × List ℕ := (normalizeConfusables s, offsetsFrom 0 s)

/-- A part of a text that reads as what is searched. -/
abbrev NormalizedMatch := Span

/-- What a search that reads characters as ASCII ones says. -/
inductive NormalizedMatchResult where
  | noMatch
  | «matches» (found : List NormalizedMatch)
  | ambiguous
  deriving DecidableEq

/-- The part of a text that a place in the text read as ASCII comes from, if it reads as the
pattern. -/
def validateCandidate (text normPattern : Text) (offsetMap : List ℕ) (normStart : ℕ) :
    Option NormalizedMatch := do
  let origStart ← offsetMap[normStart]?
  let origEnd ← offsetMap[normStart + byteLen normPattern]?
  if origEnd ≤ origStart then none
  else do
    let origSlice ← getBytes text origStart origEnd
    if normalizeConfusables origSlice ≠ normPattern then none
    else some ⟨origStart, origEnd - origStart⟩

/-- Some span starts inside the one before it. -/
def overlapping : List Span → Bool
  | prev :: next :: rest => decide (next.start < prev.stop) || overlapping (next :: rest)
  | _ => false

/-- The parts of a text that read as a pattern. -/
def findNormalizedMatchPositions (text pattern : Text) : NormalizedMatchResult :=
  let (normText, offsetMap) := buildOffsetMap text
  let normPattern := normalizeConfusables pattern
  if normPattern.isEmpty then .noMatch
  else
    let candidates := (matchIndices normPattern normText).map
      (validateCandidate text normPattern offsetMap)
    let validated := candidates.filterMap id
    if validated.isEmpty then if candidates.any Option.isNone then .ambiguous else .noMatch
    else if overlapping validated then .ambiguous
    else .matches validated

/-- Put a text in place of spans, behind what was copied up to an offset. -/
def replaceLoop (text newString : Text) : List Span → ℕ → Text → List ℕ → Option (Text × List ℕ)
  | [], lastEnd, newText, newPositions =>
    (getBytesFrom text lastEnd).map fun tail => (newText ++ tail, newPositions)
  | s :: rest, lastEnd, newText, newPositions => do
    let chunk ← getBytes text lastEnd s.start
    replaceLoop text newString rest s.stop (newText ++ chunk ++ newString)
      (newPositions ++ [byteLen (newText ++ chunk)])

/-- Put a text in place of spans, with the offsets at which it then stands; the text as it was
if a span is not one of it. -/
def replaceSpans (text newString : Text) (spans : List Span) : Text × List ℕ :=
  (replaceLoop text newString spans 0 [] []).getD (text, [])

/-- Replace what stands at some offsets. -/
def replaceUsingPositions (text : Text) (matchPositions : List ℕ) (oldString newString : Text) :
    Text × List ℕ :=
  replaceSpans text newString (matchPositions.map fun pos => ⟨pos, byteLen oldString⟩)

/-- Replace the parts found by a search that reads characters as ASCII ones. -/
def replaceNormalizedMatches (text : Text) (found : List NormalizedMatch) (newString : Text) :
    Text × List ℕ :=
  replaceSpans text newString found

/-- A text cut in the same places, with other parts in place of the replaced ones. -/
def cutsWith (newString : Text) (parts : List (Text × Text)) : List (Text × Text) :=
  parts.map fun part => (part.1, newString)

theorem replaceLoop_cuts (newString a tail : Text) (parts : List (Text × Text)) (newText : Text)
    (newPositions : List ℕ) :
    replaceLoop (a ++ Cuts.text ⟨parts, tail⟩) newString (spansFrom (byteLen a) parts)
      (byteLen a) newText newPositions =
        some (newText ++ Cuts.replaced ⟨parts, tail⟩ newString,
          newPositions ++
            (spansFrom (byteLen newText) (cutsWith newString parts)).map Span.start) := by
  induction parts generalizing a newText newPositions with
  | nil =>
    rw [spansFrom, replaceLoop, Cuts.text, Cuts.replaced, getBytesFrom_append, cutsWith,
      List.map_nil, spansFrom, List.map_nil, List.append_nil]
    rfl
  | cons part parts ih =>
    obtain ⟨g, m⟩ := part
    have hrest := ih (a ++ g ++ m) (newText ++ g ++ newString)
      (newPositions ++ [byteLen (newText ++ g)])
    rw [byteLen_append, byteLen_append] at hrest
    have hchunk : getBytes (a ++ Cuts.text ⟨(g, m) :: parts, tail⟩) (byteLen a)
        (byteLen a + byteLen g) = some g := by
      rw [Cuts.text_cons, List.append_assoc, ← List.append_assoc]
      exact getBytes_append a g _
    have hcuts : cutsWith newString ((g, m) :: parts) =
        (g, newString) :: cutsWith newString parts := rfl
    rw [spansFrom, replaceLoop, hchunk, Option.bind_eq_bind, Option.bind_some,
      Cuts.replaced_cons, ← List.append_assoc, ← List.append_assoc, hcuts, spansFrom, List.map_cons,
      Cuts.text_cons, ← List.append_assoc, ← List.append_assoc, byteLen_append newText]
    rw [byteLen_append (newText ++ g), byteLen_append newText, List.append_assoc newPositions,
      List.singleton_append] at hrest
    exact hrest

/-- Spans that cut a text are replaced, and nothing else is. -/
theorem replaceSpans_cuts (cuts : Cuts) (newString : Text) :
    replaceSpans cuts.text newString cuts.spans =
      (cuts.replaced newString, (spansFrom 0 (cutsWith newString cuts.parts)).map Span.start) := by
  have hloop : replaceLoop cuts.text newString cuts.spans 0 [] [] = some
      (cuts.replaced newString, (spansFrom 0 (cutsWith newString cuts.parts)).map Span.start) :=
    replaceLoop_cuts newString [] cuts.tail cuts.parts [] []
  rw [replaceSpans, hloop]
  rfl

theorem replaceSpans_spans (cuts : Cuts) (newString : Text) :
    (replaceSpans cuts.text newString cuts.spans).1 = cuts.replaced newString := by
  rw [replaceSpans_cuts]

theorem exists_cuts_of_spans {P : Text → Prop} {spans : List Span} {a t : Text}
    (hspans : ∀ s ∈ spans, ∃ m, getBytes (a ++ t) s.start s.stop = some m ∧ P m)
    (hstart : ∀ s ∈ spans.head?, byteLen a ≤ s.start) (hover : overlapping spans = false) :
    ∃ cuts : Cuts, cuts.text = t ∧ spansFrom (byteLen a) cuts.parts = spans ∧
      ∀ part ∈ cuts.parts, P part.2 := by
  induction spans generalizing a t with
  | nil => exact ⟨⟨[], t⟩, rfl, rfl, nofun⟩
  | cons s rest ih =>
    obtain ⟨m, hm, hP⟩ := hspans s List.mem_cons_self
    obtain ⟨pre, post, ht, hpre, hstop⟩ := getBytes_eq_some hm
    have hle : byteLen a ≤ byteLen pre := by
      rw [hpre]
      exact hstart s rfl
    obtain ⟨g, rfl⟩ : ∃ g, pre = a ++ g := by
      rw [List.append_assoc] at ht
      rcases List.append_eq_append_iff.mp ht with ⟨g, hg, _⟩ | ⟨g, hg, _⟩
      · exact ⟨g, hg⟩
      · cases g with
        | nil => exact ⟨[], by rw [hg, List.append_nil, List.append_nil]⟩
        | cons c g =>
          have hc : 0 < c.utf8Size := Char.utf8Size_pos c
          rw [hg, byteLen_append, byteLen_cons] at hle
          omega
    have ht' : t = g ++ m ++ post := by
      rw [List.append_assoc, List.append_assoc] at ht
      rw [List.append_cancel_left ht, List.append_assoc]
    have hlen : byteLen m = s.len := by
      rw [hpre, Span.stop] at hstop
      omega
    obtain ⟨cuts, htext, hcuts, hall⟩ := ih (a := a ++ g ++ m) (t := post)
      (by
        intro s' hs'
        have h := hspans s' (List.mem_cons_of_mem _ hs')
        rw [ht', ← List.append_assoc, ← List.append_assoc] at h
        exact h)
      (by
        intro s' hs'
        cases rest with
        | nil => cases hs'
        | cons next rest =>
          cases hs'
          rw [overlapping, Bool.or_eq_false_iff, decide_eq_false_iff_not] at hover
          rw [byteLen_append, hstop]
          exact Nat.le_of_not_lt hover.1)
      (by
        cases rest with
        | nil => rfl
        | cons next rest =>
          rw [overlapping, Bool.or_eq_false_iff] at hover
          exact hover.2)
    refine ⟨⟨(g, m) :: cuts.parts, cuts.tail⟩, ?_, ?_, ?_⟩
    · rw [Cuts.text_cons, ht', ← htext]
    · have hnext : s.start + s.len = byteLen (a ++ g ++ m) := by
        rw [byteLen_append, hpre, hlen]
      rw [spansFrom, ← byteLen_append, hpre, hlen, hnext, hcuts]
    · rintro part (_ | ⟨_, hpart⟩)
      · exact hP
      · exact hall part hpart

theorem getBytes_of_validateCandidate {text normPattern : Text} {offsetMap : List ℕ}
    {normStart : ℕ} {s : NormalizedMatch}
    (h : validateCandidate text normPattern offsetMap normStart = some s) :
    ∃ m, getBytes text s.start s.stop = some m ∧ normalizeConfusables m = normPattern := by
  obtain ⟨origStart, _, h⟩ := Option.bind_eq_some_iff.mp h
  obtain ⟨origEnd, _, h⟩ := Option.bind_eq_some_iff.mp h
  split at h
  · cases h
  · rename_i hlt
    obtain ⟨origSlice, hslice, h⟩ := Option.bind_eq_some_iff.mp h
    split at h
    · cases h
    · rename_i hnorm
      cases h
      have hstop : origStart + (origEnd - origStart) = origEnd := by omega
      refine ⟨origSlice, ?_, not_not.mp hnorm⟩
      rw [Span.stop, hstop]
      exact hslice

/-- What the search finds cuts the text into parts that are kept and parts that read as the
pattern. -/
theorem exists_cuts_findNormalized {text pattern : Text} {found : List NormalizedMatch}
    (h : findNormalizedMatchPositions text pattern = .matches found) :
    ∃ cuts : Cuts, cuts.text = text ∧ cuts.spans = found ∧
      ∀ part ∈ cuts.parts, normalizeConfusables part.2 = normalizeConfusables pattern := by
  unfold findNormalizedMatchPositions at h
  dsimp only at h
  split at h
  · cases h
  split at h
  · split at h <;> cases h
  split at h
  · cases h
  rename_i hover
  obtain rfl := NormalizedMatchResult.matches.inj h
  have hover' := Bool.eq_false_iff.mpr hover
  refine @exists_cuts_of_spans (fun m => normalizeConfusables m = normalizeConfusables pattern)
    _ [] text ?_ ?_ hover'
  · intro s hs
    obtain ⟨c, hc, hs⟩ := List.mem_filterMap.mp hs
    obtain ⟨n, _, hn⟩ := List.mem_map.mp hc
    exact getBytes_of_validateCandidate (hn.trans hs)
  · intro s _
    exact Nat.zero_le _

end Ezer.SearchReplace
