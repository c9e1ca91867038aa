import Ezer.ApplyPatch.Parser

/-!
# Printing and parsing a patch

The text of a list of sections. Every line of a file is printed behind a sign,
so that no line of a file is taken for a marker, and the parser gives the
sections back.
-/

namespace Ezer.ApplyPatch

open Ezer.Lib

/-- The first line of a chunk. -/
def renderContext : Option Text → Text
  | none => emptyChangeContextMarker
  | some context => changeContextMarker ++ context

/-- The lines of a chunk. -/
def renderChunk (chunk : UpdateFileChunk) : List Text :=
  renderContext chunk.changeContext ::
    (chunk.oldLines.map ('-' :: ·) ++ chunk.newLines.map ('+' :: ·) ++
      if chunk.isEndOfFile then [eofMarker] else [])

/-- The lines of a section. -/
def renderHunk : Hunk → List Text
  | .addFile path contents => (addFileMarker ++ path) :: (lines contents).map ('+' :: ·)
  | .deleteFile path => [deleteFileMarker ++ path]
  | .updateFile path movePath chunks =>
    (updateFileMarker ++ path) ::
      ((movePath.map (moveToMarker ++ ·)).toList ++ chunks.flatMap renderChunk)

/-- The text of a patch. -/
def renderPatch (hunks : List Hunk) : Text :=
  joinLines (beginPatchMarker :: (hunks.flatMap renderHunk ++ [endPatchMarker]))

/-- A text without line ends. -/
def SingleLine (t : Text) : Prop := '\n' ∉ t ∧ '\r' ∉ t

/-- A path that stands in a header. -/
structure PrintablePath (path : Text) : Prop where
  nonempty : path ≠ []
  trimmed : trim path = path
  single : SingleLine path

/-- A chunk that has a text. -/
structure UpdateFileChunk.Printable (chunk : UpdateFileChunk) : Prop where
  context : ∀ context, chunk.changeContext = some context → context ≠ [] ∧ SingleLine context
  old : ∀ l ∈ chunk.oldLines, SingleLine l
  new : ∀ l ∈ chunk.newLines, SingleLine l
  nonempty : chunk.oldLines ≠ [] ∨ chunk.newLines ≠ []

/-- A section that has a text. -/
def Hunk.Printable : Hunk → Prop
  | .addFile path contents => PrintablePath path ∧
    ∃ ls : List Text, (∀ l ∈ ls, SingleLine l) ∧ contents = (ls.map (· ++ ['\n'])).flatten
  | .deleteFile path => PrintablePath path
  | .updateFile path movePath chunks => PrintablePath path ∧
    (∀ move, movePath = some move → PrintablePath move) ∧ chunks ≠ [] ∧
    ∀ chunk ∈ chunks, chunk.Printable

section Chunks

/-- The next line neither belongs to a chunk nor to an added file. -/
def Stops (rest : List Text) : Prop :=
  ∀ first rest', rest = first :: rest' → first ≠ eofMarker ∧
    ∃ c t, first = c :: t ∧ c ≠ ' ' ∧ c ≠ '+' ∧ c ≠ '-'

theorem parseChunkLines_stops {rest : List Text} (h : Stops rest) (n : ℕ)
    (chunk : UpdateFileChunk) {parsed : ℕ} (hparsed : parsed ≠ 0) :
    parseChunkLines n rest chunk parsed = .ok (chunk, parsed) := by
  cases rest with
  | nil => rfl
  | cons first rest =>
    obtain ⟨hfirst, c, t, rfl, hspace, hplus, hminus⟩ := h first rest rfl
    rw [parseChunkLines, if_neg hfirst, if_neg hparsed]
    · intro heq
      cases heq
    · intro l heq
      cases heq
      exact hspace rfl
    · intro l heq
      cases heq
      exact hplus rfl
    · intro l heq
      cases heq
      exact hminus rfl

theorem parseChunkLines_old (n : ℕ) (ls rest : List Text) (chunk : UpdateFileChunk) (parsed : ℕ) :
    parseChunkLines n (ls.map ('-' :: ·) ++ rest) chunk parsed =
      parseChunkLines n rest { chunk with oldLines := chunk.oldLines ++ ls }
        (parsed + ls.length) := by
  induction ls generalizing chunk parsed with
  | nil => simp
  | cons l ls ih =>
    rw [List.map_cons, List.cons_append, parseChunkLines, if_neg (by simp [eofMarker]), ih]
    simp [Nat.add_assoc, Nat.add_comm 1]

theorem parseChunkLines_new (n : ℕ) (ls rest : List Text) (chunk : UpdateFileChunk) (parsed : ℕ) :
    parseChunkLines n (ls.map ('+' :: ·) ++ rest) chunk parsed =
      parseChunkLines n rest { chunk with newLines := chunk.newLines ++ ls }
        (parsed + ls.length) := by
  induction ls generalizing chunk parsed with
  | nil => simp
  | cons l ls ih =>
    rw [List.map_cons, List.cons_append, parseChunkLines, if_neg (by simp [eofMarker]), ih]
    simp [Nat.add_assoc, Nat.add_comm 1]

theorem parseChunkLines_eof (n : ℕ) (rest : List Text) (chunk : UpdateFileChunk) {parsed : ℕ}
    (hparsed : parsed ≠ 0) : parseChunkLines n (eofMarker :: rest) chunk parsed =
      .ok ({ chunk with isEndOfFile := true }, parsed + 1) := by
  simp [parseChunkLines, eofMarker, hparsed]

theorem parseUpdateFileChunk_render {chunk : UpdateFileChunk} (h : chunk.Printable)
    {rest : List Text} (hrest : Stops rest) (n : ℕ) (missing : Bool) :
    parseUpdateFileChunk (renderChunk chunk ++ rest) n missing =
      .ok (chunk, (renderChunk chunk).length) := by
  obtain ⟨context, old, new, eof⟩ := chunk
  have hcontext : parseChangeContext (renderContext context) n missing = .ok (context, 1) := by
    cases context with
    | none => rfl
    | some context =>
      unfold parseChangeContext renderContext
      rw [if_neg, stripStart_append]
      simp [emptyChangeContextMarker, changeContextMarker]
  have hcount : old.length + new.length ≠ 0 := by
    have hne := h.nonempty
    simp only [ne_eq, ← List.length_eq_zero_iff] at hne
    omega
  unfold parseUpdateFileChunk renderChunk
  dsimp only
  rw [List.cons_append]
  dsimp only
  rw [hcontext]
  dsimp only
  rw [if_neg]
  · rw [List.drop_succ_cons, List.drop_zero, List.append_assoc, List.append_assoc,
      parseChunkLines_old, parseChunkLines_new]
    cases eof with
    | false =>
      rw [if_neg (by simp), List.nil_append, parseChunkLines_stops hrest _ _ (by omega)]
      simp
    | true =>
      rw [if_pos rfl, List.cons_append, parseChunkLines_eof _ _ _ (by omega)]
      simp
      omega
  · simp only [List.length_cons, List.length_append, List.length_map]
    omega

end Chunks

section Sections

/-- The next line is the header of a section. -/
def Headed (rest : List Text) : Prop :=
  ∀ first rest', rest = first :: rest' → first ≠ eofMarker ∧ ∃ t, first = '*' :: '*' :: '*' :: t

theorem Headed.stops {rest : List Text} (h : Headed rest) : Stops rest := by
  intro first rest' heq
  obtain ⟨hne, t, rfl⟩ := h first rest' heq
  exact ⟨hne, '*', _, rfl, by decide, by decide, by decide⟩

theorem renderContext_cons (context : Option Text) :
    ∃ t, renderContext context = '@' :: t := by
  cases context with
  | none | some => exact ⟨_, rfl⟩

theorem stops_renderChunk (chunk : UpdateFileChunk) (rest : List Text) :
    Stops (renderChunk chunk ++ rest) := by
  intro first rest' heq
  unfold renderChunk at heq
  rw [List.cons_append] at heq
  obtain ⟨t, ht⟩ := renderContext_cons chunk.changeContext
  rw [ht] at heq
  cases heq
  exact ⟨by simp [eofMarker], '@', t, rfl, by decide, by decide, by decide⟩

theorem stops_renderChunks (chunks : List UpdateFileChunk) {rest : List Text}
    (h : Headed rest) : Stops (chunks.flatMap renderChunk ++ rest) := by
  cases chunks with
  | nil => exact h.stops
  | cons chunk chunks =>
    rw [List.flatMap_cons, List.append_assoc]
    exact stops_renderChunk chunk _

/-- Printed chunks are parsed as they were. -/
theorem parseChunks_render (n : ℕ) {chunks : List UpdateFileChunk}
    (h : ∀ chunk ∈ chunks, chunk.Printable) {rest : List Text} (hrest : Headed rest)
    {fuel : ℕ} (hfuel : (chunks.flatMap renderChunk ++ rest).length ≤ fuel)
    (before : List UpdateFileChunk) (parsed : ℕ) :
    parseChunks n fuel (chunks.flatMap renderChunk ++ rest) before parsed =
      .ok (before ++ chunks, parsed + (chunks.flatMap renderChunk).length) := by
  induction chunks generalizing fuel before parsed with
  | nil =>
    cases rest with
    | nil => cases fuel <;> simp [parseChunks]
    | cons first rest =>
      obtain ⟨-, t, rfl⟩ := hrest first rest rfl
      cases fuel with
      | zero => simp at hfuel
      | succ fuel =>
        rw [List.flatMap_nil, List.nil_append, parseChunks,
          if_neg (trim_cons_ne_nil (by decide) _)]
        simp
  | cons chunk chunks ih =>
    obtain ⟨t, ht⟩ := renderContext_cons chunk.changeContext
    have hstops := stops_renderChunks chunks hrest
    have hparse := fun missing => parseUpdateFileChunk_render (h chunk (by simp)) hstops
      (n + parsed) missing
    rw [List.flatMap_cons, List.append_assoc] at hfuel ⊢
    have hfirst : renderChunk chunk = ('@' :: t) :: (renderChunk chunk).tail := by
      rw [← ht]
      rfl
    cases fuel with
    | zero =>
      rw [hfirst] at hfuel
      simp at hfuel
    | succ fuel =>
      have hless : (chunks.flatMap renderChunk ++ rest).length ≤ fuel := by
        rw [List.length_append, hfirst, List.length_cons] at hfuel
        omega
      have hunfold : parseChunks n (fuel + 1)
          (renderChunk chunk ++ (chunks.flatMap renderChunk ++ rest)) before parsed =
          parseChunks n fuel (chunks.flatMap renderChunk ++ rest) (before ++ [chunk])
            (parsed + (renderChunk chunk).length) := by
        have hparse' := hparse before.isEmpty
        have hdrop : (renderChunk chunk ++ (chunks.flatMap renderChunk ++ rest)).drop
            (renderChunk chunk).length = chunks.flatMap renderChunk ++ rest := List.drop_left
        generalize (renderChunk chunk).length = len at hparse' hdrop ⊢
        rw [hfirst, List.cons_append] at hparse' hdrop ⊢
        rw [parseChunks, if_neg (trim_cons_ne_nil (by decide) _), if_neg (by simp)]
        rw [hparse']
        dsimp only
        rw [hdrop]
      rw [hunfold, ih (fun c hc => h c (by simp [hc])) hless]
      simp [Nat.add_assoc]

theorem parseAddLines_render (ls : List Text) {rest : List Text} (h : Stops rest) :
    parseAddLines (ls.map ('+' :: ·) ++ rest) = ((ls.map (· ++ ['\n'])).flatten, ls.length) := by
  induction ls with
  | nil =>
    cases rest with
    | nil => rfl
    | cons first rest =>
      obtain ⟨-, c, t, rfl, -, hplus, -⟩ := h first rest rfl
      rw [List.map_nil, List.nil_append, parseAddLines]
      · rfl
      · intro line rest' heq
        cases heq
        exact hplus rfl
  | cons l ls ih =>
    rw [List.map_cons, List.cons_append, parseAddLines, ih]
    simp

theorem lines_render {ls : List Text} (h : ∀ l ∈ ls, SingleLine l) :
    lines (ls.map (· ++ ['\n'])).flatten = ls := by
  have hlines := @lines_flatten_append (ls.map (· ++ ['\n'])) (by
    intro l hl
    obtain ⟨x, hx, rfl⟩ := List.mem_map.mp hl
    exact ⟨x, (h x hx).1, (h x hx).2, rfl⟩) []
  rw [List.append_nil] at hlines
  rw [hlines]
  simp [lines, splitInclusive, splitAfter, Function.comp_def]

/-- The first line of a section is its header. -/
theorem renderHunk_cons (hunk : Hunk) : ∃ t rest, t ≠ ['E', 'n', 'd', ' ', 'o', 'f', ' ', 'F', 'i',
    'l', 'e'] ∧ renderHunk hunk = ('*' :: '*' :: '*' :: ' ' :: t) :: rest := by
  cases hunk with
  | addFile | deleteFile | updateFile => exact ⟨_, _, by simp, rfl⟩

theorem headed_renderHunks (hunks : List Hunk) : Headed (hunks.flatMap renderHunk) := by
  cases hunks with
  | nil =>
    intro first rest' heq
    cases heq
  | cons hunk hunks =>
    obtain ⟨t, rest, hne, hrender⟩ := renderHunk_cons hunk
    intro first rest' heq
    rw [List.flatMap_cons, hrender, List.cons_append] at heq
    cases heq
    refine ⟨?_, _, rfl⟩
    intro heof
    simp only [eofMarker, List.cons.injEq, true_and] at heof
    exact hne heof

theorem trim_header {marker path : Text} {c : Char} {m : Text} (hmarker : marker = c :: m)
    (hc : isWhitespace c = false) (h : PrintablePath path) :
    trim (marker ++ path) = marker ++ path := by
  subst hmarker
  exact trim_cons_append hc m h.trimmed h.nonempty

theorem parseOneHunk_render {hunk : Hunk} (h : hunk.Printable) {rest : List Text}
    (hrest : Headed rest) (n : ℕ) :
    parseOneHunk (renderHunk hunk ++ rest) n = .ok (hunk, (renderHunk hunk).length) := by
  cases hunk with
  | addFile path contents =>
    obtain ⟨hpath, ls, hls, rfl⟩ := h
    unfold renderHunk parseOneHunk
    rw [List.cons_append]
    dsimp only
    have htrim : trim (addFileMarker ++ path) = addFileMarker ++ path :=
      trim_header rfl (by decide) hpath
    rw [htrim, stripStart_append, lines_render hls]
    dsimp only
    rw [parseAddLines_render ls hrest.stops]
    simp
  | deleteFile path =>
    unfold renderHunk parseOneHunk
    rw [List.cons_append]
    dsimp only
    have htrim : trim (deleteFileMarker ++ path) = deleteFileMarker ++ path :=
      trim_header rfl (by decide) h
    have hnotAdd : stripStart addFileMarker (deleteFileMarker ++ path) = none := rfl
    rw [htrim, hnotAdd, stripStart_append]
    rfl
  | updateFile path movePath chunks =>
    obtain ⟨hpath, hmove, hne, hchunks⟩ := h
    unfold renderHunk parseOneHunk
    rw [List.cons_append]
    dsimp only
    have htrim : trim (updateFileMarker ++ path) = updateFileMarker ++ path :=
      trim_header rfl (by decide) hpath
    have hnotAdd : stripStart addFileMarker (updateFileMarker ++ path) = none := rfl
    have hnotDelete : stripStart deleteFileMarker (updateFileMarker ++ path) = none := rfl
    rw [htrim, hnotAdd, hnotDelete, stripStart_append]
    dsimp only
    unfold parseUpdate
    cases movePath with
    | none =>
      have hhead : ((none : Option Text).map (moveToMarker ++ ·)).toList ++
          chunks.flatMap renderChunk ++ rest = chunks.flatMap renderChunk ++ rest := rfl
      have hnone : (chunks.flatMap renderChunk ++ rest).head?.bind (stripStart moveToMarker) =
          none := by
        cases chunks with
        | nil => exact (hne rfl).elim
        | cons chunk chunks =>
          obtain ⟨t, ht⟩ := renderContext_cons chunk.changeContext
          rw [List.flatMap_cons]
          unfold renderChunk
          rw [ht]
          rfl
      rw [hhead, hnone]
      dsimp only
      rw [if_neg (by simp), parseChunks_render n hchunks hrest le_rfl]
      cases chunks with
      | nil => exact (hne rfl).elim
      | cons chunk chunks => simp [Nat.add_comm]
    | some move =>
      have hhead : ((some move).map (moveToMarker ++ ·)).toList ++
          chunks.flatMap renderChunk ++ rest =
          (moveToMarker ++ move) :: (chunks.flatMap renderChunk ++ rest) := rfl
      rw [hhead, List.head?_cons, Option.bind_some, stripStart_append]
      simp only [Option.isSome_some, if_true, List.drop_succ_cons, List.drop_zero]
      rw [parseChunks_render n hchunks hrest le_rfl]
      cases chunks with
      | nil => exact (hne rfl).elim
      | cons chunk chunks =>
        simp
        omega

theorem parseHunks_render {hunks : List Hunk} (h : ∀ hunk ∈ hunks, hunk.Printable) {fuel : ℕ}
    (hfuel : (hunks.flatMap renderHunk).length ≤ fuel) (n : ℕ) :
    parseHunks fuel (hunks.flatMap renderHunk) n = .ok hunks := by
  induction hunks generalizing fuel n with
  | nil => cases fuel <;> rfl
  | cons hunk hunks ih =>
    have hone := parseOneHunk_render (h hunk (by simp)) (headed_renderHunks hunks) n
    obtain ⟨t, rest, -, hrender⟩ := renderHunk_cons hunk
    rw [List.flatMap_cons] at hfuel ⊢
    have hdrop : (renderHunk hunk ++ hunks.flatMap renderHunk).drop (renderHunk hunk).length =
        hunks.flatMap renderHunk := List.drop_left
    cases fuel with
    | zero =>
      rw [hrender] at hfuel
      simp at hfuel
    | succ fuel =>
      have hless : (hunks.flatMap renderHunk).length ≤ fuel := by
        rw [List.length_append, hrender, List.length_cons] at hfuel
        omega
      generalize (renderHunk hunk).length = len at hone hdrop
      rw [hrender, List.cons_append] at hone hdrop ⊢
      rw [parseHunks, hone]
      dsimp only
      rw [hdrop, ih (fun hunk' hmem => h hunk' (by simp [hmem])) hless]

end Sections

section Patches

theorem singleLine_append {s t : Text} (hs : SingleLine s) (ht : SingleLine t) :
    SingleLine (s ++ t) := by
  unfold SingleLine at *
  simp only [List.mem_append, not_or]
  exact ⟨⟨hs.1, ht.1⟩, ⟨hs.2, ht.2⟩⟩

theorem singleLine_renderChunk {chunk : UpdateFileChunk} (h : chunk.Printable) :
    ∀ l ∈ renderChunk chunk, SingleLine l := by
  intro l hl
  unfold renderChunk at hl
  simp only [List.mem_cons, List.mem_append, List.mem_map] at hl
  rcases hl with rfl | (⟨x, hx, rfl⟩ | ⟨x, hx, rfl⟩) | heof
  · cases hcontext : chunk.changeContext with
    | none => exact ⟨by decide, by decide⟩
    | some context =>
      exact singleLine_append ⟨by decide, by decide⟩ (h.context context hcontext).2
  · exact @singleLine_append ['-'] x ⟨by decide, by decide⟩ (h.old x hx)
  · exact @singleLine_append ['+'] x ⟨by decide, by decide⟩ (h.new x hx)
  · split at heof
    · rw [List.mem_singleton.mp heof]
      exact ⟨by decide, by decide⟩
    · cases heof

theorem singleLine_renderHunk {hunk : Hunk} (h : hunk.Printable) :
    ∀ l ∈ renderHunk hunk, SingleLine l := by
  intro l hl
  cases hunk with
  | addFile path contents =>
    obtain ⟨hpath, ls, hls, rfl⟩ := h
    simp only [renderHunk, lines_render hls] at hl
    rcases List.mem_cons.mp hl with rfl | hl
    · exact singleLine_append ⟨by decide, by decide⟩ hpath.single
    · obtain ⟨x, hx, rfl⟩ := List.mem_map.mp hl
      exact @singleLine_append ['+'] x ⟨by decide, by decide⟩ (hls x hx)
  | deleteFile path =>
    rw [List.mem_singleton.mp hl]
    exact singleLine_append ⟨by decide, by decide⟩ h.single
  | updateFile path movePath chunks =>
    obtain ⟨hpath, hmove, -, hchunks⟩ := h
    unfold renderHunk at hl
    rcases List.mem_cons.mp hl with rfl | hl
    · exact singleLine_append ⟨by decide, by decide⟩ hpath.single
    · rcases List.mem_append.mp hl with hl | hl
      · cases movePath with
        | none => cases hl
        | some move =>
          rw [List.mem_singleton.mp hl]
          exact singleLine_append ⟨by decide, by decide⟩ (hmove move rfl).single
      · obtain ⟨chunk, hchunk, hl⟩ := List.mem_flatMap.mp hl
        exact singleLine_renderChunk (hchunks chunk hchunk) l hl

theorem lines_joinLines {ls : List Text} {last : Text} (h : ∀ l ∈ ls, SingleLine l)
    (hlast : SingleLine last) (hne : last ≠ []) :
    lines (joinLines (ls ++ [last])) = ls ++ [last] := by
  induction ls with
  | nil =>
    rw [List.nil_append, joinLines_singleton]
    exact lines_of_not_mem hlast.1 hne
  | cons l ls ih =>
    have hl := h l (by simp)
    have hstrip : stripSuffix '\r' l = none := by
      have hcr : l.getLast? ≠ some '\r' := fun he => hl.2 (List.mem_of_getLast? he)
      simp [stripSuffix, hcr]
    rw [List.cons_append, joinLines_cons l (by simp), lines_append_newline hl.1, hstrip,
      ih fun l' hl' => h l' (by simp [hl'])]
    rfl

theorem joinLines_concat {ls : List Text} (h : ls ≠ []) (last : Text) :
    joinLines (ls ++ [last]) = joinLines ls ++ '\n' :: last := by
  induction ls with
  | nil => exact (h rfl).elim
  | cons l ls ih =>
    cases ls with
    | nil =>
      rw [List.cons_append, joinLines_cons l (by simp)]
      simp
    | cons l' ls =>
      rw [List.cons_append, joinLines_cons l (by simp), ih (by simp), joinLines_cons l (by simp)]
      simp

/-- A printed patch is parsed as the sections it was printed from. -/
theorem parsePatch_renderPatch (hunks : List Hunk) (h : ∀ hunk ∈ hunks, hunk.Printable) :
    parsePatch (renderPatch hunks) = .ok ⟨hunks, renderPatch hunks⟩ := by
  have hlines : lines (renderPatch hunks) =
      beginPatchMarker :: (hunks.flatMap renderHunk ++ [endPatchMarker]) := by
    unfold renderPatch
    rw [← List.cons_append]
    apply lines_joinLines
    · intro l hl
      rcases List.mem_cons.mp hl with rfl | hl
      · exact ⟨by decide, by decide⟩
      · obtain ⟨hunk, hhunk, hl⟩ := List.mem_flatMap.mp hl
        exact singleLine_renderHunk (h hunk hhunk) l hl
    · exact ⟨by decide, by decide⟩
    · decide
  have htrim : trim (renderPatch hunks) = renderPatch hunks := by
    unfold renderPatch
    rw [← List.cons_append, joinLines_concat (by simp)]
    have hbegin : ∃ t, joinLines (beginPatchMarker :: hunks.flatMap renderHunk) = '*' :: t := by
      cases hunks.flatMap renderHunk with
      | nil => exact ⟨_, rfl⟩
      | cons l ls =>
        rw [joinLines_cons _ (by simp)]
        exact ⟨_, rfl⟩
    obtain ⟨t, ht⟩ := hbegin
    have hsplit : '*' :: t ++ '\n' :: endPatchMarker =
        '*' :: (t ++ ['\n']) ++ endPatchMarker := by
      simp
    rw [ht, hsplit]
    exact trim_cons_append (by decide) _ (by decide) (by decide)
  have hinner : ((beginPatchMarker :: (hunks.flatMap renderHunk ++ [endPatchMarker])).drop
      1).dropLast = hunks.flatMap renderHunk := by
    rw [List.drop_succ_cons, List.drop_zero, List.dropLast_concat]
  have hboundaries : checkPatchBoundariesStrict
      (beginPatchMarker :: (hunks.flatMap renderHunk ++ [endPatchMarker])) = .ok () := by
    unfold checkPatchBoundariesStrict
    rw [← List.cons_append, List.getLast?_concat]
    rfl
  unfold parsePatch
  dsimp only
  rw [htrim, hlines, hboundaries]
  dsimp only
  unfold parsePatchLines
  dsimp only
  rw [hinner, parseHunks_render h le_rfl]
  rfl

/-- A patch that adds a file and updates another one, whose lines look like markers. -/
theorem parsePatch_sample :
    parsePatch (renderPatch [.addFile ['a'] ("*** End Patch\n".toList),
      .updateFile ['b'] (some ['c']) [⟨some ['@', '@'], [['-']], [[]], true⟩]]) =
    .ok ⟨[.addFile ['a'] ("*** End Patch\n".toList),
      .updateFile ['b'] (some ['c']) [⟨some ['@', '@'], [['-']], [[]], true⟩]],
      renderPatch [.addFile ['a'] ("*** End Patch\n".toList),
        .updateFile ['b'] (some ['c']) [⟨some ['@', '@'], [['-']], [[]], true⟩]]⟩ := by
  apply parsePatch_renderPatch
  intro hunk hhunk
  rcases List.mem_cons.mp hhunk with rfl | hhunk
  · refine ⟨⟨by decide, by decide, by decide, by decide⟩, [endPatchMarker], ?_, by decide⟩
    intro l hl
    rw [List.mem_singleton.mp hl]
    exact ⟨by decide, by decide⟩
  · rw [List.mem_singleton.mp hhunk]
    refine ⟨⟨by decide, by decide, by decide, by decide⟩, ?_, by decide, ?_⟩
    · rintro move ⟨⟩
      exact ⟨by decide, by decide, by decide, by decide⟩
    · intro chunk hchunk
      rw [List.mem_singleton.mp hchunk]
      refine ⟨?_, ?_, ?_, .inl (by decide)⟩
      · rintro context ⟨⟩
        exact ⟨by decide, by decide, by decide⟩
      · intro l hl
        rw [List.mem_singleton.mp hl]
        exact ⟨by decide, by decide⟩
      · intro l hl
        rw [List.mem_singleton.mp hl]
        exact ⟨by decide, by decide⟩

end Patches

end Ezer.ApplyPatch
