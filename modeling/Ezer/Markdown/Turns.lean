import Ezer.Markdown.Scans

/-!
# Turns where more text follows

A turn never cuts a character, stops only where more text may come, and takes the
same where more text follows, or the start of what it takes there.
-/

namespace Ezer.Markdown

open Lib

/-- A turn with a text emitted before it. -/
def Turn.emitBefore (out : Text) : Turn → Turn
  | .misaligned => .misaligned
  | .stop more held => .stop (out ++ more) held
  | .go more rest mode => .go (out ++ more) rest mode

/-- A fence of a mode is ASCII. -/
def Mode.Ascii (mode : Mode) : Prop := ∀ ch len, mode.state = .fenced ch len → ch < 128

theorem Mode.ascii_inLine : Mode.inLine.Ascii := nofun

theorem Mode.ascii_normal (atLineStart : Bool) : Mode.Ascii ⟨.normal, atLineStart⟩ := nofun

theorem Mode.ascii_inlineCode (run : ℕ) (atLineStart : Bool) :
    Mode.Ascii ⟨.inlineCode run, atLineStart⟩ := nofun

theorem Mode.ascii_fenced {ch : UInt8} (hch : ch < 128) (len : ℕ) (atLineStart : Bool) :
    Mode.Ascii ⟨.fenced ch len, atLineStart⟩ := by
  rintro _ _ ⟨⟩
  exact hch

section Advance

variable {rest : Text} {n : ℕ} {emit : Text → Text} {mode : Mode}

/-- What a turn leaves is shorter, and it stops only where more text may come. -/
def Turn.Moves (rest : Text) (finalFlush : Bool) : Turn → Prop
  | .misaligned => False
  | .stop _ _ => finalFlush = false
  | .go _ rest' mode => rest'.length < rest.length ∧ mode.Ascii

theorem advance_moves (hcut : CutAt (encodeUtf8 rest) n) (hpos : 0 < n) (hmode : mode.Ascii)
    (emit : Text → Text) (finalFlush : Bool) : (advance rest n emit mode).Moves rest finalFlush := by
  obtain ⟨u, v, hsplit⟩ := exists_splitBytes hcut
  rw [advance, hsplit]
  obtain ⟨rfl, hlen⟩ := splitBytes_eq_some_iff.mp hsplit
  refine ⟨?_, hmode⟩
  cases u with
  | nil =>
    rw [byteLen_nil] at hlen
    omega
  | cons c u =>
    rw [List.length_append, List.length_cons]
    omega

theorem takeInline_moves (finalFlush : Bool) (hleads : Leads (encodeUtf8 rest) 2) :
    (takeInline rest finalFlush).Moves rest finalFlush := by
  have hlone (emit : Text → Text) : (advance rest 2 emit .inLine).Moves rest finalFlush :=
    advance_moves hleads.cutAt (by decide) Mode.ascii_inLine emit finalFlush
  rw [takeInline]
  cases hclose : findInlineClose finalFlush 0 ((encodeUtf8 rest).drop 2) with
  | found close len =>
    obtain ⟨hbefore, hbehind⟩ := (foundAt_of_findInlineClose hclose).cuts hleads.le
    obtain ⟨raw, hraw⟩ := exists_getBytes (Nat.le_add_right 2 close) hleads.cutAt hbefore
    obtain rfl : len = 2 := findInlineClose_len hclose
    dsimp only
    rw [hraw]
    dsimp only
    split
    · exact hlone _
    · exact advance_moves hbehind (by omega) Mode.ascii_inLine _ _
  | unmatched => exact hlone _
  | needMore =>
    cases finalFlush with
    | false => exact rfl
    | true => exact (findInlineClose_flush _ _ hclose).elim

theorem takeDisplay_moves {len : ℕ} (finalFlush : Bool) (hleads : Leads (encodeUtf8 rest) len) :
    (takeDisplay rest len finalFlush).Moves rest finalFlush := by
  rw [takeDisplay]
  cases hclose : findDisplayClose finalFlush 0 ((encodeUtf8 rest).drop len) with
  | found close closeLen =>
    obtain ⟨hbefore, hbehind⟩ := (foundAt_of_findDisplayClose hclose).cuts hleads.le
    obtain ⟨interior, hinterior⟩ :=
      exists_getBytes (Nat.le_add_right len close) hleads.cutAt hbefore
    have hpos := hleads.pos
    dsimp only
    rw [hinterior]
    exact advance_moves hbehind (by omega) Mode.ascii_inLine _ _
  | unmatched => exact advance_moves hleads.cutAt hleads.pos Mode.ascii_inLine _ _
  | needMore =>
    cases finalFlush with
    | false => exact rfl
    | true => exact (findDisplayClose_flush _ _ hclose).elim

theorem ascii_of_not_isOrdinary (b : UInt8) (h : isOrdinary b = false) : b < 128 := by
  rw [isOrdinary, Bool.not_eq_false', Bool.or_eq_true, Bool.or_eq_true, Bool.or_eq_true,
    beq_iff_eq, beq_iff_eq, beq_iff_eq, beq_iff_eq] at h
  rcases h with ((rfl | rfl) | rfl) | rfl <;> decide

theorem isOrdinary_iff {b : UInt8} :
    isOrdinary b = true ↔ b ≠ '\n'.toUInt8 ∧ b ≠ '`'.toUInt8 ∧ b ≠ '\\'.toUInt8 ∧
      b ≠ '$'.toUInt8 := by
  rw [isOrdinary, Bool.not_eq_true', Bool.or_eq_false_iff, Bool.or_eq_false_iff,
    Bool.or_eq_false_iff, beq_eq_false_iff_ne, beq_eq_false_iff_ne, beq_eq_false_iff_ne,
    beq_eq_false_iff_ne, and_assoc, and_assoc]

theorem turnNormal_moves (finalFlush : Bool) (hne : rest ≠ []) :
    (turnNormal rest finalFlush).Moves rest finalFlush := by
  rw [turnNormal]
  cases hbytes : encodeUtf8 rest with
  | nil => exact (hne (encodeUtf8_eq_nil_iff.mp hbytes)).elim
  | cons b bytes =>
    have hone (hb : b < 128) : Leads (encodeUtf8 rest) 1 := by
      rw [hbytes]
      exact Leads.one hb bytes
    dsimp only
    by_cases hnewline : b = '\n'.toUInt8
    · rw [if_pos hnewline]
      have hleads := hone (by rw [hnewline]; decide)
      exact advance_moves hleads.cutAt hleads.pos (Mode.ascii_normal true) _ _
    rw [if_neg hnewline]
    by_cases htick : b = '`'.toUInt8
    · rw [if_pos htick]
      split
      · rename_i hend
        exact hend.2
      · have hleads : Leads (encodeUtf8 rest) (countRun (b :: bytes) b) := by
          rw [hbytes]
          refine ⟨?_, countRun_le _ _, ?_⟩
          · rw [countRun_cons_self]
            exact Nat.succ_pos _
          · intro c hc
            rw [mem_take_countRun _ _ hc, htick]
            decide
        exact advance_moves hleads.cutAt hleads.pos (Mode.ascii_inlineCode _ _) _ _
    rw [if_neg htick]
    by_cases hbackslash : b = '\\'.toUInt8
    · rw [if_pos hbackslash]
      have hfits := classifyBackslash_fits (b :: bytes) finalFlush (by rw [hbackslash]; rfl)
      rw [← hbytes] at hfits ⊢
      cases hhow : classifyBackslash (encodeUtf8 rest) finalFlush with
      | needMore =>
        rw [hhow] at hfits
        exact hfits
      | inlineOpen =>
        rw [hhow] at hfits
        exact takeInline_moves finalFlush hfits
      | displayOpen len =>
        rw [hhow] at hfits
        exact takeDisplay_moves finalFlush hfits
      | convert | literal =>
        rw [hhow] at hfits
        exact advance_moves hfits.cutAt hfits.pos Mode.ascii_inLine _ _
    rw [if_neg hbackslash]
    by_cases hdollar : b = '$'.toUInt8
    · rw [if_pos hdollar]
      split
      · rename_i hend
        exact hend.2.2
      · split
        · rename_i hrun
          apply takeDisplay_moves
          rw [hbytes]
          refine ⟨by decide, Nat.le_trans hrun (countRun_le _ _), ?_⟩
          intro c hc
          rw [mem_take_countRun _ _ (List.take_subset_take_left _ hrun hc), hdollar]
          decide
        · have hleads := hone (by rw [hdollar]; decide)
          exact advance_moves hleads.cutAt hleads.pos Mode.ascii_inLine _ _
    rw [if_neg hdollar, ← hbytes]
    refine advance_moves (cutAt_takeWhile ascii_of_not_isOrdinary _) ?_ Mode.ascii_inLine _ _
    rw [hbytes, List.takeWhile_cons,
      if_pos (isOrdinary_iff.mpr ⟨hnewline, htick, hbackslash, hdollar⟩)]
    exact Nat.succ_pos _

theorem turnInlineCode_moves (run : ℕ) (atLineStart finalFlush : Bool) (hne : rest ≠ []) :
    (turnInlineCode rest ⟨.inlineCode run, atLineStart⟩ run finalFlush).Moves rest finalFlush := by
  have hfits := scanInlineCode_fits run finalFlush (encodeUtf8 rest)
  rw [turnInlineCode]
  cases hscan : scanInlineCode run finalFlush (encodeUtf8 rest) with
  | mk n how =>
    rw [hscan] at hfits
    have hcut := hfits.cutAt
    cases how with
    | newline =>
      obtain ⟨ws, xs, ys, -, hlen, hxs, -⟩ := hfits
      have hpos := List.length_pos_iff.mpr hxs
      exact advance_moves hcut (by dsimp only at hlen ⊢; omega) (Mode.ascii_normal true) _ _
    | closed =>
      obtain ⟨ws, xs, ys, -, hlen, hxs, -⟩ := hfits
      have hpos := List.length_pos_iff.mpr hxs
      exact advance_moves hcut (by dsimp only at hlen ⊢; omega) Mode.ascii_inLine _ _
    | unended =>
      obtain rfl : n = (encodeUtf8 rest).length := hfits
      refine advance_moves hcut ?_ (Mode.ascii_inlineCode run atLineStart) _ _
      rw [length_encodeUtf8]
      exact byteLen_pos hne
    | held =>
      obtain ⟨u, v, hsplit⟩ := exists_splitBytes hcut
      dsimp only at hsplit ⊢
      rw [hsplit]
      exact hfits.1

theorem turnFencedLine_moves {ch : UInt8} (hch : ch < 128) (len : ℕ) (finalFlush : Bool)
    (hne : rest ≠ []) : (turnFencedLine rest ch len).Moves rest finalFlush := by
  rw [turnFencedLine]
  split
  · rename_i hline
    obtain ⟨b, ys, hbytes, hb⟩ := exists_behind_takeWhile hline
    have hnewline : b = '\n'.toUInt8 := bne_eq_false_iff_eq.mp hb
    refine advance_moves ?_ (Nat.succ_pos _) (Mode.ascii_fenced hch len true) _ _
    have hcut := cutAt_behind (List.cons_ne_nil b []) (ascii_singleton (by rw [hnewline]; decide))
      ((encodeUtf8 rest).takeWhile (· != '\n'.toUInt8)) ys
    rw [List.append_assoc, List.cons_append, List.nil_append, ← hbytes] at hcut
    exact hcut
  · rename_i hline
    have hle := (List.takeWhile_prefix (l := encodeUtf8 rest) (· != '\n'.toUInt8)).length_le
    have heq := Nat.le_antisymm hle (Nat.not_lt.mp hline)
    rw [heq]
    refine advance_moves (cutAt_length _) ?_ (Mode.ascii_fenced hch len false) _ _
    rw [length_encodeUtf8]
    exact byteLen_pos hne

/-- A turn cuts no character, and goes on where no more text may come. -/
theorem turn_moves (finalFlush : Bool) (hmode : mode.Ascii) (hne : rest ≠ []) :
    (turn rest mode finalFlush).Moves rest finalFlush := by
  obtain ⟨state, atLineStart⟩ := mode
  rw [turn]
  cases state with
  | normal =>
    dsimp only
    split
    · have hfits := scanFenceOpen_fits (encodeUtf8 rest) finalFlush
      cases hfence : scanFenceOpen (encodeUtf8 rest) finalFlush with
      | needMore =>
        rw [hfence] at hfits
        exact hfits
      | found ch len stop =>
        rw [hfence] at hfits
        obtain ⟨hch, hleads⟩ := hfits
        exact advance_moves hleads.cutAt hleads.pos (Mode.ascii_fenced hch len false) _ _
      | no => exact turnNormal_moves finalFlush hne
    · exact turnNormal_moves finalFlush hne
  | inlineCode run => exact turnInlineCode_moves run atLineStart finalFlush hne
  | fenced ch len =>
    have hch : ch < 128 := hmode ch len rfl
    dsimp only
    split
    · have hfits := scanFenceClose_fits (encodeUtf8 rest) hch len finalFlush
      cases hfence : scanFenceClose (encodeUtf8 rest) ch len finalFlush with
      | needMore =>
        rw [hfence] at hfits
        exact hfits
      | found ch len stop =>
        rw [hfence] at hfits
        exact advance_moves hfits.2.cutAt hfits.2.pos Mode.ascii_inLine _ _
      | no => exact turnFencedLine_moves hch len finalFlush hne
    · exact turnFencedLine_moves hch len finalFlush hne

end Advance

/-! ### The same turn where more text follows -/

/-- A turn that does not stop the loop. -/
def Turn.GoesOn : Turn → Prop
  | .stop _ _ => False
  | _ => True

/-- A turn with more text behind takes what a turn takes without it, or takes that and goes on as
the next turn would. -/
def Turn.Follows (rest ext : Text) (mode : Mode) (finalFlush : Bool) (longer : Turn) : Turn → Prop
  | .misaligned => True
  | .stop out held =>
    (out = [] ∧ held = rest) ∨
      held ≠ [] ∧ longer = (turn (held ++ ext) mode finalFlush).emitBefore out
  | .go out rest' mode' =>
    longer = .go out (rest' ++ ext) mode' ∨
      longer = (turn (rest' ++ ext) mode' finalFlush).emitBefore out ∧
        (mode' = mode ∨ (turn (rest' ++ ext) mode' finalFlush).GoesOn) ∧
        (rest' ++ ext = [] → turn [] mode' finalFlush = .go [] [] mode')

section Follows

variable {rest : Text} {mode mode' : Mode} {n : ℕ} {emit : Text → Text}

theorem advance_follows (ext : Text) (finalFlush : Bool) :
    (advance (rest ++ ext) n emit mode').Follows rest ext mode finalFlush
      (advance rest n emit mode') := by
  rw [advance, advance]
  cases hsplit : splitBytes n rest with
  | none => exact True.intro
  | some parts =>
    obtain ⟨taken, rest'⟩ := parts
    left
    rw [splitBytes_append_right hsplit]

theorem advance_goesOn (rest : Text) (n : ℕ) (emit : Text → Text) (mode : Mode) :
    (advance rest n emit mode).GoesOn := by
  rw [advance]
  cases splitBytes n rest <;> exact True.intro

theorem turnFencedLine_goesOn (rest : Text) (ch : UInt8) (len : ℕ) :
    (turnFencedLine rest ch len).GoesOn := by
  rw [turnFencedLine]
  split
  · exact advance_goesOn _ _ _ _
  · exact advance_goesOn _ _ _ _

theorem advance_append_left (u t : Text) (n : ℕ) (mode : Mode) :
    advance (u ++ t) (byteLen u + n) id mode = (advance t n id mode).emitBefore u := by
  rw [advance, advance, splitBytes_append_left]
  cases splitBytes n t <;> rfl

theorem advance_all (u : Text) (mode : Mode) : advance u (byteLen u) id mode = .go u [] mode := by
  have hsplit := splitBytes_append u []
  rw [List.append_nil] at hsplit
  rw [advance, hsplit]
  rfl

theorem takeInline_follows (hle : 2 ≤ (encodeUtf8 rest).length) (ext : Text) (finalFlush : Bool) :
    (takeInline (rest ++ ext) finalFlush).Follows rest ext mode finalFlush
      (takeInline rest false) := by
  have hdrop : (encodeUtf8 (rest ++ ext)).drop 2 = (encodeUtf8 rest).drop 2 ++ encodeUtf8 ext := by
    rw [encodeUtf8_append, List.drop_append_of_le_length hle]
  rw [takeInline, takeInline, hdrop]
  cases hclose : findInlineClose false 0 ((encodeUtf8 rest).drop 2) with
  | needMore => exact Or.inl ⟨rfl, rfl⟩
  | unmatched =>
    rw [findInlineClose_append (by rw [hclose]; nofun), hclose]
    exact advance_follows ext finalFlush
  | found close len =>
    rw [findInlineClose_append (by rw [hclose]; nofun), hclose]
    dsimp only
    cases hraw : getBytes rest 2 (2 + close) with
    | none => exact True.intro
    | some raw =>
      rw [getBytes_append_right hraw]
      dsimp only
      split
      · exact advance_follows ext finalFlush
      · exact advance_follows ext finalFlush

theorem takeDisplay_follows {len : ℕ} (hle : len ≤ (encodeUtf8 rest).length) (ext : Text)
    (finalFlush : Bool) :
    (takeDisplay (rest ++ ext) len finalFlush).Follows rest ext mode finalFlush
      (takeDisplay rest len false) := by
  have hdrop : (encodeUtf8 (rest ++ ext)).drop len =
      (encodeUtf8 rest).drop len ++ encodeUtf8 ext := by
    rw [encodeUtf8_append, List.drop_append_of_le_length hle]
  rw [takeDisplay, takeDisplay, hdrop]
  cases hclose : findDisplayClose false 0 ((encodeUtf8 rest).drop len) with
  | needMore => exact Or.inl ⟨rfl, rfl⟩
  | unmatched =>
    rw [findDisplayClose_append (by rw [hclose]; nofun), hclose]
    exact advance_follows ext finalFlush
  | found close closeLen =>
    rw [findDisplayClose_append (by rw [hclose]; nofun), hclose]
    dsimp only
    cases hinterior : getBytes rest len (len + close) with
    | none => exact True.intro
    | some interior =>
      rw [getBytes_append_right hinterior]
      exact advance_follows ext finalFlush

theorem turnNormal_newline (hhead : (encodeUtf8 rest).head? = some '\n'.toUInt8)
    (finalFlush : Bool) :
    turnNormal rest finalFlush = advance rest 1 (fun _ => ['\n']) ⟨.normal, true⟩ := by
  obtain ⟨bytes, hbytes⟩ := List.head?_eq_some_iff.mp hhead
  rw [turnNormal, hbytes]
  dsimp only
  rw [if_pos rfl]

theorem turnNormal_tick (hhead : (encodeUtf8 rest).head? = some '`'.toUInt8) (finalFlush : Bool) :
    turnNormal rest finalFlush =
      if countRun (encodeUtf8 rest) '`'.toUInt8 = (encodeUtf8 rest).length ∧ finalFlush = false then
        .stop [] rest
      else
        advance rest (countRun (encodeUtf8 rest) '`'.toUInt8) id
          ⟨.inlineCode (countRun (encodeUtf8 rest) '`'.toUInt8), false⟩ := by
  obtain ⟨bytes, hbytes⟩ := List.head?_eq_some_iff.mp hhead
  rw [turnNormal, hbytes]
  dsimp only
  rw [if_neg (by decide), if_pos rfl]

theorem turnNormal_backslash (hhead : (encodeUtf8 rest).head? = some '\\'.toUInt8)
    (finalFlush : Bool) :
    turnNormal rest finalFlush =
      match classifyBackslash (encodeUtf8 rest) finalFlush with
      | .needMore => .stop [] rest
      | .inlineOpen => takeInline rest finalFlush
      | .displayOpen len => takeDisplay rest len finalFlush
      | .convert dollars len => advance rest len (fun _ => dollars) .inLine
      | .literal len => advance rest len id .inLine := by
  obtain ⟨bytes, hbytes⟩ := List.head?_eq_some_iff.mp hhead
  rw [turnNormal, hbytes]
  dsimp only
  rw [if_neg (by decide), if_neg (by decide)]
  exact if_pos rfl

theorem turnNormal_dollar (hhead : (encodeUtf8 rest).head? = some '$'.toUInt8)
    (finalFlush : Bool) :
    turnNormal rest finalFlush =
      if countRun (encodeUtf8 rest) '$'.toUInt8 = 1 ∧ (encodeUtf8 rest).length = 1 ∧
          finalFlush = false then .stop [] rest
      else if 2 ≤ countRun (encodeUtf8 rest) '$'.toUInt8 then takeDisplay rest 2 finalFlush
      else advance rest 1 (fun _ => ['$']) .inLine := by
  obtain ⟨bytes, hbytes⟩ := List.head?_eq_some_iff.mp hhead
  rw [turnNormal, hbytes]
  dsimp only
  rw [if_neg (by decide), if_neg (by decide), if_neg (by decide), if_pos rfl]

theorem turnNormal_ordinary {b : UInt8} (hhead : (encodeUtf8 rest).head? = some b)
    (hb : isOrdinary b = true) (finalFlush : Bool) :
    turnNormal rest finalFlush =
      advance rest ((encodeUtf8 rest).takeWhile isOrdinary).length id .inLine := by
  obtain ⟨bytes, hbytes⟩ := List.head?_eq_some_iff.mp hhead
  obtain ⟨hnewline, htick, hbackslash, hdollar⟩ := isOrdinary_iff.mp hb
  rw [turnNormal, hbytes]
  dsimp only
  rw [if_neg hnewline, if_neg htick, if_neg hbackslash, if_neg hdollar]

theorem ordinary_follows (ext : Text) (finalFlush : Bool) :
    (advance (rest ++ ext) ((encodeUtf8 (rest ++ ext)).takeWhile isOrdinary).length id
        .inLine).Follows rest ext mode finalFlush
      (advance rest ((encodeUtf8 rest).takeWhile isOrdinary).length id .inLine) := by
  rw [encodeUtf8_append, List.takeWhile_append]
  by_cases hall : ((encodeUtf8 rest).takeWhile isOrdinary).length = (encodeUtf8 rest).length
  · rw [if_pos hall, hall, List.length_append, length_encodeUtf8, advance_append_left, advance_all]
    have hlast (hnone : (encodeUtf8 ext).takeWhile isOrdinary = []) :
        (advance ext ((encodeUtf8 ext).takeWhile isOrdinary).length id .inLine).emitBefore rest =
          .go rest ext .inLine := by
      have hzero : advance ext 0 id .inLine = .go [] ext .inLine := by
        rw [advance]
        cases ext <;> rfl
      rw [hnone, List.length_nil, hzero]
      exact congrArg (Turn.go · ext .inLine) (List.append_nil rest)
    cases hbytes : encodeUtf8 ext with
    | nil =>
      left
      rw [hbytes] at hlast
      exact hlast rfl
    | cons c bytes =>
      rw [← hbytes]
      by_cases hc : isOrdinary c = true
      · right
        have hturn := turnNormal_ordinary (by rw [hbytes]; rfl) hc finalFlush
        have hnext : turn ([] ++ ext) .inLine finalFlush = turnNormal ext finalFlush := rfl
        refine ⟨?_, Or.inr ?_, ?_⟩
        · rw [hnext, hturn]
        · rw [hnext, hturn]
          exact advance_goesOn _ _ _ _
        · intro hnil
          rw [List.nil_append] at hnil
          rw [hnil] at hbytes
          cases hbytes
      · left
        apply hlast
        rw [hbytes, List.takeWhile_cons, if_neg hc]
  · rw [if_neg hall]
    exact advance_follows ext finalFlush

theorem turnNormal_follows (hne : rest ≠ []) (ext : Text) (finalFlush : Bool) :
    (turnNormal (rest ++ ext) finalFlush).Follows rest ext mode finalFlush
      (turnNormal rest false) := by
  obtain ⟨b, hhead⟩ : ∃ b, (encodeUtf8 rest).head? = some b := by
    cases hbytes : encodeUtf8 rest with
    | nil => exact (hne (encodeUtf8_eq_nil_iff.mp hbytes)).elim
    | cons b bytes => exact ⟨b, rfl⟩
  have hhead' : (encodeUtf8 (rest ++ ext)).head? = some b := by
    rw [encodeUtf8_append, List.head?_append, hhead]
    rfl
  by_cases hordinary : isOrdinary b = true
  · rw [turnNormal_ordinary hhead hordinary, turnNormal_ordinary hhead' hordinary]
    exact ordinary_follows ext finalFlush
  by_cases hnewline : b = '\n'.toUInt8
  · rw [hnewline] at hhead hhead'
    rw [turnNormal_newline hhead, turnNormal_newline hhead']
    exact advance_follows ext finalFlush
  by_cases htick : b = '`'.toUInt8
  · rw [htick] at hhead hhead'
    rw [turnNormal_tick hhead, turnNormal_tick hhead', encodeUtf8_append]
    by_cases hend : countRun (encodeUtf8 rest) '`'.toUInt8 = (encodeUtf8 rest).length
    · rw [if_pos (c := countRun _ _ = (encodeUtf8 rest).length ∧ false = false) ⟨hend, rfl⟩]
      exact Or.inl ⟨rfl, rfl⟩
    · have hle := countRun_le (encodeUtf8 rest) '`'.toUInt8
      have hlonger : ¬ (countRun (encodeUtf8 rest) '`'.toUInt8 =
          (encodeUtf8 rest ++ encodeUtf8 ext).length ∧ finalFlush = false) := by
        rw [List.length_append]
        omega
      rw [countRun_append hend, if_neg hlonger, if_neg (fun h => hend h.1)]
      exact advance_follows ext finalFlush
  by_cases hbackslash : b = '\\'.toUInt8
  · rw [hbackslash] at hhead hhead'
    have hfits := classifyBackslash_fits _ false hhead
    rw [turnNormal_backslash hhead, turnNormal_backslash hhead', encodeUtf8_append]
    cases hhow : classifyBackslash (encodeUtf8 rest) false with
    | needMore => exact Or.inl ⟨rfl, rfl⟩
    | inlineOpen =>
      rw [hhow] at hfits
      rw [classifyBackslash_append (by rw [hhow]; nofun), hhow]
      exact takeInline_follows hfits.le ext finalFlush
    | displayOpen len =>
      rw [hhow] at hfits
      rw [classifyBackslash_append (by rw [hhow]; nofun), hhow]
      exact takeDisplay_follows hfits.le ext finalFlush
    | convert | literal =>
      rw [classifyBackslash_append (by rw [hhow]; nofun), hhow]
      exact advance_follows ext finalFlush
  have hdollar : b = '$'.toUInt8 := by
    by_contra hdollar
    exact hordinary (isOrdinary_iff.mpr ⟨hnewline, htick, hbackslash, hdollar⟩)
  rw [hdollar] at hhead hhead'
  rw [turnNormal_dollar hhead, turnNormal_dollar hhead', encodeUtf8_append]
  have hle := countRun_le (encodeUtf8 rest) '$'.toUInt8
  have hpos : 0 < countRun (encodeUtf8 rest) '$'.toUInt8 := by
    obtain ⟨bytes, hbytes⟩ := List.head?_eq_some_iff.mp hhead
    rw [hbytes, countRun_cons_self]
    exact Nat.succ_pos _
  by_cases hone : countRun (encodeUtf8 rest) '$'.toUInt8 = 1
  · by_cases hlen : (encodeUtf8 rest).length = 1
    · rw [if_pos (c := countRun (encodeUtf8 rest) _ = 1 ∧ _ ∧ false = false) ⟨hone, hlen, rfl⟩]
      exact Or.inl ⟨rfl, rfl⟩
    · have hrun : ¬ 2 ≤ countRun (encodeUtf8 rest) '$'.toUInt8 := by omega
      have hshort : ¬ (countRun (encodeUtf8 rest) '$'.toUInt8 = 1 ∧
          (encodeUtf8 rest).length = 1 ∧ false = false) := fun h => hlen h.2.1
      have hlonger : ¬ (countRun (encodeUtf8 rest) '$'.toUInt8 = 1 ∧
          (encodeUtf8 rest ++ encodeUtf8 ext).length = 1 ∧ finalFlush = false) := by
        rw [List.length_append]
        omega
      rw [countRun_append (by omega), if_neg hlonger, if_neg hshort, if_neg hrun, if_neg hrun]
      exact advance_follows ext finalFlush
  · have hrun : 2 ≤ countRun (encodeUtf8 rest) '$'.toUInt8 := by omega
    have hrun' := Nat.le_trans hrun (countRun_le_append _ _ (encodeUtf8 ext))
    have hshort : ¬ (countRun (encodeUtf8 rest) '$'.toUInt8 = 1 ∧
        (encodeUtf8 rest).length = 1 ∧ false = false) := fun h => hone h.1
    have hlonger : ¬ (countRun (encodeUtf8 rest ++ encodeUtf8 ext) '$'.toUInt8 = 1 ∧
        (encodeUtf8 rest ++ encodeUtf8 ext).length = 1 ∧ finalFlush = false) := by
      omega
    rw [if_neg hlonger, if_neg hshort, if_pos hrun, if_pos hrun']
    exact takeDisplay_follows (Nat.le_trans hrun hle) ext finalFlush

/-- A turn inside inline code, from how it was read. -/
def codeTurn (rest : Text) (mode : Mode) (read : ℕ × CodeEnd) : Turn :=
  match read.2 with
  | .newline => advance rest read.1 id ⟨.normal, true⟩
  | .closed => advance rest read.1 id .inLine
  | .unended => advance rest read.1 id mode
  | .held =>
    match splitBytes read.1 rest with
    | none => .misaligned
    | some (taken, rest) => .stop taken rest

theorem turnInlineCode_eq (rest : Text) (mode : Mode) (run : ℕ) (finalFlush : Bool) :
    turnInlineCode rest mode run finalFlush =
      codeTurn rest mode (scanInlineCode run finalFlush (encodeUtf8 rest)) := rfl

theorem codeTurn_append_left (u t : Text) (mode : Mode) (read : ℕ × CodeEnd) :
    codeTurn (u ++ t) mode (byteLen u + read.1, read.2) = (codeTurn t mode read).emitBefore u := by
  obtain ⟨n, how⟩ := read
  cases how with
  | newline | closed | unended => exact advance_append_left u t n _
  | held =>
    rw [codeTurn, codeTurn]
    dsimp only
    rw [splitBytes_append_left]
    cases splitBytes n t <;> rfl

theorem turnInlineCode_follows (run : ℕ) (atLineStart : Bool) (ext : Text) (finalFlush : Bool) :
    (turnInlineCode (rest ++ ext) ⟨.inlineCode run, atLineStart⟩ run finalFlush).Follows rest ext
      ⟨.inlineCode run, atLineStart⟩ finalFlush
      (turnInlineCode rest ⟨.inlineCode run, atLineStart⟩ run false) := by
  have happend := scanInlineCode_append run (encodeUtf8 rest) (encodeUtf8 ext) finalFlush
  have hfits := scanInlineCode_fits run false (encodeUtf8 rest)
  rw [turnInlineCode_eq, turnInlineCode_eq, encodeUtf8_append, happend]
  cases hscan : scanInlineCode run false (encodeUtf8 rest) with
  | mk n how =>
    rw [hscan] at hfits
    cases how with
    | newline | closed => exact advance_follows ext finalFlush
    | unended =>
      obtain rfl : n = (encodeUtf8 rest).length := hfits
      have hall : codeTurn rest ⟨.inlineCode run, atLineStart⟩
          ((encodeUtf8 rest).length, .unended) = .go rest [] ⟨.inlineCode run, atLineStart⟩ := by
        rw [length_encodeUtf8]
        exact advance_all rest _
      have hnil : turn [] ⟨.inlineCode run, atLineStart⟩ finalFlush =
          .go [] [] ⟨.inlineCode run, atLineStart⟩ := by
        change turnInlineCode _ _ _ _ = _
        rw [turnInlineCode_eq, encodeUtf8_nil, scanInlineCode_nil]
        rfl
      rw [hall]
      right
      refine ⟨?_, Or.inl rfl, fun _ => hnil⟩
      dsimp only
      rw [List.drop_length, List.nil_append, List.nil_append, length_encodeUtf8]
      exact codeTurn_append_left rest ext _ _
    | held =>
      obtain ⟨-, ws, b, ys, hbytes, hlen, -⟩ := hfits
      dsimp only at hlen ⊢
      rw [codeTurn.eq_def rest]
      dsimp only
      cases hsplit : splitBytes n rest with
      | none => exact True.intro
      | some parts =>
        obtain ⟨taken, held⟩ := parts
        obtain ⟨rfl, rfl⟩ := splitBytes_eq_some_iff.mp hsplit
        have hdrop : (encodeUtf8 (taken ++ held)).drop (byteLen taken) = encodeUtf8 held := by
          rw [encodeUtf8_append, ← length_encodeUtf8, List.drop_left]
        right
        constructor
        · intro hnil
          have htotal := congrArg List.length hbytes
          rw [hnil, List.append_nil, length_encodeUtf8, List.length_append, List.length_cons] at htotal
          omega
        · rw [hdrop, ← encodeUtf8_append, List.append_assoc]
          exact codeTurn_append_left taken (held ++ ext) _ _

theorem turnFencedLine_follows (ch : UInt8) (len : ℕ) (ext : Text) (finalFlush : Bool) :
    (turnFencedLine (rest ++ ext) ch len).Follows rest ext mode finalFlush
      (turnFencedLine rest ch len) := by
  have hle := (List.takeWhile_prefix (l := encodeUtf8 rest) (· != '\n'.toUInt8)).length_le
  rw [turnFencedLine, turnFencedLine, encodeUtf8_append, List.takeWhile_append]
  by_cases hline : ((encodeUtf8 rest).takeWhile (· != '\n'.toUInt8)).length =
      (encodeUtf8 rest).length
  · rw [if_pos hline, hline, if_neg (Nat.lt_irrefl _), length_encodeUtf8, advance_all]
    have hnext : turn ext ⟨.fenced ch len, false⟩ finalFlush = turnFencedLine ext ch len := rfl
    right
    rw [List.nil_append, hnext]
    refine ⟨?_, Or.inr (turnFencedLine_goesOn ext ch len), fun _ => rfl⟩
    rw [ turnFencedLine, List.length_append, List.length_append,
      length_encodeUtf8]
    by_cases hend : ((encodeUtf8 ext).takeWhile (· != '\n'.toUInt8)).length <
        (encodeUtf8 ext).length
    · rw [if_pos hend, if_pos (Nat.add_lt_add_left hend _), Nat.add_assoc]
      exact advance_append_left rest ext _ _
    · rw [if_neg hend, if_neg (fun h => hend (Nat.lt_of_add_lt_add_left h))]
      exact advance_append_left rest ext _ _
  · have hlt := Nat.lt_of_le_of_ne hle hline
    have hlt' : ((encodeUtf8 rest).takeWhile (· != '\n'.toUInt8)).length <
        (encodeUtf8 rest ++ encodeUtf8 ext).length := by
      rw [List.length_append]
      omega
    rw [if_neg hline, if_pos hlt, if_pos hlt']
    exact advance_follows ext finalFlush

/-- A turn takes the same where more text follows, or the start of what it takes there. -/
theorem turn_follows (mode : Mode) (hne : rest ≠ []) (ext : Text) (finalFlush : Bool) :
    (turn (rest ++ ext) mode finalFlush).Follows rest ext mode finalFlush
      (turn rest mode false) := by
  obtain ⟨state, atLineStart⟩ := mode
  rw [turn, turn]
  cases state with
  | normal =>
    dsimp only
    cases atLineStart with
    | false => exact turnNormal_follows hne ext finalFlush
    | true =>
      rw [if_pos rfl, if_pos rfl, encodeUtf8_append]
      cases hfence : scanFenceOpen (encodeUtf8 rest) false with
      | needMore => exact Or.inl ⟨rfl, rfl⟩
      | found ch len stop =>
        rw [scanFenceOpen_append (by rw [hfence]; nofun), hfence]
        exact advance_follows ext finalFlush
      | no =>
        rw [scanFenceOpen_append (by rw [hfence]; nofun), hfence]
        exact turnNormal_follows hne ext finalFlush
  | inlineCode run => exact turnInlineCode_follows run atLineStart ext finalFlush
  | fenced ch len =>
    dsimp only
    cases atLineStart with
    | false => exact turnFencedLine_follows ch len ext finalFlush
    | true =>
      rw [if_pos rfl, if_pos rfl, encodeUtf8_append]
      cases hfence : scanFenceClose (encodeUtf8 rest) ch len false with
      | needMore => exact Or.inl ⟨rfl, rfl⟩
      | found ch' len' stop =>
        rw [scanFenceClose_append (by rw [hfence]; nofun), hfence]
        exact advance_follows ext finalFlush
      | no =>
        rw [scanFenceClose_append (by rw [hfence]; nofun), hfence]
        exact turnFencedLine_follows ch len ext finalFlush

end Follows

end Ezer.Markdown
