import Ezer.Markdown.Chunks

/-!
# What a formula without a close holds back

A held back formula is searched for its close up to a cap. Only the blanks at the
start of a line are read ahead without one, so that a formula is held back for long
where its last line is blank as far as it goes.
-/

namespace Ezer.Markdown

open Lib

/-- The openers of an inline formula. -/
def inlineOpener : List UInt8 := encodeUtf8 ['\\', '(']

/-- The openers of a displayed formula. -/
def displayOpeners : List (List UInt8) :=
  [encodeUtf8 ['\\', '['], encodeUtf8 ['$', '$'], envBegin, envBeginStarred]

/-- A text ends in a displayed formula whose last line begins within the cap and is blank as far as
it goes, beyond the cap and the longest token. -/
def EndsInBlankLine (t : Text) : Prop :=
  ∃ front, ∃ opener ∈ displayOpeners, ∃ body blanks,
    encodeUtf8 t = front ++ (opener ++ (body ++ '\n'.toUInt8 :: blanks)) ∧
      body.length ≤ maxMathSourceLen ∧ blanks.all isBlank = true ∧
      maxMathSourceLen + envBeginStarred.length < (body ++ '\n'.toUInt8 :: blanks).length

section Scans

variable {bytes : List UInt8} {k : ℕ}

theorem le_of_findInlineClose (h : findInlineClose false k bytes = .needMore)
    (hk : k ≤ maxMathSourceLen + 2) : k + bytes.length ≤ maxMathSourceLen + 2 := by
  fun_induction findInlineClose false k bytes with
  | case1 k => exact hk
  | case2 => cases h
  | case3 k hnear =>
    rw [List.length_singleton]
    omega
  | case4 => cases h
  | case5 k hnear b tail hb ih =>
    have hle := ih h (by omega)
    rw [List.length_cons, List.length_cons]
    omega
  | case6 k b tail hnear hb ih =>
    have hle := ih h (by omega)
    rw [List.length_cons]
    omega

theorem length_lt_of_couldExtend {tokens : List (List UInt8)} {found : Option ℕ} {n : ℕ}
    (h : matchTokens tokens bytes = (found, true)) (hn : ∀ token ∈ tokens, token.length ≤ n) :
    bytes.length < n := by
  have hany := congrArg Prod.snd h
  obtain ⟨token, htoken, hlt⟩ := List.any_eq_true.mp hany
  rw [Bool.and_eq_true, decide_eq_true_eq] at hlt
  exact hlt.1.trans_le (hn token htoken)

/-- A search from a distance on stays within the cap and the longest token, but for blanks behind a
line break within the cap. -/
def WithinCap (k : ℕ) (bytes : List UInt8) : Prop :=
  k + bytes.length ≤ maxMathSourceLen + envBeginStarred.length ∨
    ∃ body blanks, bytes = body ++ '\n'.toUInt8 :: blanks ∧ k + body.length ≤ maxMathSourceLen ∧
      blanks.all isBlank = true

theorem WithinCap.append (front : List UInt8) (h : WithinCap (k + front.length) bytes) :
    WithinCap k (front ++ bytes) := by
  rcases h with hle | ⟨body, blanks, rfl, hle, hblanks⟩
  · left
    rw [List.length_append]
    omega
  · right
    refine ⟨front ++ body, blanks, (List.append_assoc _ _ _).symm, ?_, hblanks⟩
    rw [List.length_append]
    omega

theorem withinCap_of_findDisplayClose (h : findDisplayClose false k bytes = .needMore)
    (hk : k ≤ maxMathSourceLen + 2) : WithinCap k bytes := by
  have hlen : envBeginStarred.length = 17 := by decide
  fun_induction findDisplayClose false k bytes with
  | case1 k => exact .inl (by rw [List.length_nil]; omega)
  | case2 | case4 | case5 | case9 | case13 => cases h
  | case3 k hnear => exact .inl (by rw [List.length_singleton]; omega)
  | case6 k hnear tail couldExtend hmore hne hmatch =>
    obtain rfl : couldExtend = true := by simpa using hmore
    have hlt := length_lt_of_couldExtend (n := 17) hmatch (by decide)
    left
    omega
  | case7 k hnear tail couldExtend hless hne hmatch ih =>
    exact WithinCap.append ['\\'.toUInt8, 'e'.toUInt8] (ih h (by omega))
  | case8 k hnear b tail hclose hend ih => exact WithinCap.append ['\\'.toUInt8, b] (ih h (by omega))
  | case10 k tail hnear hmore hne hrun =>
    have hnil : tail = [] := by simpa using hmore
    left
    rw [hnil, List.length_singleton]
    omega
  | case11 k tail hnear hless hne hrun ih => exact WithinCap.append ['$'.toUInt8] (ih h (by omega))
  | case12 k tail hnear hblank hne hne' =>
    right
    refine ⟨[], tail, rfl, Nat.le_of_not_lt hnear, ?_⟩
    rw [List.all_eq_true]
    exact List.dropWhile_eq_nil_iff.mp hblank
  | case14 k tail hnear b rest hblank hstop hne hne' ih =>
    exact WithinCap.append ['\n'.toUInt8] (ih h (by omega))
  | case15 k b tail hnear hbackslash hdollar hnewline ih =>
    exact WithinCap.append [b] (ih h (by omega))

theorem head?_of_scanInlineCode {run n : ℕ} (h : scanInlineCode run false bytes = (n, .held)) :
    (bytes.drop n).head? = some '`'.toUInt8 := by
  induction hlen : bytes.length using Nat.strong_induction_on generalizing bytes n with
  | _ len ih =>
    cases bytes with
    | nil =>
      rw [scanInlineCode_nil] at h
      cases h
    | cons b tail =>
      by_cases hnewline : b = '\n'.toUInt8
      · rw [hnewline, scanInlineCode_newline] at h
        cases h
      by_cases htick : b = '`'.toUInt8
      · subst htick
        have hruns := countRun_cons_self tail '`'.toUInt8
        rw [scanInlineCode_ticks ('`'.toUInt8 :: tail) rfl] at h
        split at h
        · cases h
          rfl
        · split at h
          · cases h
          · obtain ⟨rfl, hhow⟩ := Prod.mk.inj h
            rw [← List.drop_drop]
            refine ih _ ?_ (Prod.ext rfl hhow) rfl
            rw [List.length_drop]
            rw [List.length_cons] at hlen ⊢
            omega
      · rw [scanInlineCode_other hnewline htick] at h
        obtain ⟨rfl, hhow⟩ := Prod.mk.inj h
        rw [Nat.add_comm, List.drop_succ_cons]
        exact ih _ (hlen ▸ Nat.lt_succ_self _) (Prod.ext rfl hhow) rfl

end Scans

section Openers

variable {rest : Text}

theorem turnNormal_of_inlineOpener (h : inlineOpener <+: encodeUtf8 rest) (finalFlush : Bool) :
    turnNormal rest finalFlush = takeInline rest finalFlush := by
  obtain ⟨tail, htail⟩ := h
  have hhead : (encodeUtf8 rest).head? = some '\\'.toUInt8 := by rw [← htail]; rfl
  rw [turnNormal_backslash hhead, ← htail]
  rfl

theorem turnNormal_of_environment {opener : List UInt8} (hat : opener[1]? = some 'b'.toUInt8)
    (hhead : opener.head? = some '\\'.toUInt8)
    (hmatch : (matchTokens envTokens opener).1 = some opener.length)
    (h : opener <+: encodeUtf8 rest) (finalFlush : Bool) :
    turnNormal rest finalFlush = takeDisplay rest opener.length finalFlush := by
  obtain ⟨tail, htail⟩ := h
  have hhead' : (encodeUtf8 rest).head? = some '\\'.toUInt8 := by
    rw [← htail, List.head?_append, hhead]
    rfl
  have hat' : (opener ++ tail)[1]? = some 'b'.toUInt8 := by
    rw [List.getElem?_append_left (List.getElem?_eq_some_iff.mp hat).1, hat]
  have hfound := matchTokens_append_found apart_envTokens hmatch tail
  rw [turnNormal_backslash hhead', ← htail, classifyBackslash, hat']
  cases hmatch' : matchTokens envTokens (opener ++ tail) with
  | mk found couldExtend =>
    rw [hmatch'] at hfound
    obtain rfl : found = some opener.length := hfound
    rfl

/-- A displayed formula is taken at each of its openers. -/
theorem turnNormal_of_displayOpener {opener : List UInt8} (hopener : opener ∈ displayOpeners)
    (h : opener <+: encodeUtf8 rest) (finalFlush : Bool) :
    turnNormal rest finalFlush = takeDisplay rest opener.length finalFlush := by
  rw [displayOpeners, List.mem_cons, List.mem_cons, List.mem_pair] at hopener
  rcases hopener with rfl | rfl | rfl | rfl
  · obtain ⟨tail, htail⟩ := h
    have hhead : (encodeUtf8 rest).head? = some '\\'.toUInt8 := by rw [← htail]; rfl
    rw [turnNormal_backslash hhead, ← htail]
    rfl
  · obtain ⟨tail, htail⟩ := h
    have hhead : (encodeUtf8 rest).head? = some '$'.toUInt8 := by rw [← htail]; rfl
    have hruns : 2 ≤ countRun (encodeUtf8 rest) '$'.toUInt8 := by
      rw [← htail]
      exact countRun_le_append (encodeUtf8 ['$', '$']) '$'.toUInt8 tail
    rw [turnNormal_dollar hhead, if_neg (by omega), if_pos hruns]
    rfl
  · exact turnNormal_of_environment rfl rfl (by decide +kernel) h finalFlush
  · exact turnNormal_of_environment rfl rfl (by decide +kernel) h finalFlush

end Openers

/-! ### Where the loop stops -/

/-- A byte that fences are made of. -/
def IsFence (ch : UInt8) : Prop := ch = '`'.toUInt8 ∨ ch = '~'.toUInt8

/-- A fence of a mode is made of the bytes for it. -/
def Mode.Ticked (mode : Mode) : Prop := ∀ ch len, mode.state = .fenced ch len → IsFence ch

theorem Mode.Ticked.ascii {mode : Mode} (h : mode.Ticked) : mode.Ascii := by
  intro ch len hstate
  rcases h ch len hstate with rfl | rfl <;> decide

theorem Mode.ticked_inLine : Mode.inLine.Ticked := nofun

/-- A text is held back at its start, or does not begin a formula. -/
def Blocked (held : Text) : Prop :=
  turnNormal held false = .stop [] held ∨
    ∀ b ∈ (encodeUtf8 held).head?, b ≠ '\\'.toUInt8 ∧ b ≠ '$'.toUInt8

/-- A turn goes on in the text. -/
def Turn.Proceeds (rest : Text) : Turn → Prop
  | .misaligned => True
  | .stop _ _ => False
  | .go _ rest' mode => rest' <:+ rest ∧ mode.Ticked

/-- A turn goes on in the text, or holds a blocked part of it back. -/
def Turn.Settles (rest : Text) : Turn → Prop
  | .stop _ held => held <:+ rest ∧ Blocked held
  | t => t.Proceeds rest

theorem Turn.Proceeds.settles {rest : Text} {t : Turn} (h : t.Proceeds rest) : t.Settles rest := by
  cases t with
  | stop => exact h.elim
  | _ => exact h

section Settles

variable {rest : Text} {mode : Mode}

theorem advance_proceeds (hmode : mode.Ticked) (rest : Text) (n : ℕ) (emit : Text → Text) :
    (advance rest n emit mode).Proceeds rest := by
  rw [advance]
  cases hsplit : splitBytes n rest with
  | none => exact True.intro
  | some parts =>
    obtain ⟨rfl, -⟩ := splitBytes_eq_some_iff.mp hsplit
    exact ⟨List.suffix_append _ _, hmode⟩

theorem advance_settles (hmode : mode.Ticked) (rest : Text) (n : ℕ) (emit : Text → Text) :
    (advance rest n emit mode).Settles rest := (advance_proceeds hmode rest n emit).settles

/-- An inline formula is taken, or its close may still come. -/
theorem takeInline_cases (rest : Text) :
    (takeInline rest false).Proceeds rest ∨
      findInlineClose false 0 ((encodeUtf8 rest).drop 2) = .needMore ∧
        takeInline rest false = .stop [] rest := by
  rw [takeInline]
  cases findInlineClose false 0 ((encodeUtf8 rest).drop 2) with
  | needMore => exact .inr ⟨rfl, rfl⟩
  | unmatched => exact .inl (advance_proceeds Mode.ticked_inLine _ _ _)
  | found close len =>
    left
    dsimp only
    split
    · exact True.intro
    · split <;> exact advance_proceeds Mode.ticked_inLine _ _ _

/-- A displayed formula is taken, or its close may still come. -/
theorem takeDisplay_cases (rest : Text) (len : ℕ) :
    (takeDisplay rest len false).Proceeds rest ∨
      findDisplayClose false 0 ((encodeUtf8 rest).drop len) = .needMore ∧
        takeDisplay rest len false = .stop [] rest := by
  rw [takeDisplay]
  cases findDisplayClose false 0 ((encodeUtf8 rest).drop len) with
  | needMore => exact .inr ⟨rfl, rfl⟩
  | unmatched => exact .inl (advance_proceeds Mode.ticked_inLine _ _ _)
  | found close closeLen =>
    left
    dsimp only
    split
    · exact True.intro
    · exact advance_proceeds Mode.ticked_inLine _ _ _

theorem turnNormal_settles (rest : Text) : (turnNormal rest false).Settles rest := by
  have hstop (h : turnNormal rest false = .stop [] rest) :
      (turnNormal rest false).Settles rest := by
    rw [h]
    exact ⟨List.suffix_rfl, .inl h⟩
  have htake {t : Turn} (hturn : turnNormal rest false = t)
      (h : t.Proceeds rest ∨ t = .stop [] rest) : (turnNormal rest false).Settles rest := by
    rcases h with h | h
    · exact hturn ▸ h.settles
    · exact hstop (hturn.trans h)
  cases hhead : (encodeUtf8 rest).head? with
  | none =>
    rw [List.head?_eq_none_iff] at hhead
    exact hstop (by rw [turnNormal, hhead])
  | some b =>
    by_cases hordinary : isOrdinary b = true
    · rw [turnNormal_ordinary hhead hordinary]
      exact advance_settles Mode.ticked_inLine _ _ _
    rw [isOrdinary, Bool.not_eq_true', Bool.not_eq_false, Bool.or_eq_true, Bool.or_eq_true,
      Bool.or_eq_true, beq_iff_eq, beq_iff_eq, beq_iff_eq, beq_iff_eq] at hordinary
    rcases hordinary with ((rfl | rfl) | rfl) | rfl
    · rw [turnNormal_newline hhead]
      exact advance_settles (fun _ _ h => by cases h) _ _ _
    · refine htake (turnNormal_tick hhead false) ?_
      split
      · exact .inr rfl
      · exact .inl (advance_proceeds (fun _ _ h => by cases h) _ _ _)
    · refine htake (turnNormal_backslash hhead false) ?_
      cases classifyBackslash (encodeUtf8 rest) false with
      | needMore => exact .inr rfl
      | inlineOpen => exact (takeInline_cases rest).imp_right And.right
      | displayOpen len => exact (takeDisplay_cases rest len).imp_right And.right
      | convert | literal => exact .inl (advance_proceeds Mode.ticked_inLine _ _ _)
    · refine htake (turnNormal_dollar hhead false) ?_
      split
      · exact .inr rfl
      · split
        · exact (takeDisplay_cases rest 2).imp_right And.right
        · exact .inl (advance_proceeds Mode.ticked_inLine _ _ _)

theorem isFence_of_scanFenceOpen {bytes : List UInt8} {ch : UInt8} {len stop : ℕ}
    (h : scanFenceOpen bytes false = .found ch len stop) : IsFence ch := by
  rw [scanFenceOpen] at h
  dsimp only at h
  split at h
  · cases h
  · split at h
    · cases h
    · split at h
      · cases h
      · rename_i hfence
        split at h
        · cases h
        · split at h
          · cases h
          · cases h
            exact or_iff_not_imp_left.mpr fun hne => not_not.mp fun hne' => hfence ⟨hne, hne'⟩

/-- A text that may begin with a fence does not begin with a formula. -/
theorem blocked_of_fence (scan : List UInt8 → FenceScan) (h : scan (encodeUtf8 rest) = .needMore)
    (hscan : ∀ b tail, b = '\\'.toUInt8 ∨ b = '$'.toUInt8 → scan (b :: tail) = .no) :
    Blocked rest := by
  right
  intro b hb
  obtain ⟨tail, htail⟩ := List.head?_eq_some_iff.mp hb
  by_contra hmath
  rw [htail, hscan b tail (by tauto)] at h
  cases h

theorem turnInlineCode_settles (run : ℕ) (atLineStart : Bool) (rest : Text) :
    (turnInlineCode rest ⟨.inlineCode run, atLineStart⟩ run false).Settles rest := by
  rw [turnInlineCode]
  cases hscan : scanInlineCode run false (encodeUtf8 rest) with
  | mk n how =>
    cases how with
    | newline => exact advance_settles (fun _ _ h => by cases h) _ _ _
    | closed => exact advance_settles Mode.ticked_inLine _ _ _
    | unended => exact advance_settles (fun _ _ h => by cases h) _ _ _
    | held =>
      dsimp only
      cases hsplit : splitBytes n rest with
      | none => exact True.intro
      | some parts =>
        obtain ⟨rfl, hlen⟩ := splitBytes_eq_some_iff.mp hsplit
        have htick := head?_of_scanInlineCode hscan
        rw [encodeUtf8_append, ← hlen, ← length_encodeUtf8, List.drop_left] at htick
        refine ⟨List.suffix_append _ _, .inr fun b hb => ?_⟩
        rw [htick] at hb
        cases hb
        decide

theorem turn_settles (hmode : mode.Ticked) (rest : Text) : (turn rest mode false).Settles rest := by
  obtain ⟨state, atLineStart⟩ := mode
  rw [turn]
  cases state with
  | normal =>
    dsimp only
    split
    · cases hfence : scanFenceOpen (encodeUtf8 rest) false with
      | needMore =>
        refine ⟨List.suffix_rfl, blocked_of_fence (scanFenceOpen · false) hfence ?_⟩
        rintro b tail (rfl | rfl) <;> rfl
      | found ch len stop =>
        exact advance_settles (by rintro _ _ ⟨⟩; exact isFence_of_scanFenceOpen hfence) _ _ _
      | no => exact turnNormal_settles rest
    · exact turnNormal_settles rest
  | inlineCode run => exact turnInlineCode_settles run atLineStart rest
  | fenced ch len =>
    have hch : IsFence ch := hmode ch len rfl
    have hline : (turnFencedLine rest ch len).Settles rest := by
      rw [turnFencedLine]
      split
      · exact advance_settles (by rintro _ _ ⟨⟩; exact hch) _ _ _
      · exact advance_settles (by rintro _ _ ⟨⟩; exact hch) _ _ _
    dsimp only
    split
    · cases hfence : scanFenceClose (encodeUtf8 rest) ch len false with
      | needMore =>
        refine ⟨List.suffix_rfl, blocked_of_fence (scanFenceClose · ch len false) hfence ?_⟩
        rcases hch with rfl | rfl <;> rintro b tail (rfl | rfl) <;> rfl
      | found ch len stop => exact advance_settles Mode.ticked_inLine _ _ _
      | no => exact hline
    · exact hline

end Settles

section Run

theorem process_settles {rest out held : Text} {mode mode' : Mode} (hmode : mode.Ticked)
    (h : process rest mode false = some (out, held, mode')) :
    held <:+ rest ∧ mode'.Ticked ∧ Blocked held := by
  induction hlen : rest.length using Nat.strong_induction_on generalizing rest mode out with
  | _ len ih =>
    by_cases hne : rest = []
    · rw [hne, process_nil] at h
      cases h
      exact ⟨List.nil_suffix, hmode, .inr nofun⟩
    · have hsettles := turn_settles hmode rest
      have hmoves := turn_moves false hmode.ascii hne
      rw [process_eq hmode.ascii hne] at h
      cases hturn : turn rest mode false with
      | misaligned =>
        rw [hturn] at h
        cases h
      | stop out' held' =>
        rw [hturn] at h hsettles
        cases h
        exact ⟨hsettles.1, hmode, hsettles.2⟩
      | go out' rest' mode'' =>
        rw [hturn] at h hsettles hmoves
        obtain ⟨⟨more, _, _⟩, hprocess, heq⟩ := Option.map_eq_some_iff.mp h
        cases heq
        obtain ⟨hheld, hmode', hblocked⟩ := ih _ (hlen ▸ hmoves.1) hsettles.2 hprocess rfl
        exact ⟨hheld.trans hsettles.1, hmode', hblocked⟩

end Run

namespace LatexDelimiterNormalizer

/-- A normalizer holds back a blocked text. -/
structure Settled (nz : LatexDelimiterNormalizer) : Prop where
  mode : nz.mode.Ticked
  pending : Blocked nz.pending

theorem pushAll_settled {chunks : List Text} {nz nz' : LatexDelimiterNormalizer} {out : Text}
    (hnz : nz.Settled) (h : nz.pushAll chunks = some (out, nz')) :
    nz'.Settled ∧ nz'.pending <:+ nz.pending ++ chunks.flatten := by
  induction chunks generalizing nz out with
  | nil =>
    cases h
    rw [List.flatten_nil, List.append_nil]
    exact ⟨hnz, List.suffix_rfl⟩
  | cons chunk chunks ih =>
    obtain ⟨⟨emitted, nz''⟩, hpush, h⟩ := Option.bind_eq_some_iff.mp h
    obtain ⟨⟨more, _⟩, hall, heq⟩ := Option.bind_eq_some_iff.mp h
    cases heq
    obtain ⟨hnz'', hheld⟩ : nz''.Settled ∧ nz''.pending <:+ nz.pending ++ chunk := by
      rw [push] at hpush
      split at hpush
      · rename_i hnil
        cases hpush
        rw [List.isEmpty_iff.mp hnil, List.append_nil]
        exact ⟨hnz, List.suffix_rfl⟩
      · obtain ⟨⟨_, held, mode⟩, hprocess, heq⟩ := Option.map_eq_some_iff.mp hpush
        cases heq
        obtain ⟨hheld, hmode, hblocked⟩ := process_settles hnz.mode hprocess
        exact ⟨⟨hmode, hblocked⟩, hheld⟩
    obtain ⟨hnz', hpending⟩ := ih hnz'' hall
    refine ⟨hnz', hpending.trans ?_⟩
    obtain ⟨front, hfront⟩ := hheld
    rw [List.flatten_cons, ← List.append_assoc, ← hfront, List.append_assoc]
    exact List.suffix_append _ _

/-- A formula whose close has not come is held back no further than the cap and the longest token
behind its opener, but for a displayed one that ends in a blank line. -/
theorem pushAll_pending_le {chunks : List Text} {nz : LatexDelimiterNormalizer} {out : Text}
    (hpush : new.pushAll chunks = some (out, nz)) (hblank : ¬ EndsInBlankLine chunks.flatten)
    {opener : List UInt8} (hopener : opener ∈ inlineOpener :: displayOpeners)
    (hstart : opener <+: encodeUtf8 nz.pending) :
    byteLen nz.pending ≤ opener.length + maxMathSourceLen + envBeginStarred.length := by
  have hlong : envBeginStarred.length = 17 := by decide
  have hnew : new.Settled := ⟨fun _ _ h => (nomatch h), .inr fun _ h => (nomatch h)⟩
  obtain ⟨⟨-, hblocked⟩, front, hfront⟩ := pushAll_settled hnew hpush
  obtain ⟨tail, htail⟩ := hstart
  have hdrop : (encodeUtf8 nz.pending).drop opener.length = tail := by rw [← htail, List.drop_left]
  have hstop : turnNormal nz.pending false = .stop [] nz.pending := by
    rcases hblocked with hstop | hhead
    · exact hstop
    · have hall : ∀ opener ∈ inlineOpener :: displayOpeners,
          opener.head? = some '\\'.toUInt8 ∨ opener.head? = some '$'.toUInt8 := by decide +kernel
      rw [← htail, List.head?_append] at hhead
      rcases hall opener hopener with hb | hb <;> rw [hb] at hhead
      · exact ((hhead _ rfl).1 rfl).elim
      · exact ((hhead _ rfl).2 rfl).elim
  rw [← length_encodeUtf8, ← htail, List.length_append]
  rcases List.mem_cons.mp hopener with rfl | hdisplay
  · rw [turnNormal_of_inlineOpener ⟨tail, htail⟩] at hstop
    rcases takeInline_cases nz.pending with hgo | ⟨hmore, -⟩
    · rw [hstop] at hgo
      exact hgo.elim
    · have hle := le_of_findInlineClose (hdrop ▸ hmore) (Nat.zero_le _)
      omega
  · rw [turnNormal_of_displayOpener hdisplay ⟨tail, htail⟩] at hstop
    have hmore : findDisplayClose false 0 tail = .needMore := by
      rcases takeDisplay_cases nz.pending opener.length with hgo | ⟨hmore, -⟩
      · rw [hstop] at hgo
        exact hgo.elim
      · exact hdrop ▸ hmore
    rcases withinCap_of_findDisplayClose hmore (Nat.zero_le _) with hle | ⟨body, blanks, rfl, hle, hall⟩
    · omega
    · by_contra hlong'
      refine hblank ⟨encodeUtf8 front, opener, hdisplay, body, blanks, ?_, by omega, hall, by omega⟩
      have htext : front ++ nz.pending = chunks.flatten := hfront
      rw [← htext, encodeUtf8_append, htail]

/-- An opener at the end of the text is held back. -/
theorem pushAll_dollars :
    new.pushAll [['$', '$']] = some ([], ⟨new.mode, ['$', '$']⟩) ∧
      byteLen ['$', '$'] ≤ 2 + maxMathSourceLen + envBeginStarred.length := by
  have hpush : new.pushAll [['$', '$']] = some ([], ⟨new.mode, ['$', '$']⟩) := by decide +kernel
  refine ⟨hpush, pushAll_pending_le hpush ?_ (by decide) List.prefix_rfl⟩
  rintro ⟨front, opener, -, body, blanks, htext, -, -, hlong⟩
  have hlen := congrArg List.length htext
  rw [List.length_append, List.length_append] at hlen
  have htwo : (encodeUtf8 [['$', '$']].flatten).length = 2 := rfl
  rw [maxMathSourceLen] at hlong
  omega

theorem encodeUtf8_blanks (n : ℕ) :
    encodeUtf8 (List.replicate n ' ') = List.replicate n ' '.toUInt8 := by
  induction n with
  | zero => rfl
  | succ n ih =>
    rw [List.replicate_succ, encodeUtf8_cons, ih]
    rfl

/-- A displayed formula that ends in a blank line is held back whole. -/
theorem pushAll_blank_line (n : ℕ) :
    new.pushAll [['$', '$', '\n'] ++ List.replicate n ' '] =
      some ([], ⟨new.mode, ['$', '$', '\n'] ++ List.replicate n ' '⟩) := by
  have hdollars : encodeUtf8 ['$', '$'] <+: encodeUtf8 (['$', '$', '\n'] ++ List.replicate n ' ') :=
    ⟨encodeUtf8 ('\n' :: List.replicate n ' '), (encodeUtf8_append _ _).symm⟩
  have hclose : findDisplayClose false 0 (encodeUtf8 ('\n' :: List.replicate n ' ')) = .needMore := by
    rw [encodeUtf8_cons, encodeUtf8_blanks]
    have hdrop : (List.replicate n ' '.toUInt8).dropWhile isBlank = [] := by
      rw [List.dropWhile_eq_nil_iff]
      intro b hb
      rw [(List.mem_replicate.mp hb).2]
      rfl
    change findDisplayClose false 0 ('\n'.toUInt8 :: List.replicate n ' '.toUInt8) = .needMore
    rw [findDisplayClose.eq_def]
    dsimp only
    rw [hdrop]
    rfl
  have hturn : turn (['$', '$', '\n'] ++ List.replicate n ' ') new.mode false =
      .stop [] (['$', '$', '\n'] ++ List.replicate n ' ') := by
    have hnormal := turnNormal_of_displayOpener (by decide) hdollars false
    have hdrop : (encodeUtf8 (['$', '$', '\n'] ++ List.replicate n ' ')).drop 2 =
        encodeUtf8 ('\n' :: List.replicate n ' ') := rfl
    rw [takeDisplay, show (encodeUtf8 ['$', '$']).length = 2 from rfl, hdrop, hclose] at hnormal
    exact hnormal
  have hprocess : process (['$', '$', '\n'] ++ List.replicate n ' ') new.mode false =
      some ([], ['$', '$', '\n'] ++ List.replicate n ' ', new.mode) := by
    have hascii : new.mode.Ascii := Mode.ascii_normal true
    exact (process_eq hascii (List.cons_ne_nil _ _) false).trans
      (congrArg (Turn.outcome new.mode false) hturn)
  change (process (['$', '$', '\n'] ++ List.replicate n ' ') new.mode false).map _ >>= _ = _
  rw [hprocess]
  rfl

/-- There is no bound on what is held back behind the opener of a formula. -/
theorem not_pending_le :
    ¬ ∃ bound, ∀ chunks out nz, new.pushAll chunks = some (out, nz) →
      ∀ opener ∈ inlineOpener :: displayOpeners, opener <+: encodeUtf8 nz.pending →
        byteLen nz.pending ≤ bound := by
  rintro ⟨bound, h⟩
  have hle := h _ _ _ (pushAll_blank_line bound) (encodeUtf8 ['$', '$']) (by decide)
    ⟨encodeUtf8 ('\n' :: List.replicate bound ' '), (encodeUtf8_append _ _).symm⟩
  have hlong : bound ≤ byteLen (List.replicate bound ' ') := by
    rw [← length_encodeUtf8, encodeUtf8_blanks, List.length_replicate]
  rw [byteLen_append] at hle
  have hthree : byteLen ['$', '$', '\n'] = 3 := rfl
  omega

end LatexDelimiterNormalizer

end Ezer.Markdown
