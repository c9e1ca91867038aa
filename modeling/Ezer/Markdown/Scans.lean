import Ezer.Lib.Ascii
import Ezer.Markdown.Delimiters
import Mathlib.Data.List.TakeWhile

/-!
# Scans of the bytes that are there

A scan that decides without the end of the text decides the same where more
bytes follow. What it finds lies between characters.
-/

namespace Ezer.Markdown

open Lib

section Runs

variable {bytes : List UInt8} {ch : UInt8}

theorem countRun_le (bytes : List UInt8) (ch : UInt8) : countRun bytes ch ≤ bytes.length :=
  (List.takeWhile_prefix _).length_le

theorem countRun_append (h : countRun bytes ch ≠ bytes.length) (ext : List UInt8) :
    countRun (bytes ++ ext) ch = countRun bytes ch := by
  rw [countRun] at h ⊢
  rw [List.takeWhile_append, if_neg h, countRun]

theorem countRun_append_of_eq (h : countRun bytes ch = bytes.length) (ext : List UInt8) :
    countRun (bytes ++ ext) ch = bytes.length + countRun ext ch := by
  rw [countRun] at h ⊢
  rw [List.takeWhile_append, if_pos h, List.length_append, countRun]

theorem countRun_le_append (bytes : List UInt8) (ch : UInt8) (ext : List UInt8) :
    countRun bytes ch ≤ countRun (bytes ++ ext) ch := by
  by_cases h : countRun bytes ch = bytes.length
  · rw [countRun_append_of_eq h, h]
    exact Nat.le_add_right _ _
  · rw [countRun_append h]

theorem countRun_cons_self (bytes : List UInt8) (ch : UInt8) :
    countRun (ch :: bytes) ch = countRun bytes ch + 1 := by
  rw [countRun, List.takeWhile_cons, if_pos (beq_self_eq_true ch), List.length_cons, countRun]

theorem mem_take_countRun (ch : UInt8) (bytes : List UInt8) {b : UInt8}
    (h : b ∈ bytes.take (countRun bytes ch)) : b = ch := by
  rw [countRun, ← List.prefix_iff_eq_take.mp (List.takeWhile_prefix _)] at h
  exact eq_of_beq (List.mem_takeWhile_imp (p := (· == ch)) h)

theorem countRun_drop_append {n : ℕ} (hn : n ≤ bytes.length)
    (h : n + countRun (bytes.drop n) ch ≠ bytes.length) (ext : List UInt8) :
    countRun ((bytes ++ ext).drop n) ch = countRun (bytes.drop n) ch ∧
      n + countRun (bytes.drop n) ch < bytes.length := by
  have hle := countRun_le (bytes.drop n) ch
  rw [List.length_drop] at hle
  constructor
  · rw [List.drop_append_of_le_length hn]
    apply countRun_append
    rw [List.length_drop]
    omega
  · omega

theorem fenceIndent_append (h : 4 ≤ fenceIndent bytes ∨ fenceIndent bytes < bytes.length)
    (ext : List UInt8) : fenceIndent (bytes ++ ext) = fenceIndent bytes := by
  rw [fenceIndent] at h ⊢
  by_cases hrun : countRun bytes ' '.toUInt8 = bytes.length
  · have hle := countRun_le_append bytes ' '.toUInt8 ext
    rw [fenceIndent]
    omega
  · rw [countRun_append hrun, fenceIndent]

end Runs

section Fences

variable {bytes : List UInt8} {ch : UInt8} {len : ℕ}

theorem not_end_append {n : ℕ} (h : n < bytes.length) {ext : List UInt8} {finalFlush : Bool} :
    ¬ (n = (bytes ++ ext).length ∧ finalFlush = false) := by
  rw [List.length_append]
  omega

theorem scanFenceOpen_append (h : scanFenceOpen bytes false ≠ .needMore) (ext : List UInt8)
    (finalFlush : Bool) : scanFenceOpen (bytes ++ ext) finalFlush = scanFenceOpen bytes false := by
  rw [scanFenceOpen] at h
  rw [scanFenceOpen, scanFenceOpen]
  by_cases hspaces : 4 ≤ fenceIndent bytes
  · rw [fenceIndent_append (Or.inl hspaces), if_pos hspaces, if_pos hspaces]
  · rw [if_neg hspaces] at h
    cases hat : bytes[fenceIndent bytes]? with
    | none =>
      rw [hat] at h
      exact (h rfl).elim
    | some b =>
      have hlt : fenceIndent bytes < bytes.length := (List.getElem?_eq_some_iff.mp hat).1
      rw [hat] at h
      rw [fenceIndent_append (Or.inr hlt), if_neg hspaces, if_neg hspaces,
        List.getElem?_append_left hlt, hat]
      dsimp only at h ⊢
      by_cases hb : b ≠ '`'.toUInt8 ∧ b ≠ '~'.toUInt8
      · rw [if_pos hb, if_pos hb]
      · rw [if_neg hb] at h ⊢
        rw [if_neg hb]
        have hrun : fenceIndent bytes + countRun (bytes.drop (fenceIndent bytes)) b ≠
            bytes.length := fun heq => h (if_pos ⟨heq, rfl⟩)
        obtain ⟨hsame, hshort⟩ := countRun_drop_append hlt.le hrun ext
        rw [hsame, if_neg (not_end_append hshort), if_neg (mt And.left hrun)]

theorem scanFenceClose_append (h : scanFenceClose bytes ch len false ≠ .needMore)
    (ext : List UInt8) (finalFlush : Bool) :
    scanFenceClose (bytes ++ ext) ch len finalFlush = scanFenceClose bytes ch len false := by
  rw [scanFenceClose] at h
  rw [scanFenceClose, scanFenceClose]
  by_cases hspaces : 4 ≤ fenceIndent bytes
  · rw [fenceIndent_append (Or.inl hspaces), if_pos hspaces, if_pos hspaces]
  · rw [if_neg hspaces] at h
    cases hat : bytes[fenceIndent bytes]? with
    | none =>
      rw [hat] at h
      exact (h rfl).elim
    | some b =>
      have hlt : fenceIndent bytes < bytes.length := (List.getElem?_eq_some_iff.mp hat).1
      rw [hat] at h
      rw [fenceIndent_append (Or.inr hlt), if_neg hspaces, if_neg hspaces,
        List.getElem?_append_left hlt, hat]
      dsimp only at h ⊢
      by_cases hb : b ≠ ch
      · rw [if_pos hb, if_pos hb]
      · rw [if_neg hb] at h ⊢
        rw [if_neg hb]
        have hrun : fenceIndent bytes + countRun (bytes.drop (fenceIndent bytes)) ch ≠
            bytes.length := fun heq => h (if_pos ⟨heq, rfl⟩)
        obtain ⟨hsame, hshort⟩ := countRun_drop_append hlt.le hrun ext
        rw [if_neg (mt And.left hrun)] at h
        rw [hsame, if_neg (not_end_append hshort), if_neg (mt And.left hrun)]
        by_cases hlen : countRun (bytes.drop (fenceIndent bytes)) ch < len
        · rw [if_pos hlen, if_pos hlen]
        · rw [if_neg hlen] at h ⊢
          rw [if_neg hlen, List.drop_append_of_le_length hshort.le, List.dropWhile_append]
          cases hblank : (bytes.drop (fenceIndent bytes +
              countRun (bytes.drop (fenceIndent bytes)) ch)).dropWhile isBlank with
          | nil =>
            rw [hblank] at h
            exact (h rfl).elim
          | cons c rest => rfl

end Fences

section Tokens

variable {tokens : List (List UInt8)} {bytes : List UInt8}

/-- No token is the start of another one. -/
def Apart (tokens : List (List UInt8)) : Prop := ∀ s ∈ tokens, ∀ t ∈ tokens, s <+: t → s = t

theorem apart_envTokens : Apart envTokens := by
  rw [Apart]
  decide

/-- The closing tokens are among the tokens. -/
theorem closing_subset {token : List UInt8} (h : token ∈ [envEnd, envEndStarred]) :
    token ∈ envTokens := List.mem_cons_of_mem _ (List.mem_cons_of_mem _ h)

theorem apart_closing : Apart [envEnd, envEndStarred] := fun s hs t ht =>
  apart_envTokens s (closing_subset hs) t (closing_subset ht)

theorem Apart.eq_of_prefix (h : Apart tokens) {s t : List UInt8} (hs : s ∈ tokens)
    (ht : t ∈ tokens) (hsb : s <+: bytes) (htb : t <+: bytes) : s = t := by
  rcases List.prefix_or_prefix_of_prefix hsb htb with hst | hts
  · exact h s hs t ht hst
  · exact (h t ht s hs hts).symm

/-- A token that was found is the only one, and is a start of the bytes. -/
theorem exists_token {len : ℕ} (h : (matchTokens tokens bytes).1 = some len) :
    ∃ token ∈ tokens, token <+: bytes ∧ token.length = len := by
  obtain ⟨hmem, -⟩ := List.max?_eq_some_iff.mp h
  obtain ⟨token, htoken, hlen⟩ := List.mem_map.mp hmem
  obtain ⟨htokens, hmatched⟩ := List.mem_filter.mp htoken
  rw [Bool.and_eq_true, List.isPrefixOf_iff_prefix] at hmatched
  exact ⟨token, htokens, hmatched.2, hlen⟩

theorem matchTokens_append_found (hapart : Apart tokens) {len : ℕ}
    (h : (matchTokens tokens bytes).1 = some len) (ext : List UInt8) :
    (matchTokens tokens (bytes ++ ext)).1 = some len := by
  obtain ⟨token, htoken, hstart, -⟩ := exists_token h
  rw [← h]
  rw [matchTokens, matchTokens]
  have hsame : ∀ t ∈ tokens,
      (decide (t.length ≤ (bytes ++ ext).length) && t.isPrefixOf (bytes ++ ext)) =
        (decide (t.length ≤ bytes.length) && t.isPrefixOf bytes) := by
    intro t ht
    rw [Bool.eq_iff_iff, Bool.and_eq_true, Bool.and_eq_true, List.isPrefixOf_iff_prefix,
      List.isPrefixOf_iff_prefix, decide_eq_true_iff, decide_eq_true_iff]
    constructor
    · rintro ⟨-, hext⟩
      have heq : t = token :=
        hapart.eq_of_prefix ht htoken hext (hstart.trans (List.prefix_append bytes ext))
      rw [heq]
      exact ⟨hstart.length_le, hstart⟩
    · rintro ⟨-, hbytes⟩
      have hext := hbytes.trans (List.prefix_append bytes ext)
      exact ⟨hext.length_le, hext⟩
  rw [List.filter_congr hsame]

theorem matchTokens_eq_none_iff :
    matchTokens tokens bytes = (none, false) ↔
      ∀ token ∈ tokens, ¬ token <+: bytes ∧ ¬ bytes <+: token := by
  rw [matchTokens, Prod.mk.injEq, List.max?_eq_none_iff, List.map_eq_nil_iff,
    List.filter_eq_nil_iff, List.any_eq_false]
  constructor
  · rintro ⟨hnone, hextend⟩ token htoken
    have hstart : ¬ token <+: bytes := by
      intro hstart
      apply hnone token htoken
      rw [Bool.and_eq_true, decide_eq_true_iff, List.isPrefixOf_iff_prefix]
      exact ⟨hstart.length_le, hstart⟩
    refine ⟨hstart, fun hlonger => ?_⟩
    by_cases hlen : bytes.length < token.length
    · apply hextend token htoken
      rw [Bool.and_eq_true, decide_eq_true_iff, List.isPrefixOf_iff_prefix]
      exact ⟨hlen, hlonger⟩
    · apply hstart
      rw [hlonger.eq_of_length_le (Nat.not_lt.mp hlen)]
  · intro h
    constructor
    · intro token htoken hmatched
      rw [Bool.and_eq_true, List.isPrefixOf_iff_prefix] at hmatched
      exact (h token htoken).1 hmatched.2
    · intro token htoken hextend
      rw [Bool.and_eq_true, List.isPrefixOf_iff_prefix] at hextend
      exact (h token htoken).2 hextend.2

theorem matchTokens_append_none (h : matchTokens tokens bytes = (none, false))
    (ext : List UInt8) : matchTokens tokens (bytes ++ ext) = (none, false) := by
  rw [matchTokens_eq_none_iff] at h ⊢
  intro token htoken
  obtain ⟨hstart, hlonger⟩ := h token htoken
  constructor
  · intro hext
    rcases List.prefix_or_prefix_of_prefix hext (List.prefix_append bytes ext) with hle | hle
    · exact hstart hle
    · exact hlonger hle
  · intro hext
    exact hlonger ((List.prefix_append bytes ext).trans hext)

end Tokens

section Backslash

variable {bytes : List UInt8}

theorem classifyBackslash_append (h : classifyBackslash bytes false ≠ .needMore)
    (ext : List UInt8) (finalFlush : Bool) :
    classifyBackslash (bytes ++ ext) finalFlush = classifyBackslash bytes false := by
  rw [classifyBackslash] at h
  rw [classifyBackslash, classifyBackslash]
  cases hat : bytes[1]? with
  | none =>
    rw [hat] at h
    exact (h rfl).elim
  | some b =>
    have hlt : 1 < bytes.length := (List.getElem?_eq_some_iff.mp hat).1
    rw [hat] at h
    rw [List.getElem?_append_left hlt, hat]
    dsimp only at h ⊢
    by_cases hbackslash : b = '\\'.toUInt8
    · rw [if_pos hbackslash, if_pos hbackslash]
    by_cases hopen : b = '('.toUInt8
    · rw [if_neg hbackslash, if_neg hbackslash, if_pos hopen, if_pos hopen]
    by_cases hclose : b = ')'.toUInt8
    · rw [if_neg hbackslash, if_neg hbackslash, if_neg hopen, if_neg hopen, if_pos hclose,
        if_pos hclose]
    by_cases hdisplay : b = '['.toUInt8
    · rw [if_neg hbackslash, if_neg hbackslash, if_neg hopen, if_neg hopen, if_neg hclose,
        if_neg hclose, if_pos hdisplay, if_pos hdisplay]
    by_cases hdisplayClose : b = ']'.toUInt8
    · rw [if_neg hbackslash, if_neg hbackslash, if_neg hopen, if_neg hopen, if_neg hclose,
        if_neg hclose, if_neg hdisplay, if_neg hdisplay, if_pos hdisplayClose,
        if_pos hdisplayClose]
    rw [if_neg hbackslash, if_neg hopen, if_neg hclose, if_neg hdisplay,
      if_neg hdisplayClose] at h
    rw [if_neg hbackslash, if_neg hbackslash, if_neg hopen, if_neg hopen, if_neg hclose,
      if_neg hclose, if_neg hdisplay, if_neg hdisplay, if_neg hdisplayClose,
      if_neg hdisplayClose]
    by_cases henv : b = 'b'.toUInt8 ∨ b = 'e'.toUInt8
    · rw [if_pos henv] at h
      rw [if_pos henv, if_pos henv]
      cases hmatch : matchTokens envTokens bytes with
      | mk found couldExtend =>
        rw [hmatch] at h
        cases found with
        | some len =>
          have hfound := matchTokens_append_found apart_envTokens (congrArg Prod.fst hmatch) ext
          cases hmatch' : matchTokens envTokens (bytes ++ ext) with
          | mk found' couldExtend' =>
            rw [hmatch'] at hfound
            obtain rfl : found' = some len := hfound
            rfl
        | none =>
          cases couldExtend with
          | true => exact (h rfl).elim
          | false =>
            rw [matchTokens_append_none hmatch ext]
            rfl
    · rw [if_neg henv, if_neg henv]

end Backslash

section Closes

variable {bytes : List UInt8} {k : ℕ}

theorem findInlineClose_append (h : findInlineClose false k bytes ≠ .needMore)
    (ext : List UInt8) (finalFlush : Bool) :
    findInlineClose finalFlush k (bytes ++ ext) = findInlineClose false k bytes := by
  fun_induction findInlineClose false k bytes with
  | case1 k => exact (h rfl).elim
  | case2 k b bytes hfar =>
    rw [List.cons_append, findInlineClose.eq_def]
    dsimp only
    rw [if_pos hfar]
  | case3 k hnear => exact (h rfl).elim
  | case4 k hnear bytes =>
    rw [List.cons_append, List.cons_append, findInlineClose.eq_def]
    dsimp only
    rw [if_neg hnear, if_pos rfl, if_pos rfl]
  | case5 k hnear c bytes hc ih =>
    rw [List.cons_append, List.cons_append, findInlineClose.eq_def]
    dsimp only
    rw [if_neg hnear, if_pos rfl, if_neg hc]
    exact ih h
  | case6 k b bytes hnear hb ih =>
    rw [List.cons_append, findInlineClose.eq_def]
    dsimp only
    rw [if_neg hnear, if_neg hb]
    exact ih h

theorem findDisplayClose_append (h : findDisplayClose false k bytes ≠ .needMore)
    (ext : List UInt8) (finalFlush : Bool) :
    findDisplayClose finalFlush k (bytes ++ ext) = findDisplayClose false k bytes := by
  fun_induction findDisplayClose false k bytes with
  | case1 k => exact (h rfl).elim
  | case2 k b tail hfar =>
    rw [List.cons_append, findDisplayClose.eq_def]
    dsimp only
    rw [if_pos hfar]
  | case3 k hnear => exact (h rfl).elim
  | case4 k hnear tail =>
    rw [List.cons_append, List.cons_append, findDisplayClose.eq_def]
    dsimp only
    rw [if_neg hnear, if_pos rfl, if_pos rfl]
  | case5 k hnear tail len couldExtend hne hmatch =>
    have hfound := matchTokens_append_found apart_closing (congrArg Prod.fst hmatch) ext
    rw [List.cons_append, List.cons_append] at hfound ⊢
    rw [findDisplayClose.eq_def]
    dsimp only
    rw [if_neg hnear, if_pos rfl, if_neg hne, if_pos rfl]
    cases hmatch' : matchTokens [envEnd, envEndStarred]
        ('\\'.toUInt8 :: 'e'.toUInt8 :: (tail ++ ext)) with
    | mk found' couldExtend' =>
      rw [hmatch'] at hfound
      obtain rfl : found' = some len := hfound
      rfl
  | case6 k hnear tail couldExtend hmore hne hmatch => exact (h rfl).elim
  | case7 k hnear tail couldExtend hless hne hmatch ih =>
    obtain rfl : couldExtend = false := by simpa using hless
    have hnone := matchTokens_append_none hmatch ext
    rw [List.cons_append, List.cons_append] at hnone ⊢
    rw [findDisplayClose.eq_def]
    dsimp only
    rw [if_neg hnear, if_pos rfl, if_neg hne, if_pos rfl, hnone]
    exact ih h
  | case8 k hnear b tail hclose hend ih =>
    rw [List.cons_append, List.cons_append, findDisplayClose.eq_def]
    dsimp only
    rw [if_neg hnear, if_pos rfl, if_neg hclose, if_neg hend]
    exact ih h
  | case9 k tail hnear hne hrun =>
    have hrun' := Nat.le_trans hrun (countRun_le_append _ _ ext)
    rw [List.cons_append] at hrun' ⊢
    rw [findDisplayClose.eq_def]
    dsimp only
    rw [if_neg hnear, if_neg hne, if_pos rfl, if_pos hrun']
  | case10 | case12 => exact (h rfl).elim
  | case11 k tail hnear hless hne hrun ih =>
    cases tail with
    | nil => exact (hless rfl).elim
    | cons c tail =>
      have hshort : countRun ('$'.toUInt8 :: c :: tail) '$'.toUInt8 ≠
          ('$'.toUInt8 :: c :: tail).length := by
        rw [List.length_cons, List.length_cons]
        omega
      have hrun' := hrun
      rw [← countRun_append hshort ext] at hrun'
      rw [List.cons_append] at hrun' ⊢
      rw [findDisplayClose.eq_def]
      dsimp only
      rw [if_neg hnear, if_neg hne, if_pos rfl, if_neg hrun']
      exact (if_neg nofun).trans (ih h)
  | case13 k tail hnear b rest hblank hstop hne hne' =>
    rw [List.cons_append, findDisplayClose.eq_def]
    dsimp only
    rw [if_neg hnear, if_neg hne, if_neg hne', if_pos rfl, List.dropWhile_append, hblank]
    exact if_pos hstop
  | case14 k tail hnear b rest hblank hstop hne hne' ih =>
    rw [List.cons_append, findDisplayClose.eq_def]
    dsimp only
    rw [if_neg hnear, if_neg hne, if_neg hne', if_pos rfl, List.dropWhile_append, hblank]
    exact (if_neg hstop).trans (ih h)
  | case15 k b tail hnear hbackslash hdollar hnewline ih =>
    rw [List.cons_append, findDisplayClose.eq_def]
    dsimp only
    rw [if_neg hnear, if_neg hbackslash, if_neg hdollar, if_neg hnewline]
    exact ih h

end Closes

/-! ### What is found lies between characters -/

/-- Some first bytes, of which there are any, are ASCII. -/
structure Leads (bytes : List UInt8) (n : ℕ) : Prop where
  pos : 0 < n
  le : n ≤ bytes.length
  ascii : ∀ b ∈ bytes.take n, b < 128

variable {bytes : List UInt8}

theorem Leads.cutAt {n : ℕ} (h : Leads bytes n) : CutAt bytes n :=
  ⟨h.le, Or.inr fun b hb => h.ascii b (List.mem_of_getLast? hb)⟩

/-- Some ASCII bytes, of which there are any, stand at a distance. -/
def FoundAt (bytes : List UInt8) (k close len : ℕ) : Prop :=
  ∃ ws xs ys, bytes = ws ++ xs ++ ys ∧ close = k + ws.length ∧ len = xs.length ∧ xs ≠ [] ∧
    ∀ b ∈ xs, b < 128

variable {close k len : ℕ}

theorem FoundAt.cons (h : FoundAt bytes (k + 1) close len)
    (b : UInt8) : FoundAt (b :: bytes) k close len := by
  obtain ⟨ws, xs, ys, rfl, rfl, rfl, hne, hascii⟩ := h
  refine ⟨b :: ws, xs, ys, rfl, ?_, rfl, hne, hascii⟩
  rw [List.length_cons]
  omega

theorem FoundAt.head (xs : List UInt8) {ys : List UInt8} (hne : xs ≠ [])
    (hascii : ∀ b ∈ xs, b < 128) : FoundAt (xs ++ ys) k k xs.length :=
  ⟨[], xs, ys, rfl, rfl, rfl, hne, hascii⟩

theorem FoundAt.cuts {n : ℕ} (hn : n ≤ bytes.length) (h : FoundAt (bytes.drop n) 0 close len) :
    CutAt bytes (n + close) ∧ CutAt bytes (n + close + len) := by
  obtain ⟨ws, xs, ys, hbytes, rfl, rfl, hne, hascii⟩ := h
  obtain ⟨pre, hpre, rfl⟩ : ∃ pre, bytes = pre ++ bytes.drop n ∧ pre.length = n :=
    ⟨bytes.take n, (List.take_append_drop n bytes).symm, List.length_take_of_le hn⟩
  rw [hbytes] at hpre
  clear hbytes hn
  subst hpre
  have hlen : pre.length + (0 + ws.length) = (pre ++ ws).length := by
    rw [List.length_append, Nat.zero_add]
  have hsplit : pre ++ (ws ++ xs ++ ys) = pre ++ ws ++ xs ++ ys := by
    rw [← List.append_assoc, ← List.append_assoc]
  rw [hlen, hsplit]
  constructor
  · cases xs with
    | nil => exact (hne rfl).elim
    | cons b xs =>
      rw [List.append_assoc, List.cons_append]
      exact cutAt_before (hascii b List.mem_cons_self) _ _
  · exact cutAt_behind hne hascii _ _

theorem foundAt_of_findInlineClose {finalFlush : Bool}
    (h : findInlineClose finalFlush k bytes = .found close len) : FoundAt bytes k close len := by
  have hend (finalFlush : Bool) : Close.atEnd finalFlush ≠ .found close len := by
    cases finalFlush <;> nofun
  fun_induction findInlineClose finalFlush k bytes with
  | case1 | case3 => exact (hend _ h).elim
  | case2 => cases h
  | case4 k hnear bytes =>
    cases h
    exact FoundAt.head ['\\'.toUInt8, ')'.toUInt8] nofun (ascii_pair (by decide) (by decide))
  | case5 k hnear c bytes hc ih => exact ((ih h).cons _).cons _
  | case6 k b bytes hnear hb ih => exact (ih h).cons b

theorem findInlineClose_len {finalFlush : Bool}
    (h : findInlineClose finalFlush k bytes = .found close len) : len = 2 := by
  fun_induction findInlineClose finalFlush k bytes with
  | case1 | case3 => cases finalFlush <;> cases h
  | case2 => cases h
  | case4 =>
    cases h
    rfl
  | case5 k hnear c bytes hc ih => exact ih h
  | case6 k b bytes hnear hb ih => exact ih h

theorem ascii_envTokens {token : List UInt8} (h : token ∈ envTokens) :
    token ≠ [] ∧ ∀ b ∈ token, b < 128 := by
  have hall : ∀ token ∈ envTokens, token ≠ [] ∧ ∀ b ∈ token, b < 128 := by decide +kernel
  exact hall token h

theorem foundAt_of_findDisplayClose {finalFlush : Bool}
    (h : findDisplayClose finalFlush k bytes = .found close len) : FoundAt bytes k close len := by
  have hend (finalFlush : Bool) : Close.atEnd finalFlush ≠ .found close len := by
    cases finalFlush <;> nofun
  fun_induction findDisplayClose finalFlush k bytes with
  | case1 | case3 | case12 => exact (hend _ h).elim
  | case2 | case6 | case10 | case13 => cases h
  | case4 k hnear tail =>
    cases h
    exact FoundAt.head ['\\'.toUInt8, ']'.toUInt8] nofun (ascii_pair (by decide) (by decide))
  | case5 k hnear tail len' couldExtend hne hmatch =>
    cases h
    obtain ⟨token, htoken, ⟨ys, hys⟩, rfl⟩ := exists_token (congrArg Prod.fst hmatch)
    obtain ⟨hne, hascii⟩ := ascii_envTokens (closing_subset htoken)
    rw [← hys]
    exact FoundAt.head _ hne hascii
  | case7 k hnear tail couldExtend hless hne hmatch ih => exact ((ih h).cons _).cons _
  | case8 k hnear b tail hclose hend ih => exact ((ih h).cons _).cons _
  | case9 k tail hnear hne hrun =>
    cases h
    cases tail with
    | nil => exact absurd hrun (by decide)
    | cons c tail =>
      have hc : c = '$'.toUInt8 := by
        apply mem_take_countRun '$'.toUInt8 ('$'.toUInt8 :: c :: tail)
        obtain ⟨n, hn⟩ := Nat.exists_eq_add_of_le' hrun
        rw [hn]
        exact List.mem_cons_of_mem _ List.mem_cons_self
      rw [hc]
      exact FoundAt.head ['$'.toUInt8, '$'.toUInt8] nofun (ascii_pair (by decide) (by decide))
  | case11 k tail hnear hless hne hrun ih => exact (ih h).cons _
  | case14 k tail hnear b rest hblank hstop hne hne' ih => exact (ih h).cons _
  | case15 k b tail hnear hbackslash hdollar hnewline ih => exact (ih h).cons b

theorem Leads.leading (xs : List UInt8) {ys : List UInt8} (hne : xs ≠ [])
    (hascii : ∀ b ∈ xs, b < 128) : Leads (xs ++ ys) xs.length := by
  refine ⟨List.length_pos_iff.mpr hne, by simp, ?_⟩
  rw [List.take_left]
  exact hascii

theorem Leads.one {b : UInt8} (hb : b < 128) (bytes : List UInt8) : Leads (b :: bytes) 1 :=
  Leads.leading [b] nofun (by simpa using hb)

theorem Leads.two {b c : UInt8} (hb : b < 128) (hc : c < 128) (bytes : List UInt8) :
    Leads (b :: c :: bytes) 2 :=
  Leads.leading [b, c] nofun (by simpa using ⟨hb, hc⟩)

/-- What a backslash begins is ASCII, and is known at the end of the text. -/
def Bs.Fits (bytes : List UInt8) (finalFlush : Bool) : Bs → Prop
  | .convert _ len | .displayOpen len | .literal len => Leads bytes len
  | .inlineOpen => Leads bytes 2
  | .needMore => finalFlush = false

theorem classifyBackslash_fits (bytes : List UInt8) (finalFlush : Bool)
    (hhead : bytes.head? = some '\\'.toUInt8) :
    (classifyBackslash bytes finalFlush).Fits bytes finalFlush := by
  obtain ⟨rest, rfl⟩ := List.head?_eq_some_iff.mp hhead
  have hbackslash : '\\'.toUInt8 < 128 := by decide
  cases rest with
  | nil =>
    cases finalFlush with
    | false => exact rfl
    | true => exact Leads.one hbackslash []
  | cons b rest =>
    have htwo {c : UInt8} (hb : b = c) (hc : c < 128) : Leads ('\\'.toUInt8 :: b :: rest) 2 := by
      rw [hb]
      exact Leads.two hbackslash hc rest
    rw [classifyBackslash]
    change Bs.Fits _ _ (if b = '\\'.toUInt8 then _ else _)
    by_cases h : b = '\\'.toUInt8
    · rw [if_pos h]
      exact htwo h (by decide)
    rw [if_neg h]
    by_cases h : b = '('.toUInt8
    · rw [if_pos h]
      exact htwo h (by decide)
    rw [if_neg h]
    by_cases h : b = ')'.toUInt8
    · rw [if_pos h]
      exact htwo h (by decide)
    rw [if_neg h]
    by_cases h : b = '['.toUInt8
    · rw [if_pos h]
      exact htwo h (by decide)
    rw [if_neg h]
    by_cases h : b = ']'.toUInt8
    · rw [if_pos h]
      exact htwo h (by decide)
    rw [if_neg h]
    by_cases h : b = 'b'.toUInt8 ∨ b = 'e'.toUInt8
    · rw [if_pos h]
      cases hmatch : matchTokens envTokens ('\\'.toUInt8 :: b :: rest) with
      | mk found couldExtend =>
        cases found with
        | some len =>
          obtain ⟨token, htoken, ⟨ys, hys⟩, hlen⟩ := exists_token (congrArg Prod.fst hmatch)
          obtain ⟨hne, hascii⟩ := ascii_envTokens htoken
          have hleads : Leads ('\\'.toUInt8 :: b :: rest) len := by
            rw [← hys, ← hlen]
            exact Leads.leading _ hne hascii
          dsimp only
          split <;> exact hleads
        | none =>
          cases finalFlush with
          | true =>
            have hleads := Leads.one hbackslash (b :: rest)
            cases couldExtend <;> exact hleads
          | false =>
            cases couldExtend with
            | true => exact rfl
            | false => exact Leads.one hbackslash _
    · rw [if_neg h]
      exact Leads.one hbackslash _

theorem leads_fence {ch : UInt8} (hch : ch < 128) (hat : bytes[fenceIndent bytes]? = some ch) :
    Leads bytes (fenceIndent bytes + countRun (bytes.drop (fenceIndent bytes)) ch) := by
  have hlt : fenceIndent bytes < bytes.length := (List.getElem?_eq_some_iff.mp hat).1
  have hpos : 0 < countRun (bytes.drop (fenceIndent bytes)) ch := by
    rw [List.drop_eq_getElem_cons hlt, (List.getElem?_eq_some_iff.mp hat).2, countRun_cons_self]
    exact Nat.succ_pos _
  have hle := countRun_le (bytes.drop (fenceIndent bytes)) ch
  rw [List.length_drop] at hle
  refine ⟨by omega, by omega, ?_⟩
  intro b hb
  rw [List.take_add, List.mem_append] at hb
  rcases hb with hb | hb
  · have hspace : b = ' '.toUInt8 := by
      apply mem_take_countRun ' '.toUInt8 bytes
      exact List.take_subset_take_left bytes (Nat.min_le_right _ _) hb
    rw [hspace]
    decide
  · rw [mem_take_countRun _ _ hb]
    exact hch

/-- The fence found is ASCII, and whether there is one is known at the end of the text. -/
def FenceScan.Fits (bytes : List UInt8) (finalFlush : Bool) : FenceScan → Prop
  | .found ch _ stop => ch < 128 ∧ Leads bytes stop
  | .no => True
  | .needMore => finalFlush = false

theorem scanFenceOpen_fits (bytes : List UInt8) (finalFlush : Bool) :
    (scanFenceOpen bytes finalFlush).Fits bytes finalFlush := by
  rw [scanFenceOpen]
  by_cases hspaces : 4 ≤ fenceIndent bytes
  · rw [if_pos hspaces]
    exact True.intro
  rw [if_neg hspaces]
  cases hat : bytes[fenceIndent bytes]? with
  | none =>
    cases finalFlush with
    | false => exact rfl
    | true => exact True.intro
  | some ch =>
    dsimp only
    by_cases hch : ch ≠ '`'.toUInt8 ∧ ch ≠ '~'.toUInt8
    · rw [if_pos hch]
      exact True.intro
    rw [if_neg hch]
    have hascii : ch < 128 := by
      by_cases htick : ch = '`'.toUInt8
      · rw [htick]
        decide
      · have htilde : ch = '~'.toUInt8 := by
          by_contra htilde
          exact hch ⟨htick, htilde⟩
        rw [htilde]
        decide
    split
    · rename_i hend
      exact hend.2
    · split
      · exact True.intro
      · exact ⟨hascii, leads_fence hascii hat⟩

theorem scanFenceClose_fits (bytes : List UInt8) {ch : UInt8} (hch : ch < 128) (len : ℕ)
    (finalFlush : Bool) : (scanFenceClose bytes ch len finalFlush).Fits bytes finalFlush := by
  rw [scanFenceClose]
  by_cases hspaces : 4 ≤ fenceIndent bytes
  · rw [if_pos hspaces]
    exact True.intro
  rw [if_neg hspaces]
  cases hat : bytes[fenceIndent bytes]? with
  | none =>
    cases finalFlush with
    | false => exact rfl
    | true => exact True.intro
  | some b =>
    dsimp only
    by_cases hb : b = ch
    · rw [if_neg (not_not_intro hb)]
      rw [hb] at hat
      have hleads := leads_fence hch hat
      split
      · rename_i hend
        exact hend.2
      · split
        · exact True.intro
        · split
          · cases finalFlush with
            | false => exact rfl
            | true => exact ⟨hch, hleads⟩
          · split
            · exact ⟨hch, hleads⟩
            · exact True.intro
    · rw [if_pos hb]
      exact True.intro

theorem findInlineClose_flush (k : ℕ) (bytes : List UInt8) :
    findInlineClose true k bytes ≠ .needMore := by
  fun_induction findInlineClose true k bytes with
  | case1 | case2 | case3 | case4 => nofun
  | case5 k hnear c bytes hc ih => exact ih
  | case6 k b bytes hnear hb ih => exact ih

theorem findDisplayClose_flush (k : ℕ) (bytes : List UInt8) :
    findDisplayClose true k bytes ≠ .needMore := by
  fun_induction findDisplayClose true k bytes with
  | case1 | case2 | case3 | case4 | case5 | case9 | case12 | case13 => nofun
  | case6 k hnear tail couldExtend hmore =>
    rw [Bool.not_true, Bool.and_false] at hmore
    cases hmore
  | case7 k hnear tail couldExtend hless hne hmatch ih => exact ih
  | case15 k b tail hnear hbackslash hdollar hnewline ih => exact ih
  | case8 k hnear b tail hclose hend ih => exact ih
  | case11 k tail hnear hless hne hrun ih => exact ih
  | case10 k tail hnear hmore =>
    rw [Bool.not_true, Bool.and_false] at hmore
    cases hmore
  | case14 k tail hnear b rest hblank hstop hne hne' ih => exact ih

/-- Behind the first bytes of a kind is one of another kind. -/
theorem exists_behind_takeWhile {p : UInt8 → Bool} (h : (bytes.takeWhile p).length < bytes.length) :
    ∃ b ys, bytes = bytes.takeWhile p ++ b :: ys ∧ p b = false := by
  have happend := List.takeWhile_append_dropWhile (p := p) (l := bytes)
  cases hdrop : bytes.dropWhile p with
  | nil =>
    rw [hdrop, List.append_nil] at happend
    rw [happend] at h
    exact (Nat.lt_irrefl _ h).elim
  | cons b ys =>
    rw [hdrop] at happend
    refine ⟨b, ys, happend.symm, ?_⟩
    have hne : bytes.dropWhile p ≠ [] := by
      rw [hdrop]
      nofun
    have hhead := List.head_dropWhile_not p hne
    simp only [hdrop, List.head_cons] at hhead
    exact hhead

theorem cutAt_takeWhile {p : UInt8 → Bool} (hp : ∀ b, p b = false → b < 128)
    (bytes : List UInt8) : CutAt bytes (bytes.takeWhile p).length := by
  have hle := (List.takeWhile_prefix (l := bytes) p).length_le
  rcases Nat.lt_or_eq_of_le hle with hlt | heq
  · obtain ⟨b, ys, hbytes, hb⟩ := exists_behind_takeWhile hlt
    have hcut := cutAt_before (hp b hb) (bytes.takeWhile p) ys
    rw [← hbytes] at hcut
    exact hcut
  · rw [heq]
    exact cutAt_length bytes

section InlineCode

variable {run : ℕ} {finalFlush : Bool}

theorem scanInlineCode_nil : scanInlineCode run finalFlush [] = (0, .unended) := by
  rw [scanInlineCode.eq_def]

theorem scanInlineCode_newline (rest : List UInt8) :
    scanInlineCode run finalFlush ('\n'.toUInt8 :: rest) = (1, .newline) := by
  rw [scanInlineCode.eq_def]
  dsimp only
  rw [if_pos rfl]

theorem scanInlineCode_other {b : UInt8} (hnewline : b ≠ '\n'.toUInt8) (htick : b ≠ '`'.toUInt8)
    (rest : List UInt8) :
    scanInlineCode run finalFlush (b :: rest) =
      (1 + (scanInlineCode run finalFlush rest).1, (scanInlineCode run finalFlush rest).2) := by
  rw [scanInlineCode.eq_def]
  dsimp only
  rw [if_neg hnewline, if_neg htick]

theorem scanInlineCode_ticks (bytes : List UInt8) (hhead : bytes.head? = some '`'.toUInt8) :
    scanInlineCode run finalFlush bytes =
      if countRun bytes '`'.toUInt8 = bytes.length ∧ finalFlush = false then (0, .held)
      else if countRun bytes '`'.toUInt8 = run then (countRun bytes '`'.toUInt8, .closed)
      else
        (countRun bytes '`'.toUInt8 +
            (scanInlineCode run finalFlush (bytes.drop (countRun bytes '`'.toUInt8))).1,
          (scanInlineCode run finalFlush (bytes.drop (countRun bytes '`'.toUInt8))).2) := by
  obtain ⟨rest, rfl⟩ := List.head?_eq_some_iff.mp hhead
  have hdrop : ('`'.toUInt8 :: rest).drop (countRun ('`'.toUInt8 :: rest) '`'.toUInt8) =
      rest.drop (countRun ('`'.toUInt8 :: rest) '`'.toUInt8 - 1) := by
    rw [countRun_cons_self, List.drop_succ_cons, Nat.add_sub_cancel]
  rw [hdrop, scanInlineCode.eq_def]
  dsimp only
  rw [if_neg (by decide), if_pos rfl]

/-- The bytes of inline code are read on where they went on to its end. -/
def CodeEnd.goOn (more : ℕ × CodeEnd) (n : ℕ) : CodeEnd → ℕ × CodeEnd
  | .newline => (n, .newline)
  | .closed => (n, .closed)
  | .held | .unended => (n + more.1, more.2)

theorem CodeEnd.goOn_add (more : ℕ × CodeEnd) (m n : ℕ) (how : CodeEnd) :
    how.goOn more (m + n) = (m + (how.goOn more n).1, (how.goOn more n).2) := by
  cases how with
  | newline => rfl
  | closed => rfl
  | held | unended => exact congrArg (·, more.2) (Nat.add_assoc m n more.1)

/-- What was read of inline code is read in the same way where more bytes follow, from where it
was left. -/
theorem scanInlineCode_append (run : ℕ) (bytes ext : List UInt8) (finalFlush : Bool) :
    scanInlineCode run finalFlush (bytes ++ ext) =
      (scanInlineCode run false bytes).2.goOn
        (scanInlineCode run finalFlush
          (bytes.drop (scanInlineCode run false bytes).1 ++ ext))
        (scanInlineCode run false bytes).1 := by
  induction hlen : bytes.length using Nat.strong_induction_on generalizing bytes with
  | _ len ih =>
    cases bytes with
    | nil =>
      rw [scanInlineCode_nil]
      exact Prod.ext (Nat.zero_add _).symm rfl
    | cons b rest =>
      by_cases hnewline : b = '\n'.toUInt8
      · rw [hnewline, List.cons_append, scanInlineCode_newline, scanInlineCode_newline]
        rfl
      by_cases htick : b = '`'.toUInt8
      · rw [htick] at hlen ⊢
        have hpos : 0 < countRun ('`'.toUInt8 :: rest) '`'.toUInt8 := by
          rw [countRun_cons_self]
          exact Nat.succ_pos _
        rw [scanInlineCode_ticks ('`'.toUInt8 :: rest) rfl]
        by_cases hend : countRun ('`'.toUInt8 :: rest) '`'.toUInt8 =
            ('`'.toUInt8 :: rest).length
        · rw [if_pos ⟨hend, rfl⟩]
          exact Prod.ext (Nat.zero_add _).symm rfl
        · have hle := countRun_le ('`'.toUInt8 :: rest) '`'.toUInt8
          have hlonger : ¬ (countRun ('`'.toUInt8 :: rest) '`'.toUInt8 =
              ('`'.toUInt8 :: rest ++ ext).length ∧ finalFlush = false) := by
            rw [List.length_append]
            omega
          rw [if_neg (fun h => hend h.1),
            scanInlineCode_ticks ('`'.toUInt8 :: rest ++ ext) rfl, countRun_append hend,
            if_neg hlonger]
          by_cases hrun : countRun ('`'.toUInt8 :: rest) '`'.toUInt8 = run
          · rw [if_pos hrun, if_pos hrun]
            rfl
          · have hshort : (('`'.toUInt8 :: rest).drop
                (countRun ('`'.toUInt8 :: rest) '`'.toUInt8)).length < len := by
              rw [List.length_drop]
              omega
            rw [if_neg hrun, if_neg hrun, List.drop_append_of_le_length hle, ih _ hshort _ rfl,
              CodeEnd.goOn_add, List.drop_drop]
      · have hshort : rest.length < len := by
          rw [← hlen]
          exact Nat.lt_succ_self _
        have hdrop (n : ℕ) : (b :: rest).drop (1 + n) = rest.drop n := by
          rw [Nat.add_comm, List.drop_succ_cons]
        rw [List.cons_append, scanInlineCode_other hnewline htick,
          scanInlineCode_other hnewline htick, ih _ hshort _ rfl, CodeEnd.goOn_add]
        dsimp only
        rw [hdrop]

/-- Inline code is read to an ASCII byte, or to the end of the text. -/
def CodeEnd.Fits (bytes : List UInt8) (finalFlush : Bool) (n : ℕ) : CodeEnd → Prop
  | .newline | .closed => ∃ ws xs ys, bytes = ws ++ xs ++ ys ∧ n = ws.length + xs.length ∧
      xs ≠ [] ∧ ∀ b ∈ xs, b < 128
  | .held => finalFlush = false ∧ ∃ ws b ys, bytes = ws ++ b :: ys ∧ n = ws.length ∧ b < 128
  | .unended => n = bytes.length

theorem CodeEnd.Fits.append {bytes : List UInt8} {n : ℕ} {how : CodeEnd}
    (h : how.Fits bytes finalFlush n) (ws : List UInt8) :
    how.Fits (ws ++ bytes) finalFlush (ws.length + n) := by
  have hbehind : (∃ vs xs ys, bytes = vs ++ xs ++ ys ∧ n = vs.length + xs.length ∧
        xs ≠ [] ∧ ∀ b ∈ xs, b < 128) →
      ∃ vs xs ys, ws ++ bytes = vs ++ xs ++ ys ∧ ws.length + n = vs.length + xs.length ∧
        xs ≠ [] ∧ ∀ b ∈ xs, b < 128 := by
    rintro ⟨vs, xs, ys, rfl, rfl, hxs⟩
    refine ⟨ws ++ vs, xs, ys, ?_, ?_, hxs⟩
    · rw [List.append_assoc ws, List.append_assoc ws, List.append_assoc vs]
    · rw [List.length_append, Nat.add_assoc]
  cases how with
  | newline | closed => exact hbehind h
  | held =>
    obtain ⟨hflush, vs, b, ys, rfl, rfl, hb⟩ := h
    exact ⟨hflush, ws ++ vs, b, ys, (List.append_assoc _ _ _).symm, List.length_append.symm, hb⟩
  | unended =>
    rw [CodeEnd.Fits] at h
    rw [CodeEnd.Fits, List.length_append, h]

theorem scanInlineCode_fits (run : ℕ) (finalFlush : Bool) (bytes : List UInt8) :
    (scanInlineCode run finalFlush bytes).2.Fits bytes finalFlush
      (scanInlineCode run finalFlush bytes).1 := by
  induction hlen : bytes.length using Nat.strong_induction_on generalizing bytes with
  | _ len ih =>
    cases bytes with
    | nil =>
      rw [scanInlineCode_nil]
      exact rfl
    | cons b rest =>
      by_cases hnewline : b = '\n'.toUInt8
      · rw [hnewline, scanInlineCode_newline]
        exact ⟨[], ['\n'.toUInt8], rest, rfl, rfl, nofun, ascii_singleton (by decide)⟩
      by_cases htick : b = '`'.toUInt8
      · rw [htick] at hlen ⊢
        have hle := countRun_le ('`'.toUInt8 :: rest) '`'.toUInt8
        have hruns := countRun_cons_self rest '`'.toUInt8
        rw [scanInlineCode_ticks ('`'.toUInt8 :: rest) rfl]
        split
        · rename_i hend
          exact ⟨hend.2, [], _, rest, rfl, rfl, by decide⟩
        · split
          · refine ⟨[], ('`'.toUInt8 :: rest).take (countRun ('`'.toUInt8 :: rest) '`'.toUInt8),
              ('`'.toUInt8 :: rest).drop (countRun ('`'.toUInt8 :: rest) '`'.toUInt8), ?_, ?_, ?_,
              ?_⟩
            · rw [List.nil_append, List.take_append_drop]
            · rw [List.length_take, Nat.min_eq_left hle]
              exact (Nat.zero_add _).symm
            · rw [hruns, List.take_succ_cons]
              nofun
            · intro b hb
              rw [mem_take_countRun _ _ hb]
              decide
          · have hshort : (('`'.toUInt8 :: rest).drop
                (countRun ('`'.toUInt8 :: rest) '`'.toUInt8)).length < len := by
              rw [List.length_drop]
              omega
            have hfits := (ih _ hshort _ rfl).append
              (('`'.toUInt8 :: rest).take (countRun ('`'.toUInt8 :: rest) '`'.toUInt8))
            rw [List.take_append_drop, List.length_take, Nat.min_eq_left hle] at hfits
            exact hfits
      · have hshort : rest.length < len := by
          rw [← hlen]
          exact Nat.lt_succ_self _
        rw [scanInlineCode_other hnewline htick]
        exact (ih _ hshort _ rfl).append [b]

theorem CodeEnd.Fits.cutAt {bytes : List UInt8} {n : ℕ} {how : CodeEnd}
    (h : how.Fits bytes finalFlush n) : CutAt bytes n := by
  have hbehind : (∃ ws xs ys, bytes = ws ++ xs ++ ys ∧ n = ws.length + xs.length ∧
      xs ≠ [] ∧ ∀ b ∈ xs, b < 128) → CutAt bytes n := by
    rintro ⟨ws, xs, ys, rfl, rfl, hne, hascii⟩
    exact cutAt_behind hne hascii _ _
  cases how with
  | newline | closed => exact hbehind h
  | held =>
    obtain ⟨-, ws, b, ys, rfl, rfl, hb⟩ := h
    exact cutAt_before hb _ _
  | unended =>
    obtain rfl : n = bytes.length := h
    exact cutAt_length bytes

end InlineCode

end Ezer.Markdown
