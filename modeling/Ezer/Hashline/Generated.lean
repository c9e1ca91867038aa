import Ezer.Hashline.Apply

/-!
# Generated anchors validate

The anchors of all lines are made in one pass, with the fingerprints of all
chunks computed before or with a chain that starts again at each checkpoint. An
anchor is validated with the fingerprint of its line alone. Both give the same
fingerprint, and an anchor in a text is read back.
-/

namespace Ezer.Hashline

open Ezer.Lib

/-- The context of the anchor of a line. -/
def contextAt : AnchorScheme → List Text → ℕ → Option Text
  | .contentOnly _, _, _ => none
  | .chunkFingerprint h chunkSize _, ls, i => some (chunkFingerprint h.len chunkSize ls i)
  | .checkpointChain h interval _, ls, i => some (checkpointFingerprint h.len interval ls i)

/-- The anchor of a line. -/
def anchorAt (scheme : AnchorScheme) (ls : List Text) (i : ℕ) (line : Text) : Anchor :=
  ⟨i + 1, encodeHash (lineHash line) scheme.hashLen, contextAt scheme ls i⟩

section Generation

variable {ls : List Text}

theorem getElem?_chunkFingerprints {hashLen chunkSize i : ℕ} (hpos : 0 < chunkSize)
    (hi : i < ls.length) :
    (chunkFingerprints hashLen chunkSize ls)[i / chunkSize]? =
      some (chunkFingerprint hashLen chunkSize ls i) := by
  have hlt : i / chunkSize < (ls.length + chunkSize - 1) / chunkSize :=
    calc
      i / chunkSize < i / chunkSize + 1 := Nat.lt_succ_self _
      _ = (i + chunkSize) / chunkSize := (Nat.add_div_right i hpos).symm
      _ ≤ (ls.length + chunkSize - 1) / chunkSize := Nat.div_le_div_right (by omega)
  unfold chunkFingerprints chunkFingerprint
  rw [List.getElem?_map, List.getElem?_range hlt]
  rfl

theorem mixLines_concat (seed : UInt32) (ls : List Text) (line : Text) :
    mixLines seed (ls ++ [line]) = fnvStep (mixLines seed ls) (lineHash line) := by
  simp [mixLines]

theorem getRange_eq {start stop : ℕ} (h : start ≤ stop) (hstop : stop ≤ ls.length) :
    getRange ls start stop = some ((ls.drop start).take (stop - start)) := by
  unfold getRange
  rw [if_pos ⟨h, hstop⟩]

/-- Beyond a checkpoint the chain goes on from the lines before. -/
theorem div_mod_succ {s k : ℕ} (h : (s + 1) % k ≠ 0) :
    (s + 1) / k = s / k ∧ (s + 1) % k = s % k + 1 := by
  have hdvd : ¬k ∣ s + 1 := fun hd => h (Nat.mod_eq_zero_of_dvd hd)
  have hdiv : (s + 1) / k = s / k := Nat.succ_div_of_not_dvd hdvd
  have hs := Nat.div_add_mod s k
  have hs' := Nat.div_add_mod (s + 1) k
  rw [hdiv] at hs'
  constructor
  · exact hdiv
  · omega

theorem getElem?_chainAnchors {hashLen interval : ℕ} {tail : List Text}
    {s : ℕ} {chain : UInt32} (htail : ls.drop s = tail)
    (hchain : s % interval ≠ 0 →
      chain = mixLines ckptSeed ((ls.drop (s / interval * interval)).take (s % interval)))
    (j : ℕ) :
    (chainAnchors hashLen interval s chain tail)[j]? =
      tail[j]?.map fun line =>
        ⟨s + j + 1, encodeHash (lineHash line) hashLen,
          some (checkpointFingerprint hashLen interval ls (s + j))⟩ := by
  induction tail generalizing s chain j with
  | nil => rfl
  | cons line tail ih =>
    have hline : ls[s]? = some line := by
      have hget := congrArg (·[0]?) htail
      simpa using hget
    have hnext : ls.drop (s + 1) = tail := by
      rw [← List.drop_drop, htail]
      rfl
    have hs : s < ls.length := (List.getElem?_eq_some_iff.mp hline).1
    have hbase : s / interval * interval + s % interval = s := by
      rw [Nat.mul_comm]
      exact Nat.div_add_mod s interval
    have htake : (ls.drop (s / interval * interval)).take (s % interval + 1) =
        (ls.drop (s / interval * interval)).take (s % interval) ++ [line] := by
      rw [List.take_add_one, List.getElem?_drop, hbase, hline]
      rfl
    have hstep : fnvStep (if s % interval = 0 then ckptSeed else chain) (lineHash line) =
        mixLines ckptSeed
          ((ls.drop (s / interval * interval)).take (s % interval + 1)) := by
      rw [htake, mixLines_concat]
      by_cases hzero : s % interval = 0
      · rw [if_pos hzero, hzero]
        rfl
      · rw [if_neg hzero, ← hchain hzero]
    cases j with
    | zero =>
      have hfingerprint : checkpointFingerprint hashLen interval ls s =
          encodeHash (mixLines ckptSeed
            ((ls.drop (s / interval * interval)).take (s % interval + 1))) hashLen := by
        unfold checkpointFingerprint
        have hlength : s + 1 - s / interval * interval = s % interval + 1 := by omega
        dsimp only
        rw [getRange_eq (by omega) (by omega), hlength]
        rfl
      simp only [chainAnchors, List.getElem?_cons_zero, Option.map_some, Nat.add_zero]
      rw [hstep, hfingerprint]
    | succ j =>
      simp only [chainAnchors, List.getElem?_cons_succ]
      rw [ih hnext, Nat.add_right_comm s 1 j, Nat.add_assoc s j 1]
      intro hne
      obtain ⟨hdiv, hmod⟩ := div_mod_succ hne
      rw [hdiv, hmod]
      exact hstep

/-- The anchor that is generated for a line. -/
theorem getElem?_generateAnchors (scheme : AnchorScheme) (ls : List Text) (i : ℕ) :
    (generateAnchors scheme ls)[i]? = ls[i]?.map (anchorAt scheme ls i) := by
  cases scheme with
  | contentOnly h =>
    simp only [generateAnchors, List.getElem?_mapIdx]
    rfl
  | chunkFingerprint h chunkSize hpos =>
    simp only [generateAnchors, List.getElem?_mapIdx]
    cases hline : ls[i]? with
    | none => rfl
    | some line =>
      rw [Option.map_some, Option.map_some,
        getElem?_chunkFingerprints hpos (List.getElem?_eq_some_iff.mp hline).1]
      rfl
  | checkpointChain h interval hpos =>
    have hchain : (chainAnchors h.len interval 0 ckptSeed ls)[i]? = _ :=
      getElem?_chainAnchors List.drop_zero (by simp) i
    simp only [Nat.zero_add] at hchain
    exact hchain

end Generation

section Validation

variable {scheme : AnchorScheme} {ls : List Text}

theorem validateWithContext_valid {fingerprint : ℕ → Text} {hashLen : ℕ} {p : ParsedAnchor} :
    validateWithContext fingerprint hashLen p ls = .valid ↔
      ∃ i line, p.line = i + 1 ∧ ls[i]? = some line ∧
        p.localHash = encodeHash (lineHash line) hashLen ∧ p.context = some (fingerprint i) := by
  obtain ⟨line, localHash, context⟩ := p
  cases line with
  | zero => simp [validateWithContext]
  | succ i =>
    cases hline : ls[i]? with
    | none => simp [validateWithContext, hline]
    | some line =>
      by_cases hlocal : localHash = encodeHash (lineHash line) hashLen
      · cases context with
        | none => simp [validateWithContext, hline, hlocal]
        | some ctx =>
          by_cases hctx : ctx = fingerprint i <;>
            simp [validateWithContext, hline, hlocal, hctx]
      · simp [validateWithContext, hline, hlocal]

/-- An anchor validates exactly if it has the hashes of its line, where a context may be
added to an anchor of a scheme without contexts. -/
theorem validate_valid {p : ParsedAnchor} :
    validate scheme p ls = .valid ↔
      ∃ i line, p.line = i + 1 ∧ ls[i]? = some line ∧
        p.localHash = (anchorAt scheme ls i line).localHash ∧
        ((contextAt scheme ls i).isSome → p.context = contextAt scheme ls i) := by
  cases scheme with
  | contentOnly h =>
    obtain ⟨line, localHash, context⟩ := p
    cases line with
    | zero => simp [validate]
    | succ i =>
      cases hline : ls[i]? with
      | none => simp [validate, hline]
      | some line =>
        by_cases hlocal : localHash = encodeHash (lineHash line) h.len <;>
          simp [validate, hline, hlocal, contextAt, anchorAt, AnchorScheme.hashLen]
  | chunkFingerprint | checkpointChain =>
    simp [validate, validateWithContext_valid, contextAt, anchorAt, AnchorScheme.hashLen]

theorem validate_anchorAt {i : ℕ} {line : Text} (h : ls[i]? = some line) :
    validate scheme ⟨i + 1, (anchorAt scheme ls i line).localHash, contextAt scheme ls i⟩ ls =
      .valid :=
  validate_valid.mpr ⟨i, line, rfl, h, rfl, fun _ => rfl⟩

end Validation

section Reading

/-- The hashes of an anchor are some lowercase letters. -/
structure Lettered (a : Anchor) : Prop where
  localHash_ne : a.localHash ≠ []
  localHash_lower : a.localHash.all isAsciiLowercase = true
  context_ne : ∀ ctx, a.context = some ctx → ctx ≠ []
  context_lower : ∀ ctx, a.context = some ctx → ctx.all isAsciiLowercase = true

theorem AnchorScheme.hashLen_pos (scheme : AnchorScheme) : 0 < scheme.hashLen := by
  cases scheme <;> exact HashLen.pos _

theorem lettered_anchorAt (scheme : AnchorScheme) (ls : List Text) (i : ℕ) (line : Text) :
    Lettered (anchorAt scheme ls i line) where
  localHash_ne := encodeHash_ne_nil _ scheme.hashLen_pos
  localHash_lower := all_isAsciiLowercase_encodeHash _ _
  context_ne ctx h := by
    cases scheme with
    | contentOnly => cases h
    | chunkFingerprint hl | checkpointChain hl =>
      cases h
      exact encodeHash_ne_nil _ hl.pos
  context_lower ctx h := by
    cases scheme with
    | contentOnly => cases h
    | chunkFingerprint | checkpointChain =>
      cases h
      exact all_isAsciiLowercase_encodeHash _ _

/-- Whether a character may stand in an anchor. -/
def isAnchorChar (c : Char) : Bool := c.isDigit || isAsciiLowercase c || c = ':'

theorem not_mem_of_all {p : Char → Bool} {t : Text} {c : Char} (h : t.all p = true)
    (hc : p c = false) : c ∉ t := by
  intro hmem
  rw [List.all_eq_true.mp h c hmem] at hc
  cases hc

theorem all_isAnchorChar {a : Anchor} (h : Lettered a) (n : ℕ) :
    (digits n ++ ':' :: anchorSuffix a).all isAnchorChar = true := by
  have hlower : ∀ {t : Text}, t.all isAsciiLowercase = true → t.all isAnchorChar = true := by
    intro t ht
    rw [List.all_eq_true] at ht ⊢
    intro c hc
    simp [isAnchorChar, ht c hc]
  have hdigits : (digits n).all isAnchorChar = true := by
    rw [List.all_eq_true]
    intro c hc
    simp [isAnchorChar, isDigit_of_mem_digits hc]
  have hsuffix : (anchorSuffix a).all isAnchorChar = true := by
    unfold anchorSuffix
    split
    · rename_i ctx hctx
      rw [List.all_append, List.all_cons, hlower h.localHash_lower,
        hlower (h.context_lower ctx hctx)]
      rfl
    · exact hlower h.localHash_lower
  rw [List.all_append, List.all_cons, hdigits, hsuffix]
  rfl

/-- An anchor is read from its line number and its hashes. -/
theorem parse_anchor {a : Anchor} (h : Lettered a) {n : ℕ} (hpos : 0 < n)
    (hlt : n < usizeCount) :
    ParsedAnchor.parse (digits n ++ ':' :: anchorSuffix a) =
      some ⟨n, a.localHash, a.context⟩ := by
  have hcolon : ':' ∉ digits n := fun hmem => by
    have hdigit := isDigit_of_mem_digits hmem
    cases hdigit
  have hlocal : ':' ∉ a.localHash := not_mem_of_all h.localHash_lower rfl
  have hdigits : (digits n).isEmpty = false := List.isEmpty_eq_false_iff.mpr (digits_ne_nil n)
  have hne : a.localHash.isEmpty = false := List.isEmpty_eq_false_iff.mpr h.localHash_ne
  unfold ParsedAnchor.parse anchorSuffix
  cases hctx : a.context with
  | none =>
    simp [splitN, splitOnce_singleton_append hcolon, splitOnce_singleton_of_not_mem hlocal,
      parseUsize_digits hlt, hdigits, hne, h.localHash_lower, hpos.ne']
  | some ctx =>
    have hctxne : ctx.isEmpty = false :=
      List.isEmpty_eq_false_iff.mpr (h.context_ne ctx hctx)
    simp [splitN, splitOnce_singleton_append hcolon, splitOnce_singleton_append hlocal,
      parseUsize_digits hlt, hdigits, hne, h.localHash_lower, hpos.ne', hctxne,
      h.context_lower ctx hctx]

theorem splitOnce_cons_of_not_mem {c : Char} {t : Text} (h : c ∉ t) (pattern : Text) :
    splitOnce (c :: pattern) t = none := by
  induction t with
  | nil => rfl
  | cons d t ih =>
    obtain ⟨hne, hrest⟩ := List.ne_and_not_mem_of_not_mem_cons h
    simp [splitOnce, List.isPrefixOf, hne, ih hrest]

theorem stripArrow_of_all {t : Text} (h : t.all isAnchorChar = true) : stripArrow t = t := by
  unfold stripArrow
  rw [splitOnce_cons_of_not_mem (not_mem_of_all h rfl),
    splitOnce_cons_of_not_mem (not_mem_of_all h rfl)]
  rfl

theorem stripArrow_append {t : Text} (h : t.all isAnchorChar = true) (rest : Text) :
    stripArrow (t ++ arrow :: rest) = t := by
  unfold stripArrow
  rw [splitOnce_singleton_append (not_mem_of_all h rfl)]
  rfl

end Reading

end Ezer.Hashline
