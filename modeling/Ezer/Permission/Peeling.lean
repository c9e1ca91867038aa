import Ezer.Permission.Commands

/-!
# Peeled words

The bounded peel takes off wrappers only, and where it does not report that its
bound was reached nothing is left to peel. A segment on which the bound was
reached is an execution risk. A command that only prepares for another is never
a dangerous one.
-/

namespace Ezer.Permission

open Ezer.Lib

@[simp] theorem noteEnv_words (peel : CheckedWrapperPeel) : peel.noteEnv.words = peel.words := by
  unfold CheckedWrapperPeel.noteEnv
  split <;> rfl

theorem unwrapWrappersFrom_words (n : ℕ) (peel : CheckedWrapperPeel) :
    (unwrapWrappersFrom n peel).words = peelUpTo stripWrapperCommand n peel.words := by
  induction n generalizing peel with
  | zero => rfl
  | succ n ih =>
    unfold unwrapWrappersFrom
    cases h : stripWrapperCommand peel.words with
    | none =>
      rw [peelUpTo_of_none h]
      exact noteEnv_words peel
    | some inner => rw [peelUpTo_succ_of_some h]; exact ih _

theorem unwrapWrappers_eq (words : List Text) :
    unwrapWrappers words = peelUpTo stripWrapperCommand maxWrapperDepth words :=
  unwrapWrappersFrom_words maxWrapperDepth _

theorem isWrapperCommand_of_strip {words inner : List Text}
    (h : stripWrapperCommand words = some inner) : isWrapperCommand words = true := by
  unfold stripWrapperCommand at h
  unfold isWrapperCommand
  cases hw : headWrapper words with
  | none => rw [hw] at h; contradiction
  | some wrapper => rfl

/-- Where the bound was not reached, no wrapper is left. -/
theorem strip_unwrapWrappersFrom {n : ℕ} {peel : CheckedWrapperPeel}
    (h : (unwrapWrappersFrom n peel).exhausted = false) :
    stripWrapperCommand (unwrapWrappersFrom n peel).words = none := by
  induction n generalizing peel with
  | zero =>
    simp only [unwrapWrappersFrom, Bool.and_eq_false_iff] at h ⊢
    cases hs : stripWrapperCommand peel.words with
    | none => rfl
    | some inner =>
      rw [hs, isWrapperCommand_of_strip hs] at h
      simp at h
  | succ n ih =>
    unfold unwrapWrappersFrom at h ⊢
    cases hs : stripWrapperCommand peel.words with
    | none =>
      change stripWrapperCommand peel.noteEnv.words = none
      rw [noteEnv_words]
      exact hs
    | some inner =>
      rw [hs] at h
      exact ih h

/-- Where the bound was not reached, the peeled words are what all peeling leaves. -/
theorem Peels.eq_unwrapWrappers {words inner : List Text}
    (hexhausted : (unwrapWrappersChecked words).exhausted = false)
    (hpeels : Peels stripWrapperCommand words inner) (hinner : stripWrapperCommand inner = none) :
    inner = unwrapWrappers words := by
  rw [unwrapWrappers_eq]
  apply hpeels.eq_peelUpTo hinner
  rw [← unwrapWrappers_eq]
  exact strip_unwrapWrappersFrom hexhausted

/-- A segment with more wrappers than are peeled is an execution risk. -/
theorem execRisk_of_exhausted {words : List Text}
    (h : (unwrapWrappersChecked words).exhausted = true) :
    (segmentExecFacts words).execRisk = true := by
  have hclosed : normalizeForExecRisk words = .failClosed := by
    change normalizeForExecRiskFrom (15 + 1) words = .failClosed
    unfold normalizeForExecRiskFrom
    simp only [h, Bool.true_or, if_true]
  unfold segmentExecFacts
  rw [hclosed]

theorem envScanFrom_commandStart (scan : EnvScan) (words : List Text) :
    scan.commandStart ≤ (envScanFrom scan words).commandStart := by
  fun_induction envScanFrom scan words <;> simp_all <;> omega

theorem length_skipOptions (takesValue words : List Text) :
    (skipOptions takesValue words).length ≤ words.length := by
  fun_induction skipOptions takesValue words <;> simp_all <;> omega

theorem length_lt_of_strip {words inner : List Text} (h : stripWrapperCommand words = some inner) :
    inner.length < words.length := by
  unfold stripWrapperCommand at h
  cases hw : headWrapper words with
  | none => rw [hw] at h; contradiction
  | some wrapper =>
    have hne : words ≠ [] := by
      rintro rfl
      contradiction
    have hpos : 0 < words.length := List.length_pos_iff.mpr hne
    rw [hw] at h
    simp only [Option.ite_none_left_eq_some, Option.some.injEq] at h
    obtain ⟨hinner, rfl⟩ := h
    have hrest := length_skipOptions wrapper.takesValue words.tail
    rw [List.length_tail] at hrest
    unfold Wrapper.inner
    split
    · dsimp only
      split
      · exact hpos
      · have hstart := envScanFrom_commandStart
          { chdir := none, hasSplitString := false, optionsUncertain := false,
            splitStringScript := none, commandStart := 1 } words.tail
        simp only [List.length_drop]
        change 1 ≤ (envScan words).commandStart at hstart
        omega
    · dsimp only
      split
      · rw [List.length_tail]; omega
      · omega

/-- Every segment has fully peeled words. -/
theorem exists_fullyPeeled (words : List Text) :
    ∃ inner, Peels stripWrapperCommand words inner ∧ stripWrapperCommand inner = none :=
  exists_peels_none List.length (fun _ _ => length_lt_of_strip) words

theorem prefix_of_matchesCommandPrefix {cmd pattern : Text}
    (h : matchesCommandPrefix cmd pattern = true) : pattern <+: cmd := by
  unfold matchesCommandPrefix startsWith at h
  rw [Bool.or_eq_true, beq_iff_eq, List.isPrefixOf_iff_prefix] at h
  cases h with
  | inl h => exact ⟨[], by rw [List.append_nil, h]⟩
  | inr h => exact (List.prefix_append pattern [' ']).trans h

theorem head_prefix_normalizedJoin (head : Text) (words : List Text) :
    head <+: normalizedJoin head words := by
  unfold normalizedJoin
  split
  · exact List.prefix_rfl
  · exact List.prefix_append head _

theorem take_eq_of_isPrefix {short long : Text} {n : ℕ} (h : short <+: long) (hn : n ≤ short.length) :
    short.take n = long.take n := by
  obtain ⟨rest, rfl⟩ := h
  exact (List.take_append_of_le_length hn).symm

/-- The first two letters of a command name. -/
def lettersOf (names : List Text) : List Text := names.map (List.take 2)

theorem letters_disjoint :
    ∀ name ∈ setupCommands, 2 ≤ (normalizedTokenBasename name).length ∧
      (normalizedTokenBasename name).take 2 ∉ lettersOf dangerousCommands := by
  decide +kernel

theorem two_le_length_of_dangerous : ∀ pattern ∈ dangerousCommands, 2 ≤ pattern.length := by
  decide +kernel

/-- A command that only prepares for another is not dangerous. -/
theorem not_dangerous_of_setup {words : List Text} (h : isSetupCommand words = true) :
    isDangerousCommandWords words = false := by
  cases words with
  | nil => rfl
  | cons program args =>
    have hmem : program ∈ setupCommands := by
      simpa only [isSetupCommand, decide_eq_true_eq] using h
    obtain ⟨hlength, hletters⟩ := letters_disjoint program hmem
    rw [Bool.eq_false_iff]
    intro hdangerous
    simp only [isDangerousCommandWords, normalizedCommandHead, List.head?_cons, Option.map_some,
      List.any_eq_true] at hdangerous
    obtain ⟨pattern, hpattern, hmatch⟩ := hdangerous
    apply hletters
    rw [take_eq_of_isPrefix (head_prefix_normalizedJoin _ (program :: args)) hlength,
      ← take_eq_of_isPrefix (prefix_of_matchesCommandPrefix hmatch)
        (two_le_length_of_dangerous pattern hpattern)]
    exact List.mem_map_of_mem hpattern

end Ezer.Permission
