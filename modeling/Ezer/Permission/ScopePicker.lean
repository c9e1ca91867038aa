import Ezer.Permission.Denies
import Mathlib.Algebra.GroupWithZero.Nat

/-!
# The scopes of the always-allow row

The picker asks for each number of words whether a grant of that scope would be
kept, and the answer comes back as the join of those words. Joins of different
scopes differ, so the label names its scope, and writing the answer keeps a key
at exactly the scopes the picker offers.
-/

namespace Ezer.Permission

open Ezer.Lib

section

variable {words : List Text} {m n : ℕ}

/-- A wider scope has a longer label. -/
theorem length_joinWords_take_lt (hm : 1 ≤ m) (hmn : m < n) (hn : n ≤ words.length) :
    (joinWords (words.take m)).length < (joinWords (words.take n)).length := by
  have hsplit : words.take n = words.take m ++ (words.take n).drop m := by
    have htake : (words.take n).take m = words.take m := by
      rw [List.take_take, Nat.min_eq_left hmn.le]
    rw [← htake, List.take_append_drop]
  have hfirst : words.take m ≠ [] := by
    apply List.ne_nil_of_length_pos
    rw [List.length_take]
    omega
  have hrest : (words.take n).drop m ≠ [] := by
    apply List.ne_nil_of_length_pos
    rw [List.length_drop, List.length_take]
    omega
  rw [hsplit, joinWords_append hfirst hrest, List.length_append, List.length_cons]
  omega

/-- The label of a scope names the scope. -/
theorem joinWords_take_inj (hm : 1 ≤ m) (hmlen : m ≤ words.length) (hn : 1 ≤ n)
    (hnlen : n ≤ words.length) (h : joinWords (words.take m) = joinWords (words.take n)) :
    m = n := by
  rcases Nat.lt_trichotomy m n with hlt | heq | hlt
  · have hlen := length_joinWords_take_lt hm hlt hnlen
    rw [h] at hlen
    omega
  · exact heq
  · have hlen := length_joinWords_take_lt hn hlt hmlen
    rw [h] at hlen
    omega

/-- The narrowest scope of a command has a word and no more words than the command. -/
theorem minimumAlwaysAllowScope_bounds (h : words ≠ []) :
    1 ≤ minimumAlwaysAllowScope words ∧ minimumAlwaysAllowScope words ≤ words.length := by
  have hpos : 1 ≤ words.length := List.length_pos_of_ne_nil h
  unfold minimumAlwaysAllowScope ghAlwaysAllowScope
  split
  · exact ⟨hpos, le_rfl⟩
  · split
    · split
      · rename_i group verb hgroup hverb
        have hthree : 2 < words.length := (List.getElem?_eq_some_iff.mp hverb).1
        split
        · exact ⟨by simp, hthree⟩
        · exact ⟨hpos, le_rfl⟩
      · exact ⟨hpos, le_rfl⟩
    · exact ⟨by simp, by simpa using hpos⟩

theorem mem_scopesBetween {low high : ℕ} : n ∈ scopesBetween low high ↔ low ≤ n ∧ n ≤ high := by
  simp [scopesBetween, Nat.lt_succ_iff, and_comm]

end

section

variable {parse : ShellParser} {cmd : Text} {h : BashCommandHighlights} {n : ℕ}

theorem verified_label_iff (parse : ShellParser) (hn : 1 ≤ n) (hlen : n ≤ h.highlightedWords.length) :
    ((scopesBetween (minimumAlwaysAllowScope h.highlightedWords)
        h.highlightedWords.length).any fun m =>
      wordsJoinUnambiguously parse (h.highlightedWords.take m) &&
        joinWords (h.highlightedWords.take m) ==
          joinWords (h.highlightedWords.take n)) = true ↔
      minimumAlwaysAllowScope h.highlightedWords ≤ n ∧
        wordsJoinUnambiguously parse (h.highlightedWords.take n) = true := by
  have hwords : h.highlightedWords ≠ [] := by
    apply List.ne_nil_of_length_pos
    omega
  obtain ⟨hmin, -⟩ := minimumAlwaysAllowScope_bounds hwords
  rw [List.any_eq_true]
  constructor
  · rintro ⟨m, hmem, hm⟩
    obtain ⟨hlow, hhigh⟩ := mem_scopesBetween.mp hmem
    rw [Bool.and_eq_true, beq_iff_eq] at hm
    obtain rfl := joinWords_take_inj (by omega) hhigh hn hlen hm.2
    exact ⟨hlow, hm.1⟩
  · rintro ⟨hlow, hjoin⟩
    refine ⟨n, mem_scopesBetween.mpr ⟨hlow, hlen⟩, ?_⟩
    rw [Bool.and_eq_true, beq_iff_eq]
    exact ⟨hjoin, rfl⟩

/-- The label of a scope is that of the whole command only for the whole command. -/
theorem joinWords_eq_take_iff (hn : 1 ≤ n) (hlen : n ≤ h.highlightedWords.length) :
    (joinWords h.highlightedWords == joinWords (h.highlightedWords.take n)) = true ↔
      n = h.highlightedWords.length := by
  rw [beq_iff_eq]
  constructor
  · intro heq
    refine joinWords_take_inj hn hlen (by omega) le_rfl ?_
    rw [List.take_length]
    exact heq.symm
  · rintro rfl
    rw [List.take_length]

theorem isSome_bashAlwaysAllowKey (hprimary : primaryCommandFromScript parse cmd = some h)
    (hn : 1 ≤ n) (hlen : n ≤ h.highlightedWords.length) :
    (bashAlwaysAllowKey parse cmd (joinWords (h.highlightedWords.take n))).isSome =
      alwaysAllowScopePersists parse h n := by
  have hwords : h.highlightedWords ≠ [] := by
    apply List.ne_nil_of_length_pos
    omega
  obtain ⟨-, hmax⟩ := minimumAlwaysAllowScope_bounds hwords
  have hlabel := verified_label_iff parse hn hlen
  have hwhole := joinWords_eq_take_iff hn hlen
  have hscope : alwaysAllowScopePersists parse h n = true ↔
      minimumAlwaysAllowScope h.highlightedWords ≤ n ∧
        (wordsJoinUnambiguously parse (h.highlightedWords.take n) = true ∨
          (n = h.highlightedWords.length ∧ h.before.isEmpty = true) ∧
            h.after.isEmpty = true) := by
    have hzero : n ≠ 0 := by omega
    simp only [alwaysAllowScopePersists, Bool.and_eq_true, Bool.or_eq_true, bne_iff_ne, ne_eq,
      hzero, not_false_eq_true, true_and, decide_eq_true_eq, beq_iff_eq, hlen]
  rw [Bool.eq_iff_iff, hscope]
  simp only [bashAlwaysAllowKey, hprimary]
  split
  · rename_i hverified
    obtain ⟨hmin, hjoin⟩ := hlabel.mp hverified
    simp [hmin, hjoin]
  · rename_i hverified
    rw [hlabel] at hverified
    split
    · rename_i hraw
      rw [Bool.and_eq_true, Bool.and_eq_true, hwhole] at hraw
      obtain ⟨⟨hbefore, hafter⟩, rfl⟩ := hraw
      simp [hmax, hbefore, hafter]
    · rename_i hraw
      rw [Bool.and_eq_true, Bool.and_eq_true, hwhole] at hraw
      simp only [Option.isSome_none, Bool.false_eq_true, false_iff]
      rintro ⟨hmin, hjoin | ⟨⟨hall, hbefore⟩, hafter⟩⟩
      · exact hverified ⟨hmin, hjoin⟩
      · exact hraw ⟨⟨hbefore, hafter⟩, hall⟩

/-- Answering with the label of a scope keeps a key, whatever is remembered
already, exactly when the picker offers that scope; otherwise nothing changes. -/
theorem persistBashAlwaysAllow_iff_scopePersists
    (hprimary : primaryCommandFromScript parse cmd = some h) (hn : 1 ≤ n)
    (hlen : n ≤ h.highlightedWords.length) :
    ((∃ key, ∀ state, persistBashAlwaysAllow parse state cmd
          (joinWords (h.highlightedWords.take n)) = state.allowCommand key) ↔
        alwaysAllowScopePersists parse h n = true) ∧
      (alwaysAllowScopePersists parse h n = false →
        ∀ state, persistBashAlwaysAllow parse state cmd
          (joinWords (h.highlightedWords.take n)) = state) := by
  have hkey := isSome_bashAlwaysAllowKey hprimary hn hlen
  unfold persistBashAlwaysAllow
  rw [← hkey]
  cases bashAlwaysAllowKey parse cmd (joinWords (h.highlightedWords.take n)) with
  | some key =>
    refine ⟨⟨fun _ => rfl, fun _ => ⟨key, fun state => rfl⟩⟩, ?_⟩
    intro hnone
    cases hnone
  | none =>
    refine ⟨⟨?_, ?_⟩, fun _ state => rfl⟩
    · rintro ⟨key, hwritten⟩
      have hempty := congrArg PermissionState.allowedBashCommands (hwritten .default)
      simp [PermissionState.allowCommand, PermissionState.default] at hempty
    · intro hsome
      cases hsome

end

/-- The parse of a script of plain words. -/
def parsePlainWords (script : Text) : Option ParsedShell :=
  some
    { segments := some
        [{ words := shSplitSimple script
           spanStart := 0
           spanEnd := (script.map Char.utf8Size).sum }]
      complete := true
      statements := []
      writes :=
        { unextractedWriteRedirect := false, redirectPaths := [], wordPaths := [],
          creationPaths := [] }
      hasCwdChange := false
      assignmentKeys := []
      opaqueShell := false }

/-- For `git show x`, the scope of two words is offered and kept. -/
theorem gitShow_scope_kept :
    ∃ key, ∀ state, persistBashAlwaysAllow parsePlainWords state "git show x".toList
      (joinWords (["git".toList, "show".toList, "x".toList].take 2)) = state.allowCommand key := by
  have hprimary : primaryCommandFromScript parsePlainWords "git show x".toList =
      some ⟨[], ["git".toList, "show".toList, "x".toList], []⟩ := by decide +kernel
  exact (persistBashAlwaysAllow_iff_scopePersists hprimary (by decide) (by decide)).1.mpr
    (by decide +kernel)

end Ezer.Permission
