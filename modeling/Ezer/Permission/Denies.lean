import Ezer.Permission.Decision
import Ezer.Permission.Remember

/-!
# Remembered denies

A remembered deny that a segment equals or extends rejects the whole script,
whatever was granted and wherever the segment stands. The label of a deny is
made of the first words of the primary command, which is one of the segments
the deny is compared with.
-/

namespace Ezer.Permission

open Ezer.Lib

section

variable {parse : ShellParser} {glob : GlobCompiler} {cmd : Text} {state : PermissionState}
variable {honorSafeLists : Bool} {yoloPin : Option Text} {opts : BashGrantOpts}

/-- A script with a denied segment is rejected. -/
theorem rejects_of_denied_segment {parsed : ParsedShell} {segments : List PlainCommand}
    (hparse : parse cmd = some parsed) (hsegments : parsed.segments = some segments)
    {segment : PlainCommand} (hmem : segment ∈ segments)
    (hsetup : isSetupCommand (unwrapWrappers segment.words) = false) {denied : Text}
    (hdenied : denied ∈ state.disallowedBashCommands)
    (hmatch : matchesCommandPrefix (joinWords (unwrapWrappers segment.words)) denied = true) :
    ∃ reason, preDecision parse glob cmd state honorSafeLists yoloPin opts =
      some (.reject reason, .sessionDeny) := by
  unfold preDecision
  rw [evaluateBash_of_segments hparse hsegments]
  cases hloop : (evaluateSegments glob state honorSafeLists (startLoop parsed) segments).2 with
  | none =>
    have hnone := (evaluateSegments_snd_eq_none_iff _ _).mp hloop segment hmem
    have hdeny : ∃ found, segmentVerdict glob state honorSafeLists (unwrapWrappers segment.words) =
        .deny found := (segmentVerdict_deny_iff _).mpr ⟨hsetup, denied, hdenied, hmatch⟩
    obtain ⟨found, hfound⟩ := hdeny
    exact absurd hfound (hnone found)
  | some found =>
    refine ⟨denyReason found, ?_⟩
    unfold bashGrantPreDecision
    rw [evaluateDecomposed_of_deny hloop]

theorem joinWords_cons {rest : List Text} (word : Text) (h : rest ≠ []) :
    joinWords (word :: rest) = word ++ ' ' :: joinWords rest := by
  obtain ⟨next, others, rfl⟩ := List.exists_cons_of_ne_nil h
  unfold joinWords
  rw [List.intercalate_cons_cons]
  simp

theorem joinWords_append {first rest : List Text} (hfirst : first ≠ []) (hrest : rest ≠ []) :
    joinWords (first ++ rest) = joinWords first ++ ' ' :: joinWords rest := by
  induction first with
  | nil => contradiction
  | cons word others ih =>
    by_cases h : others = []
    · subst h
      rw [List.singleton_append, joinWords_cons word hrest]
      simp [joinWords]
    · rw [List.cons_append, joinWords_cons word (List.append_ne_nil_of_left_ne_nil h rest), ih h,
        joinWords_cons word h, List.append_assoc, List.cons_append]

theorem matchesCommandPrefix_joinWords_take {words : List Text} {n : ℕ} (hn : 1 ≤ n)
    (hwords : words ≠ []) :
    matchesCommandPrefix (joinWords words) (joinWords (words.take n)) = true := by
  unfold matchesCommandPrefix startsWith
  rw [Bool.or_eq_true, beq_iff_eq, List.isPrefixOf_iff_prefix]
  by_cases hrest : words.drop n = []
  · left
    rw [List.take_of_length_le (List.drop_eq_nil_iff.mp hrest)]
  · right
    have hfirst : words.take n ≠ [] := by
      rw [Ne, List.take_eq_nil_iff]
      rintro (hzero | hnil)
      · omega
      · exact hwords hnil
    refine ⟨joinWords (words.drop n), ?_⟩
    rw [List.append_assoc, List.singleton_append, ← joinWords_append hfirst hrest,
      List.take_append_drop]

/-- The primary command is a segment of the script that prepares for nothing. -/
theorem primary_segment {h : BashCommandHighlights} (hprimary : primaryCommandFromScript parse cmd = some h) :
    ∃ parsed segments segment, parse cmd = some parsed ∧ parsed.segments = some segments ∧
      segment ∈ segments ∧ isSetupCommand h.highlightedWords = false ∧
        h.highlightedWords = unwrapWrappers segment.words := by
  unfold primaryCommandFromScript allCommandsFromScript at hprimary
  cases hparse : parse cmd with
  | none => rw [hparse] at hprimary; contradiction
  | some parsed =>
    rw [hparse, Option.bind_some] at hprimary
    cases hsegments : parsed.segments with
    | none => rw [hsegments] at hprimary; contradiction
    | some segments =>
      simp only [hsegments] at hprimary
      cases hfind : segments.find? isPrimary with
      | none => rw [hfind] at hprimary; contradiction
      | some segment =>
        simp only [hfind] at hprimary
        have hwords : h.highlightedWords = unwrapWrappers segment.words := by
          split at hprimary
          · rw [Option.some.injEq] at hprimary
            rw [← hprimary]
          · contradiction
        refine ⟨parsed, segments, segment, rfl, hsegments, List.mem_of_find?_eq_some hfind, ?_, hwords⟩
        rw [hwords]
        simpa only [isPrimary, Bool.not_eq_true'] using List.find?_some hfind

theorem rejects_of_recorded_deny {h : BashCommandHighlights}
    (hprimary : primaryCommandFromScript parse cmd = some h) {n : ℕ} (hn : 1 ≤ n) :
    ∃ reason, preDecision parse glob cmd
      (recordPromptOutcome parse glob state cmd
        (.rejectAlwaysBashCommand (joinWords (h.highlightedWords.take n)))).1
      honorSafeLists yoloPin opts = some (.reject reason, .sessionDeny) := by
  obtain ⟨parsed, segments, segment, hparse, hsegments, hmem, hsetup, hwords⟩ :=
    primary_segment hprimary
  have hne : h.highlightedWords ≠ [] := by
    intro hnil
    rw [hnil] at hsetup
    contradiction
  have hmatch := matchesCommandPrefix_joinWords_take hn hne
  rw [hwords] at hsetup hmatch
  apply rejects_of_denied_segment hparse hsegments hmem hsetup _ hmatch
  rw [hwords]
  exact List.mem_insert_self

end

/--
A remembered deny that a segment equals or extends rejects the script, whatever
else was remembered, and a deny labelled by the first words of the primary
command rejects the script it was given for.
-/
theorem remembered_deny_rejects (parse : ShellParser) (glob : GlobCompiler) (cmd : Text)
    (state : PermissionState) (honorSafeLists : Bool) (yoloPin : Option Text)
    (opts : BashGrantOpts) :
    (∀ parsed segments, parse cmd = some parsed → parsed.segments = some segments →
      ∀ segment ∈ segments, isSetupCommand (unwrapWrappers segment.words) = false →
        ∀ denied ∈ state.disallowedBashCommands,
          matchesCommandPrefix (joinWords (unwrapWrappers segment.words)) denied = true →
            ∃ reason, preDecision parse glob cmd state honorSafeLists yoloPin opts =
              some (.reject reason, .sessionDeny)) ∧
    ∀ h, primaryCommandFromScript parse cmd = some h → ∀ n, 1 ≤ n →
      ∃ reason, preDecision parse glob cmd
        (recordPromptOutcome parse glob state cmd
          (.rejectAlwaysBashCommand (joinWords (h.highlightedWords.take n)))).1
        honorSafeLists yoloPin opts = some (.reject reason, .sessionDeny) := by
  constructor
  · intro parsed segments hparse hsegments segment hmem hsetup denied hdenied hmatch
    exact rejects_of_denied_segment hparse hsegments hmem hsetup hdenied hmatch
  · intro h hprimary n hn
    exact rejects_of_recorded_deny hprimary hn

/-- The parse of `cd a; npm test b`. -/
def chainedTest : ParsedShell where
  segments := some
    [{ words := ["cd".toList, "a".toList], spanStart := 0, spanEnd := 4 },
      { words := ["npm".toList, "test".toList, "b".toList], spanStart := 6, spanEnd := 16 }]
  complete := true
  statements := []
  writes :=
    { unextractedWriteRedirect := false, redirectPaths := [], wordPaths := [],
      creationPaths := [] }
  hasCwdChange := true
  assignmentKeys := []
  opaqueShell := false

theorem chainedTest_rejected :
    ∃ reason, preDecision (fun _ => some chainedTest) (fun _ => none) "cd a; npm test b".toList
      (recordPromptOutcome (fun _ => some chainedTest) (fun _ => none)
        { PermissionState.default with
          allowBashExecute := true, allowedBashCommands := ["npm test".toList] }
        "cd a; npm test b".toList (.rejectAlwaysBashCommand "npm test".toList)).1
      true none .preClassifier = some (.reject reason, .sessionDeny) :=
  (remembered_deny_rejects (fun _ => some chainedTest) (fun _ => none) "cd a; npm test b".toList
    { PermissionState.default with
      allowBashExecute := true, allowedBashCommands := ["npm test".toList] }
    true none .preClassifier).2
    { before := ["cd".toList, "a;".toList]
      highlightedWords := ["npm".toList, "test".toList, "b".toList]
      after := [] } (by decide +kernel) 2 (by decide)

end Ezer.Permission
