import Ezer.Markdown.Turns

/-!
# Normalizing in chunks

What is held back is read again as it would have been read with the text that
follows it, so that the chunks a text arrives in do not change the result.
-/

namespace Ezer.Markdown

open Lib

/-- What the loop gives where a text was emitted before. -/
def emittedBefore (out : Text) (result : Option (Text × Text × Mode)) :
    Option (Text × Text × Mode) :=
  result.map fun (more, held, mode) => (out ++ more, held, mode)

theorem emittedBefore_nil (result : Option (Text × Text × Mode)) :
    emittedBefore [] result = result := by
  cases result <;> rfl

theorem emittedBefore_append (out more : Text) (result : Option (Text × Text × Mode)) :
    emittedBefore (out ++ more) result = emittedBefore out (emittedBefore more result) := by
  cases result with
  | none => rfl
  | some result => exact congrArg some (Prod.ext (List.append_assoc out more result.1) rfl)

/-- What the loop gives from a turn on. -/
def Turn.outcome (mode : Mode) (finalFlush : Bool) : Turn → Option (Text × Text × Mode)
  | .misaligned => none
  | .stop out held => some (out, held, mode)
  | .go out rest mode => emittedBefore out (process rest mode finalFlush)

section Process

variable {rest : Text} {mode : Mode}

theorem process_nil (mode : Mode) (finalFlush : Bool) :
    process [] mode finalFlush = some ([], [], mode) := rfl

theorem processFor_eq {fuel : ℕ} (hmode : mode.Ascii) (hfuel : rest.length ≤ fuel)
    (finalFlush : Bool) : processFor finalFlush fuel rest mode = process rest mode finalFlush := by
  induction hlen : rest.length using Nat.strong_induction_on generalizing rest mode fuel with
  | _ len ih =>
    cases rest with
    | nil =>
      cases fuel <;> rfl
    | cons c cs =>
      cases fuel with
      | zero => cases hfuel
      | succ fuel =>
        rw [process, List.length_cons, processFor, processFor]
        have hmoves := turn_moves finalFlush hmode (List.cons_ne_nil c cs)
        cases hturn : turn (c :: cs) mode finalFlush with
        | misaligned => rfl
        | stop out held => rfl
        | go out rest' mode' =>
          rw [hturn] at hmoves
          obtain ⟨hshort, hmode'⟩ := hmoves
          rw [List.length_cons] at hshort hfuel hlen
          dsimp only
          rw [ih _ (by omega) hmode' (by omega) rfl, ih _ (by omega) hmode' (by omega) rfl]

theorem process_eq (hmode : mode.Ascii) (hne : rest ≠ []) (finalFlush : Bool) :
    process rest mode finalFlush = (turn rest mode finalFlush).outcome mode finalFlush := by
  cases rest with
  | nil => exact (hne rfl).elim
  | cons c cs =>
    rw [process, List.length_cons, processFor]
    have hmoves := turn_moves finalFlush hmode hne
    cases hturn : turn (c :: cs) mode finalFlush with
    | misaligned => rfl
    | stop out held => rfl
    | go out rest' mode' =>
      rw [hturn] at hmoves
      obtain ⟨hshort, hmode'⟩ := hmoves
      rw [List.length_cons] at hshort
      dsimp only
      rw [processFor_eq hmode' (Nat.le_of_lt_succ hshort)]
      rfl

theorem Turn.outcome_emitBefore (out : Text) (t : Turn) (mode : Mode) (finalFlush : Bool) :
    (t.emitBefore out).outcome mode finalFlush = emittedBefore out (t.outcome mode finalFlush) := by
  cases t with
  | misaligned => rfl
  | stop more held => rfl
  | go more rest mode' => exact emittedBefore_append out more _

/-- The loop cuts no character, and without more text to come it holds nothing back. -/
theorem exists_process (rest : Text) (hmode : mode.Ascii) (finalFlush : Bool) :
    ∃ out held mode', process rest mode finalFlush = some (out, held, mode') ∧ mode'.Ascii ∧
      (finalFlush = true → held = []) := by
  induction hlen : rest.length using Nat.strong_induction_on generalizing rest mode with
  | _ len ih =>
    by_cases hne : rest = []
    · rw [hne]
      exact ⟨[], [], mode, rfl, hmode, fun _ => rfl⟩
    · have hmoves := turn_moves finalFlush hmode hne
      rw [process_eq hmode hne]
      cases hturn : turn rest mode finalFlush with
      | misaligned =>
        rw [hturn] at hmoves
        exact hmoves.elim
      | stop out held =>
        rw [hturn] at hmoves
        refine ⟨out, held, mode, rfl, hmode, fun hflush => ?_⟩
        rw [hflush] at hmoves
        cases hmoves
      | go out rest' mode' =>
        rw [hturn] at hmoves
        obtain ⟨hshort, hmode'⟩ := hmoves
        have hlt : rest'.length < len := by omega
        obtain ⟨more, held, mode'', hprocess, hascii, hheld⟩ := ih _ hlt rest' hmode' rfl
        refine ⟨out ++ more, held, mode'', ?_, hascii, hheld⟩
        rw [Turn.outcome, hprocess]
        rfl

/-- What was held back is read on as it would have been at once. -/
theorem process_append {out held : Text} {mode' : Mode} (hmode : mode.Ascii)
    (h : process rest mode false = some (out, held, mode')) (ext : Text) (finalFlush : Bool) :
    process (rest ++ ext) mode finalFlush =
      emittedBefore out (process (held ++ ext) mode' finalFlush) := by
  induction hlen : rest.length using Nat.strong_induction_on generalizing rest mode out with
  | _ len ih =>
    by_cases hne : rest = []
    · rw [hne, process_nil] at h
      cases h
      rw [hne, emittedBefore_nil]
    · have hmoves := turn_moves false hmode hne
      have hfollows := turn_follows mode hne ext finalFlush
      rw [process_eq hmode hne] at h
      have hlonger : process (rest ++ ext) mode finalFlush =
          (turn (rest ++ ext) mode finalFlush).outcome mode finalFlush :=
        process_eq hmode (fun hnil => hne (List.append_eq_nil_iff.mp hnil).1) finalFlush
      cases hturn : turn rest mode false with
      | misaligned =>
        rw [hturn] at h
        cases h
      | stop out' held' =>
        rw [hturn] at h hfollows
        cases h
        rcases hfollows with ⟨rfl, rfl⟩ | ⟨hheld, hfollows⟩
        · rw [emittedBefore_nil]
        · have hheld' : held ++ ext ≠ [] := fun hnil => hheld (List.append_eq_nil_iff.mp hnil).1
          rw [hlonger, hfollows, Turn.outcome_emitBefore, ← process_eq hmode hheld']
      | go out' rest' mode'' =>
        rw [hturn] at h hfollows hmoves
        obtain ⟨hshort, hmode''⟩ := hmoves
        obtain ⟨⟨more, _, _⟩, hprocess, heq⟩ := Option.map_eq_some_iff.mp h
        cases heq
        have hrest := ih _ (by omega) hmode'' hprocess rfl
        have hgo : (turn (rest ++ ext) mode finalFlush).outcome mode finalFlush =
            emittedBefore out' (process (rest' ++ ext) mode'' finalFlush) := by
          rcases hfollows with hfollows | ⟨hfollows, hgoesOn, hnil⟩
          · rw [hfollows]
            rfl
          · rw [hfollows, Turn.outcome_emitBefore]
            by_cases hrest' : rest' ++ ext = []
            · rw [hrest', hnil hrest']
              rfl
            · rw [process_eq hmode'' hrest']
              rcases hgoesOn with rfl | hgoesOn
              · rfl
              · cases hnext : turn (rest' ++ ext) mode'' finalFlush with
                | misaligned => rfl
                | stop more' held' =>
                  rw [hnext] at hgoesOn
                  exact hgoesOn.elim
                | go more' rest'' mode''' => rfl
        rw [hlonger, hgo, hrest, emittedBefore_append]

end Process

namespace LatexDelimiterNormalizer

theorem exists_pushAll (chunks : List Text) (nz : LatexDelimiterNormalizer)
    (hmode : nz.mode.Ascii) :
    ∃ out nz', nz.pushAll chunks = some (out, nz') ∧ nz'.mode.Ascii ∧
      process (nz.pending ++ chunks.flatten) nz.mode true =
        emittedBefore out (process nz'.pending nz'.mode true) := by
  induction chunks generalizing nz with
  | nil =>
    refine ⟨[], nz, rfl, hmode, ?_⟩
    rw [List.flatten_nil, List.append_nil, emittedBefore_nil]
  | cons chunk chunks ih =>
    obtain ⟨out, nz', hpush, hmode', hprocess⟩ :
        ∃ out nz', nz.push chunk = some (out, nz') ∧ nz'.mode.Ascii ∧
          process (nz.pending ++ chunk ++ chunks.flatten) nz.mode true =
            emittedBefore out (process (nz'.pending ++ chunks.flatten) nz'.mode true) := by
      rw [push]
      cases chunk with
      | nil =>
        refine ⟨[], nz, rfl, hmode, ?_⟩
        rw [List.append_nil, emittedBefore_nil]
      | cons c chunk =>
        obtain ⟨out, held, mode', hprocess, hmode', -⟩ :=
          exists_process (nz.pending ++ c :: chunk) hmode false
        refine ⟨out, ⟨mode', held⟩, ?_, hmode', process_append hmode hprocess _ true⟩
        rw [hprocess]
        rfl
    obtain ⟨more, nz'', hall, hmode'', hrest⟩ := ih nz' hmode'
    refine ⟨out ++ more, nz'', ?_, hmode'', ?_⟩
    · simp [pushAll, hpush, hall]
    · rw [List.flatten_cons, ← List.append_assoc, hprocess, hrest, emittedBefore_append]

/-- The final flush consumes what is held back. -/
theorem exists_finish {nz : LatexDelimiterNormalizer} (hmode : nz.mode.Ascii) :
    ∃ out nz' mode', nz.finish = some (out, nz') ∧
      process nz.pending nz.mode true = some (out, [], mode') := by
  obtain ⟨mode, pending⟩ := nz
  cases pending with
  | nil => exact ⟨[], ⟨mode, []⟩, mode, rfl, rfl⟩
  | cons c pending =>
    obtain ⟨out, held, mode', hprocess, -, hheld⟩ :=
      exists_process (c :: pending) hmode true
    rw [hheld rfl] at hprocess
    refine ⟨out, ⟨mode', []⟩, mode', ?_, hprocess⟩
    rw [finish]
    dsimp only
    rw [hprocess]
    rfl

theorem exists_normalizeChunks (chunks : List Text) :
    ∃ out mode', normalizeChunks chunks = some out ∧
      process chunks.flatten new.mode true = some (out, [], mode') := by
  obtain ⟨out, nz, hpush, hmode, hprocess⟩ :=
    exists_pushAll chunks new (Mode.ascii_normal true)
  obtain ⟨more, nz', mode', hfinish, hrest⟩ := exists_finish hmode
  refine ⟨out ++ more, mode', ?_, ?_⟩
  · simp [normalizeChunks, hpush, hfinish]
  · rw [hrest] at hprocess
    exact hprocess

end LatexDelimiterNormalizer

theorem normalizeLatexDelimiters_eq (s : Text) :
    normalizeLatexDelimiters s = LatexDelimiterNormalizer.normalizeChunks [s] := by
  rw [normalizeLatexDelimiters, LatexDelimiterNormalizer.normalizeChunks,
    LatexDelimiterNormalizer.pushAll]
  cases LatexDelimiterNormalizer.new.push s with
  | none => rfl
  | some pushed =>
    simp [LatexDelimiterNormalizer.pushAll]

/-- However a text is cut into chunks, every slice of it lies between characters, what is held back
at the end is flushed, and the result is the one of the text at once. -/
theorem normalizeChunks_eq (chunks : List Text) :
    ∃ out, LatexDelimiterNormalizer.normalizeChunks chunks = some out ∧
      normalizeLatexDelimiters chunks.flatten = some out := by
  obtain ⟨out, mode, hchunks, hprocess⟩ :=
    LatexDelimiterNormalizer.exists_normalizeChunks chunks
  obtain ⟨out', mode', honce, hprocess'⟩ :=
    LatexDelimiterNormalizer.exists_normalizeChunks [chunks.flatten]
  have hflatten : [chunks.flatten].flatten = chunks.flatten := by simp
  rw [hflatten, hprocess] at hprocess'
  cases hprocess'
  refine ⟨out, hchunks, ?_⟩
  rw [normalizeLatexDelimiters_eq]
  exact honce

end Ezer.Markdown
