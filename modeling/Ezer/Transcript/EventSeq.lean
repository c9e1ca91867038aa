import Ezer.Transcript.Cursor

/-!
# Counting event ids on

The counter of event ids is seeded with the largest one that a replay reads.
The replay reads it from the lines that survive the rewinds, and only where the
metadata is in an envelope. It is the largest one on any line when a line that
has this one survives with its envelope.
-/

namespace Ezer.Transcript

open Ezer.Lib

section Largest

variable {T : Type*} (seq : T → Option ℕ)

/-- The largest number of some items, or the one that was known before. -/
def largestFrom (largest : Option ℕ) (items : List T) : Option ℕ :=
  items.foldl (fun largest item =>
    match seq item with
    | some n => some (largest.elim n fun m => max m n)
    | none => largest) largest

variable {seq}

/-- A number that is known is not lost. -/
theorem le_largestFrom {m : ℕ} (items : List T) :
    ∃ k, largestFrom seq (some m) items = some k ∧ m ≤ k := by
  induction items generalizing m with
  | nil => exact ⟨m, rfl, le_rfl⟩
  | cons item items ih =>
    rw [largestFrom, List.foldl_cons]
    cases seq item with
    | none => exact ih
    | some n =>
      obtain ⟨k, hk, hle⟩ := @ih (max m n)
      exact ⟨k, hk, (Nat.le_max_left m n).trans hle⟩

/-- No item has a larger number. -/
theorem le_largestFrom_of_mem (largest : Option ℕ) {items : List T} {item : T} {n : ℕ}
    (hitem : item ∈ items) (hseq : seq item = some n) :
    ∃ k, largestFrom seq largest items = some k ∧ n ≤ k := by
  induction items generalizing largest with
  | nil => cases hitem
  | cons first items ih =>
    rw [largestFrom, List.foldl_cons]
    rcases List.mem_cons.mp hitem with rfl | hitem
    · rw [hseq]
      obtain ⟨k, hk, hle⟩ := le_largestFrom (m := largest.elim n fun m => max m n) items
      refine ⟨k, hk, le_trans ?_ hle⟩
      cases largest with
      | none => exact le_rfl
      | some m => exact Nat.le_max_right m n
    · exact ih _ hitem

/-- The largest number is that of an item. -/
theorem exists_of_largestFrom {largest : Option ℕ} {items : List T} {k : ℕ}
    (h : largestFrom seq largest items = some k) :
    largest = some k ∨ ∃ item ∈ items, seq item = some k := by
  induction items generalizing largest with
  | nil => exact .inl h
  | cons first items ih =>
    rw [largestFrom, List.foldl_cons] at h
    cases hfirst : seq first with
    | none =>
      rw [hfirst] at h
      rcases ih h with hlargest | ⟨item, hitem, hseq⟩
      · exact .inl hlargest
      · exact .inr ⟨item, List.mem_cons_of_mem _ hitem, hseq⟩
    | some n =>
      rw [hfirst] at h
      rcases ih h with hlargest | ⟨item, hitem, hseq⟩
      · cases largest with
        | none => exact .inr ⟨first, List.mem_cons_self .., hfirst.trans hlargest⟩
        | some m =>
          have hmax : max m n = k := Option.some.inj hlargest
          rcases Nat.le_total m n with hle | hle
          · rw [Nat.max_eq_right hle] at hmax
            exact .inr ⟨first, List.mem_cons_self .., hmax ▸ hfirst⟩
          · rw [Nat.max_eq_left hle] at hmax
            exact .inl (congrArg some hmax)
      · exact .inr ⟨item, List.mem_cons_of_mem _ hitem, hseq⟩

end Largest

section

variable (reader : LineReader)

/-- The counter at the end of the event id that is persisted on a line, in an envelope or without
one. -/
def persistedSeq (line : Text) : Option ℕ :=
  if !decide (eventIdKey <:+: line) then none
  else do
    let metadata ← lineMeta reader line
    let value ← reader.value metadata
    let eventId ← (value.get? "eventId").bind Json.asStr
    let counter ← (eventId.toList.splitOn '-').getLast?
    parseUsize counter

/-- Whether a line has its parameters in an envelope. -/
def enveloped (line : Text) : Bool := (reader.line line).any fun env => env.params.isSome

/-- The counter a replay reads from a line is the persisted one, if the line has an envelope. -/
theorem lineEventSeq_eq (line : Text) :
    lineEventSeq reader line = if enveloped reader line then persistedSeq reader line else none := by
  unfold lineEventSeq persistedSeq enveloped
  by_cases hkey : eventIdKey <:+: line
  · simp only [hkey, decide_true, Bool.not_true, Bool.false_eq_true, if_false]
    cases hline : reader.line line with
    | none => rfl
    | some env =>
      obtain ⟨method, params⟩ := env
      cases params with
      | none => rfl
      | some params =>
        have hmeta : lineMeta reader line = (reader.params params).bind RawParamsPeek.metadata := by
          rw [lineMeta, peekLineParams, hline]
          rfl
        have hsome : Option.any (fun env : RawLinePeek => env.params.isSome)
            (some ⟨method, some params⟩) = true := rfl
        rw [hmeta, hsome, if_pos rfl]
        simp only [Option.bind_eq_bind, Option.bind_some]
        cases reader.params params <;> rfl
  · simp only [hkey, decide_false, Bool.not_false, if_true, ite_self]

/-- Counting on from what a replay of a file reads gives no event id of any of its lines again. -/
def NeverReissues (contents : Text) (cursor : Option Text) : Prop :=
  ∀ line ∈ lines contents, ∀ seq, persistedSeq reader line = some seq →
    ∃ largest, (prepareReplayLines reader contents cursor).maxEventSeq = some largest ∧ seq ≤ largest

/-- The largest counter on any line is on one that survives the rewinds with its envelope. -/
def LargestSurvives (contents : Text) : Prop :=
  ∀ line ∈ lines contents, ∀ seq, persistedSeq reader line = some seq →
    (∀ other ∈ lines contents, ∀ n, persistedSeq reader other = some n → n ≤ seq) →
      ∃ live ∈ filterRewindLines reader (liveLines contents),
        enveloped reader live = true ∧ persistedSeq reader live = some seq

variable {reader}

theorem mem_lines_of_live {contents live : Text}
    (h : live ∈ filterRewindLines reader (liveLines contents)) : live ∈ lines contents := by
  have hlive : live ∈ liveLines contents := by
    rw [filterRewindLines] at h
    split at h
    · exact h
    · exact mem_of_mem_filterRewindBy h
  exact (List.mem_filter.mp hlive).1

theorem maxEventSeq_eq (contents : Text) (cursor : Option Text) :
    (prepareReplayLines reader contents cursor).maxEventSeq =
      largestFrom (lineEventSeq reader) none (filterRewindLines reader (liveLines contents)) := rfl

/-- Event ids are never issued again exactly when the largest counter survives. -/
theorem neverReissues_iff (contents : Text) (cursor : Option Text) :
    NeverReissues reader contents cursor ↔ LargestSurvives reader contents := by
  constructor
  · intro h line hline seq hseq hgreatest
    obtain ⟨largest, hlargest, hle⟩ := h line hline seq hseq
    rw [maxEventSeq_eq] at hlargest
    obtain ⟨live, hlive, hlineSeq⟩ := (exists_of_largestFrom hlargest).resolve_left (by simp)
    rw [lineEventSeq_eq] at hlineSeq
    split at hlineSeq
    · rename_i henveloped
      have hge := hgreatest live (mem_lines_of_live hlive) largest hlineSeq
      exact ⟨live, hlive, henveloped, hlineSeq.trans (congrArg some (Nat.le_antisymm hge hle))⟩
    · cases hlineSeq
  · intro h line hline seq hseq
    -- Some line of the file has the largest counter.
    obtain ⟨most, hmost, hle⟩ := le_largestFrom_of_mem none hline hseq
    obtain ⟨top, htop, htopSeq⟩ := (exists_of_largestFrom hmost).resolve_left (by simp)
    have hgreatest : ∀ other ∈ lines contents, ∀ n, persistedSeq reader other = some n → n ≤ most := by
      intro other hother n hn
      obtain ⟨most', hmost', hle'⟩ := le_largestFrom_of_mem none hother hn
      rw [hmost] at hmost'
      cases hmost'
      exact hle'
    obtain ⟨live, hlive, henveloped, hliveSeq⟩ := h top htop most htopSeq hgreatest
    have hlineSeq : lineEventSeq reader live = some most := by
      rw [lineEventSeq_eq, henveloped, if_pos rfl, hliveSeq]
    obtain ⟨largest, hlargest, hle'⟩ := le_largestFrom_of_mem none hlive hlineSeq
    exact ⟨largest, hlargest, hle.trans hle'⟩

end

/-- Reads some lines, and the event ids in their metadata. -/
def SampleLine.idReader (samples : List SampleLine) : LineReader :=
  { SampleLine.reader samples with
    value := fun text =>
      (samples.find? fun sample => sample.peek.metadata == some text).map fun sample =>
        .object (sample.eventId.toList.map fun id => ("eventId", .string (String.ofList id))) }

/-- The file with two prompts of which the second is rewound. -/
def rewoundFile : List SampleLine :=
  [.stampedChunk 0 "a".toList 0, .stampedChunk 1 "b".toList 1, .marker 1]

/-- Behind a rewind the event id of the line it removed is issued again. -/
theorem not_neverReissues :
    ¬ NeverReissues (SampleLine.idReader rewoundFile) (SampleLine.file rewoundFile) none := by
  intro h
  obtain ⟨largest, hlargest, hle⟩ :=
    h (SampleLine.stampedChunk 1 "b".toList 1).text (by decide +kernel) 1 (by decide +kernel)
  have hread : (prepareReplayLines (SampleLine.idReader rewoundFile) (SampleLine.file rewoundFile)
      none).maxEventSeq = some 0 := by decide +kernel
  rw [hread] at hlargest
  cases hlargest
  omega

end Ezer.Transcript
