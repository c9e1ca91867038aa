import Ezer.Compaction.OnePass
import Ezer.Compaction.Preamble

/-!
# User queries over many compactions

The queries in front of a summary are split from it again, so that over any
number of passes every query stays in the preamble once and the summarizer is
fed none of it.
-/

namespace Ezer.Compaction

open Ezer.Lib

/-- Blocks on lines of their own, if there are any. -/
def joinSections (sections : List Text) : Option Text :=
  if sections.isEmpty then none else some (joinLines sections)

variable {sections : List Text}

theorem joinSections_of_ne_nil (h : sections ≠ []) :
    joinSections sections = some (joinLines sections) := by
  cases sections with
  | nil => exact (h rfl).elim
  | cons b bs => rfl

/-- The earlier queries and the present ones, in this order. -/
def bothQueries : Option Text → Option Text → Option Text
  | none, current => current
  | some prior, none => some prior
  | some prior, some current => some (prior ++ '\n' :: current)

theorem bothQueries_joinSections (sections : List Text) (current : Option Text) :
    bothQueries (joinSections sections) current = joinSections (sections ++ current.toList) := by
  cases sections with
  | nil => cases current <;> simp [joinSections, bothQueries]
  | cons b bs =>
    cases current with
    | none => simp [joinSections, bothQueries]
    | some current =>
      have happend := joinLines_append (List.cons_ne_nil b bs) (List.cons_ne_nil current [])
      rw [joinLines_singleton] at happend
      simp only [joinSections, Option.toList_some, bothQueries, List.isEmpty_cons,
        List.cons_append, Bool.false_eq_true, if_false]
      rw [← happend, List.cons_append]

theorem splitPriorCompactionText_eq (text : Text) :
    splitPriorCompactionText text =
      (joinSections (splitLoop text [] []).1,
        if (splitLoop text [] []).1.isEmpty then text else (splitLoop text [] []).2) := by
  unfold splitPriorCompactionText joinSections
  dsimp only
  split <;> rfl

section Items

variable {τ : Type*} [CompactionItemBuilder τ]

/-- The blocks of user queries in an item that carries a summary. -/
def sectionsOf (turn : τ) : List Text :=
  if CompactionItem.isCompactionSummary turn then
    (splitLoop ((CompactionItem.text turn).getD []) [] []).1
  else []

/-- What the summarizer is fed for an item. -/
def forLlm (turn : τ) : List τ :=
  if CompactionItem.isCompactionSummary turn then
    let rest := (splitPriorCompactionText ((CompactionItem.text turn).getD [])).2
    if rest = [] then [] else [CompactionItemBuilder.compactionSummaryItem rest]
  else [turn]

theorem separateTurn_eq (acc : SeparatedHistoryTurns τ) {sections : List Text}
    (h : acc.priorUserQueries = joinSections sections) (turn : τ) :
    (separateTurn acc turn).turnsForLlm = acc.turnsForLlm ++ forLlm turn ∧
      (separateTurn acc turn).priorUserQueries = joinSections (sections ++ sectionsOf turn) := by
  unfold separateTurn forLlm sectionsOf
  by_cases hsummary : CompactionItem.isCompactionSummary turn = true
  · simp only [hsummary, if_true]
    constructor
    · split <;> simp
    · have hsplit := splitPriorCompactionText_eq ((CompactionItem.text turn).getD [])
      generalize (splitLoop ((CompactionItem.text turn).getD []) [] []).1 = bs at hsplit ⊢
      rw [hsplit, h]
      cases bs with
      | nil => simp [joinSections]
      | cons b bs =>
        cases sections with
        | nil => simp [joinSections]
        | cons a as =>
          have happend := joinLines_append (List.cons_ne_nil a as) (List.cons_ne_nil b bs)
          simp only [joinSections, List.isEmpty_cons, Bool.false_eq_true, if_false,
            List.cons_append] at happend ⊢
          rw [← happend]
  · rw [if_neg hsummary, if_neg hsummary, if_neg hsummary, List.append_nil]
    exact ⟨rfl, h⟩

/-- What a history is separated into, item by item. -/
theorem separatePriorUserQueries_eq (turns : List τ) :
    (separatePriorUserQueries turns).turnsForLlm = turns.flatMap forLlm ∧
      (separatePriorUserQueries turns).priorUserQueries =
        joinSections (turns.flatMap sectionsOf) := by
  have hfold : ∀ (turns : List τ) (acc : SeparatedHistoryTurns τ) (sections : List Text),
      acc.priorUserQueries = joinSections sections →
      (turns.foldl separateTurn acc).turnsForLlm = acc.turnsForLlm ++ turns.flatMap forLlm ∧
        (turns.foldl separateTurn acc).priorUserQueries =
          joinSections (sections ++ turns.flatMap sectionsOf) := by
    intro turns
    induction turns with
    | nil =>
      intro acc sections h
      simpa using h
    | cons turn turns ih =>
      intro acc sections h
      obtain ⟨hllm, hprior⟩ := separateTurn_eq acc h turn
      obtain ⟨ihllm, ihprior⟩ := ih _ _ hprior
      rw [List.foldl_cons, List.flatMap_cons, List.flatMap_cons, ihllm, ihprior, hllm,
        List.append_assoc, List.append_assoc]
      exact ⟨rfl, rfl⟩
  have h := hfold turns ⟨[], none, false⟩ [] rfl
  rwa [List.nil_append, List.nil_append] at h

theorem isBlock_of_mem_sections {turns : List τ} :
    ∀ b ∈ turns.flatMap sectionsOf, IsBlock b := by
  intro b hb
  obtain ⟨turn, -, hb⟩ := List.mem_flatMap.mp hb
  unfold sectionsOf at hb
  split at hb
  · exact isBlock_of_mem_splitLoop _ b hb
  · cases hb

end Items

/-- A gap of line ends alone. -/
def IsGap (gap : Text) : Prop := ∀ c ∈ gap, c = '\n'

variable {gap : Text}

theorem IsGap.mark_not_mem (h : IsGap gap) : '<' ∉ gap :=
  fun hmem => absurd (h '<' hmem) (by decide)

theorem IsGap.trim_append (h : IsGap gap) (t : Text) : trim (gap ++ t) = trim t := by
  induction gap with
  | nil => rfl
  | cons c gap ih =>
    obtain ⟨rfl, hgap⟩ := List.forall_mem_cons.mp h
    rw [List.cons_append, trim_newline_cons, ih hgap]

theorem IsGap.trim_eq_nil (h : IsGap gap) : trim gap = [] := by
  have happend := h.trim_append []
  rwa [List.append_nil] at happend

theorem IsGap.absent {t : Text} (h : IsGap gap) (ht : ¬ startTag <:+: t) :
    ¬ startTag <:+: gap ++ t := by
  induction gap with
  | nil => exact ht
  | cons c gap ih =>
    obtain ⟨rfl, hgap⟩ := List.forall_mem_cons.mp h
    intro hinfix
    rcases List.infix_cons_iff.mp hinfix with hpre | hinfix
    · have hstart : startTag = '<' :: startTag.tail := by rfl
      rw [hstart] at hpre
      exact absurd (List.cons_prefix_cons.mp hpre).1 (by decide)
    · exact ih hgap hinfix

theorem isGap_newlines : IsGap "\n\n".toList := by
  rw [show "\n\n".toList = ['\n', '\n'] by rfl]
  simp [IsGap]

/-- What stands between the earlier queries and the rest of a preamble. -/
def priorGap (sections : List Text) : Text := if sections.isEmpty then [] else "\n\n".toList

theorem isGap_priorGap (sections : List Text) : IsGap (priorGap sections) := by
  unfold priorGap
  split
  · exact fun c hc => (List.not_mem_nil hc).elim
  · exact isGap_newlines

/-- Blocks at the front of a text are taken out as they are. -/
theorem splitLoop_front (h : ∀ b ∈ sections, IsBlock b)
    (hgap : IsGap gap) (hne : sections ≠ []) (behind : Text) (found : List Text) :
    splitLoop (gap ++ (joinLines sections ++ behind)) found [] =
      splitLoop behind (found ++ sections) [] := by
  rw [← List.append_assoc]
  exact splitLoop_joinLines hne h hgap.mark_not_mem hgap.trim_eq_nil behind found []

/-- The earlier queries are taken out of a preamble first. -/
theorem splitLoop_prior (h : ∀ b ∈ sections, IsBlock b) (current : Option Text) (summary : Text) :
    splitLoop (assembleUserQueriesPreamble (joinSections sections) current ++ summary) [] [] =
      splitLoop (priorGap sections ++ (assembleUserQueriesPreamble none current ++ summary))
        sections [] := by
  cases sections with
  | nil => rfl
  | cons b bs =>
    have hempty : IsGap [] := fun c hc => (List.not_mem_nil hc).elim
    have htake := splitLoop_front h hempty (List.cons_ne_nil b bs)
      ("\n\n".toList ++ (assembleUserQueriesPreamble none current ++ summary)) []
    rw [List.nil_append, List.nil_append] at htake
    rw [show priorGap (b :: bs) = "\n\n".toList from rfl, ← htake]
    simp only [assembleUserQueriesPreamble, joinSections, List.isEmpty_cons, Bool.false_eq_true,
      if_false, List.append_assoc, List.nil_append]

/-- Behind the preamble a summary without tags is the rest. -/
theorem splitLoop_summary (hgap : IsGap gap) {summary : Text}
    (h : ¬ startTag <:+: summary) (sections : List Text) :
    splitLoop (gap ++ summary) sections [] = (sections, trim summary) := by
  rw [splitLoop_of_absent sections [] (hgap.absent h), pushTrimmed_nil, hgap.trim_append]

theorem splitLoop_preamble (h : ∀ b ∈ sections, IsBlock b) {current : Option Text}
    (hcurrent : ∀ c, current = some c →
      ∃ bs, bs ≠ [] ∧ (∀ b ∈ bs, IsBlock b) ∧ joinLines bs = c)
    {summary : Text} (hsummary : ¬ startTag <:+: summary) :
    ∃ found, splitLoop
        (assembleUserQueriesPreamble (joinSections sections) current ++ summary) [] [] =
          (found, trim summary) ∧
      joinSections found = bothQueries (joinSections sections) current ∧
      (found = [] ↔ sections = [] ∧ current = none) := by
  rw [splitLoop_prior h]
  have hgap := isGap_priorGap sections
  cases current with
  | none =>
    refine ⟨sections, splitLoop_summary hgap hsummary sections, ?_, by simp⟩
    rw [bothQueries_joinSections, Option.toList_none, List.append_nil]
  | some c =>
    obtain ⟨bs, hne, hbs, hjoin⟩ := hcurrent c rfl
    refine ⟨sections ++ bs, ?_, ?_, by simp [hne]⟩
    · rw [← splitLoop_summary isGap_newlines hsummary (sections ++ bs),
        ← splitLoop_front hbs hgap hne ("\n\n".toList ++ summary) sections, hjoin]
      simp only [assembleUserQueriesPreamble, List.nil_append, List.append_assoc]
    · rw [bothQueries_joinSections, ← hjoin]
      by_cases hnil : sections = []
      · rw [hnil, List.nil_append, joinSections_of_ne_nil hne]
        simp [joinSections]
      · rw [joinSections_of_ne_nil (by simp [hne]), joinSections_of_ne_nil (by simp),
          joinLines_append hnil hne, Option.toList_some,
          joinLines_append hnil (List.cons_ne_nil _ _), joinLines_singleton]

/-- If a preamble is found again, its last part consists of blocks. -/
theorem blocks_of_split (h : ∀ b ∈ sections, IsBlock b) {c summary : Text}
    (hsplit : (splitPriorCompactionText
      (assembleUserQueriesPreamble (joinSections sections) (some c) ++ summary)).1 =
        bothQueries (joinSections sections) (some c)) :
    ∃ bs, bs ≠ [] ∧ (∀ b ∈ bs, IsBlock b) ∧ joinLines bs = c := by
  rw [splitPriorCompactionText_eq, splitLoop_prior h, splitLoop_sections,
    bothQueries_joinSections] at hsplit
  generalize htext : priorGap sections ++
    (assembleUserQueriesPreamble none (some c) ++ summary) = text at hsplit
  have hblocks := isBlock_of_mem_splitLoop text
  generalize (splitLoop text [] []).1 = bs at hsplit hblocks
  dsimp only at hsplit
  cases sections with
  | nil =>
    cases bs with
    | nil => simp [joinSections] at hsplit
    | cons b bs => exact ⟨b :: bs, by simp, hblocks, by simpa [joinSections] using hsplit⟩
  | cons a as =>
    have hjoin : joinLines (a :: as ++ bs) = joinLines (a :: as ++ [c]) := by
      simpa [joinSections] using hsplit
    rw [joinLines_append (List.cons_ne_nil a as) (List.cons_ne_nil c []),
      joinLines_singleton] at hjoin
    by_cases hbs : bs = []
    · subst hbs
      have hlength := congrArg List.length hjoin
      simp at hlength
    · rw [joinLines_append (List.cons_ne_nil a as) hbs] at hjoin
      exact ⟨bs, hbs, hblocks, (List.cons.inj (List.append_cancel_left hjoin)).2⟩

section Items

variable {τ : Type*} [CompactionItemBuilder τ]

/-- A user item without text and attachments, or no user item. -/
def Silent (turn : τ) : Prop :=
  CompactionItem.role turn = .user →
    (CompactionItem.text turn).getD [] = [] ∧ CompactionItem.attachmentRefs turn = []

theorem queryElement_eq_none_iff (limit : ℕ) (turn : τ) :
    queryElement limit turn = none ↔ Silent turn := by
  unfold queryElement Silent
  by_cases huser : CompactionItem.role turn = .user
  · rw [if_neg (not_not.mpr huser)]
    dsimp only
    split
    · rename_i hempty
      exact ⟨fun _ _ => hempty, fun _ => rfl⟩
    · rename_i hcontent
      constructor
      · exact fun hnone => (Option.some_ne_none _ hnone).elim
      · exact fun hsilent => (hcontent (hsilent huser)).elim
  · simp [huser]

theorem extract_eq_none_iff (turns : List τ) (limit : ℕ) :
    extractUserQueriesFromTurns turns limit = none ↔ ∀ turn ∈ turns, Silent turn := by
  unfold extractUserQueriesFromTurns
  dsimp only
  simp only [← queryElement_eq_none_iff limit, ← List.filterMap_eq_nil_iff, ← List.isEmpty_iff]
  split
  · rename_i hempty
    exact ⟨fun _ => hempty, fun _ => rfl⟩
  · rename_i hne
    constructor
    · exact fun hnone => (Option.some_ne_none _ hnone).elim
    · exact fun hempty => (hne hempty).elim

/-- The preamble of a history and the summary behind it are told apart again: the earlier and
the present queries in order, and the trimmed summary. -/
def Survives (earlier turns : List τ) (limit : ℕ) (summary : Text) : Prop :=
  let prior := (separatePriorUserQueries earlier).priorUserQueries
  let current := extractUserQueriesFromTurns turns limit
  splitPriorCompactionText (assembleUserQueriesPreamble prior current ++ summary) =
    (bothQueries prior current, trim summary)

/-- What is split from a preamble and a summary when every query reopens what it closes. -/
theorem split_preamble (earlier : List τ) {turns : List τ} {limit : ℕ} {summary : Text}
    (hsummary : ¬ startTag <:+: summary) (hreopen : ∀ turn ∈ turns, QueryReopens limit turn) :
    splitPriorCompactionText (assembleUserQueriesPreamble
        (separatePriorUserQueries earlier).priorUserQueries
        (extractUserQueriesFromTurns turns limit) ++ summary) =
      (bothQueries (separatePriorUserQueries earlier).priorUserQueries
          (extractUserQueriesFromTurns turns limit),
        if (separatePriorUserQueries earlier).priorUserQueries = none ∧
          extractUserQueriesFromTurns turns limit = none then summary else trim summary) := by
  obtain ⟨-, hprior⟩ := separatePriorUserQueries_eq earlier
  rw [hprior]
  obtain ⟨found, hloop, hjoin, hnil⟩ := splitLoop_preamble
    (isBlock_of_mem_sections : ∀ b ∈ earlier.flatMap sectionsOf, IsBlock b)
    (fun c hc => (extract_blocks_iff hc).mpr hreopen) hsummary
  have hnone : joinSections (earlier.flatMap sectionsOf) = none ↔
      earlier.flatMap sectionsOf = [] := by
    constructor
    · intro h
      by_contra hne
      rw [joinSections_of_ne_nil hne] at h
      cases h
    · intro h
      rw [h]
      rfl
  rw [splitPriorCompactionText_eq, hloop]
  dsimp only
  rw [hjoin]
  congr 1
  by_cases hempty : found = []
  · obtain ⟨hsections, hcurrent⟩ := hnil.mp hempty
    rw [hempty, hcurrent, hsections]
    rfl
  · rw [if_neg (by simpa using hempty), if_neg]
    rintro ⟨hpri, hcurrent⟩
    exact hempty (hnil.mpr ⟨hnone.mp hpri, hcurrent⟩)

theorem survives_iff (earlier turns : List τ) (limit : ℕ) {summary : Text}
    (hsummary : ¬ startTag <:+: summary) :
    Survives earlier turns limit summary ↔
      (∀ turn ∈ turns, QueryReopens limit turn) ∧
        ((separatePriorUserQueries earlier).priorUserQueries = none →
          (∀ turn ∈ turns, Silent turn) → trim summary = summary) := by
  unfold Survives
  dsimp only
  rw [← extract_eq_none_iff turns limit]
  constructor
  · intro hsplit
    have hreopen : ∀ turn ∈ turns, QueryReopens limit turn := by
      cases hcurrent : extractUserQueriesFromTurns turns limit with
      | none =>
        intro turn hturn
        have hsilent := (extract_eq_none_iff turns limit).mp hcurrent turn hturn
        exact queryReopens_of_none ((queryElement_eq_none_iff limit turn).mpr hsilent)
      | some c =>
        rw [hcurrent, (separatePriorUserQueries_eq earlier).2] at hsplit
        have hblocks := blocks_of_split isBlock_of_mem_sections (congrArg Prod.fst hsplit)
        exact (extract_blocks_iff hcurrent).mp hblocks
    refine ⟨hreopen, fun hprior hcurrent => ?_⟩
    rw [split_preamble earlier hsummary hreopen, if_pos ⟨hprior, hcurrent⟩] at hsplit
    exact (congrArg Prod.snd hsplit).symm
  · rintro ⟨hreopen, htrim⟩
    rw [split_preamble earlier hsummary hreopen]
    split
    · rename_i hnone
      rw [htrim hnone.1 hnone.2]
    · rfl

/-- The turns added in a run of events. -/
def turnsOf (events : List (Event τ)) : List τ :=
  events.filterMap fun
    | .turn item => some item
    | .compact _ _ => none

/-- The summarizer's answers in a run of events. -/
def answersOf (events : List (Event τ)) : List Text :=
  events.filterMap fun
    | .turn _ => none
    | .compact _ sampled => sampled

/-- The blocks of the rounds compacted so far, one after the other. -/
def roundQueries (limit : ℕ) (rounds : List (List τ)) : Option Text :=
  joinSections (rounds.filterMap fun round => extractUserQueriesFromTurns round limit)

/-- An item that carries one of the summarizer's own answers. -/
def OwnAnswer (answers : List Text) (item : τ) : Prop :=
  ∃ answer ∈ answers, item = CompactionItemBuilder.compactionSummaryItem answer ∨
    item = CompactionItemBuilder.compactionSummaryItem (trim answer)

/-- The turns of a conversation are compacted round by round: every turn is in one round or
still in the history, the queries of the rounds are the preamble, and a pass feeds the
summarizer its own last answer and turns of no round. -/
def KeepsQueries (policy : Policy) (countItemTokens : τ → ℕ) (turns : List τ)
    (answers : List Text) (history : List τ) : Prop :=
  ∃ (rounds : List (List τ)) (head rest : List τ),
    turns = rounds.flatten ++ rest ∧ history = head ++ rest ∧
    (∀ item ∈ head, CompactionItem.isCompactionSummary item = true) ∧
    (separatePriorUserQueries history).priorUserQueries =
      roundQueries policy.userMessageTruncateChars rounds ∧
    ∀ targetTokens sampled, ∃ own batch,
      (compactOnePass policy countItemTokens targetTokens sampled history).fed = own ++ batch ∧
      batch <+: rest ∧ ∀ item ∈ own, OwnAnswer answers item

/-- The history of a run: the turns left, behind the summary of the rounds compacted so far. -/
inductive Compacted (limit : ℕ) (answers : List Text) : List (List τ) → List τ → List τ → Prop
  | fresh (rest : List τ) : Compacted limit answers [] rest rest
  | summarized (rounds : List (List τ)) (rest : List τ) (text remainder answer : Text)
      (mem : answer ∈ answers) (remainder_eq : remainder = answer ∨ remainder = trim answer)
      (split : splitPriorCompactionText text = (roundQueries limit rounds, remainder)) :
      Compacted limit answers rounds rest
        (CompactionItemBuilder.compactionSummaryItem text :: rest)

/-- Turns that carry no summary are fed as they are and hold no earlier queries. -/
theorem flatMap_of_no_summary {turns : List τ}
    (h : ∀ turn ∈ turns, CompactionItem.isCompactionSummary turn = false) :
    turns.flatMap forLlm = turns ∧ turns.flatMap sectionsOf = [] := by
  induction turns with
  | nil => exact ⟨rfl, rfl⟩
  | cons turn turns ih =>
    obtain ⟨hturn, hturns⟩ := List.forall_mem_cons.mp h
    obtain ⟨hllm, hsections⟩ := ih hturns
    rw [List.flatMap_cons, List.flatMap_cons, hllm, hsections]
    simp [forLlm, sectionsOf, hturn]

/-- A summary in front of turns gives its queries back. -/
theorem prior_summary_cons (text : Text) {turns : List τ}
    (h : ∀ turn ∈ turns, CompactionItem.isCompactionSummary turn = false) :
    (separatePriorUserQueries
      (CompactionItemBuilder.compactionSummaryItem text :: turns)).priorUserQueries =
        (splitPriorCompactionText text).1 := by
  rw [(separatePriorUserQueries_eq _).2, List.flatMap_cons, (flatMap_of_no_summary h).2,
    List.append_nil, splitPriorCompactionText_eq]
  simp only [sectionsOf, CompactionItemBuilder.isCompactionSummary_summaryItem,
    CompactionItemBuilder.text_summaryItem, if_true]

theorem silent_summaryItem (text : Text) :
    Silent (CompactionItemBuilder.compactionSummaryItem text : τ) := by
  intro huser
  rw [CompactionItemBuilder.role_summaryItem] at huser
  cases huser

theorem extract_summary_cons (text : Text) (turns : List τ) (limit : ℕ) :
    extractUserQueriesFromTurns (CompactionItemBuilder.compactionSummaryItem text :: turns)
      limit = extractUserQueriesFromTurns turns limit := by
  unfold extractUserQueriesFromTurns
  rw [List.filterMap_cons_none ((queryElement_eq_none_iff limit _).mpr (silent_summaryItem text))]

section Steps

variable {limit : ℕ} {answers : List Text} {rounds : List (List τ)} {rest history : List τ}

theorem Compacted.prior (h : Compacted limit answers rounds rest history)
    (hrest : ∀ turn ∈ rest, CompactionItem.isCompactionSummary turn = false) :
    (separatePriorUserQueries history).priorUserQueries = roundQueries limit rounds := by
  cases h with
  | fresh =>
    rw [(separatePriorUserQueries_eq _).2, (flatMap_of_no_summary hrest).2]
    rfl
  | summarized _ _ text remainder answer _ _ hsplit =>
    rw [prior_summary_cons text hrest, hsplit]

theorem Compacted.head (h : Compacted limit answers rounds rest history) :
    ∃ head, history = head ++ rest ∧
      ∀ item ∈ head, CompactionItem.isCompactionSummary item = true := by
  cases h with
  | fresh => exact ⟨[], rfl, fun item hitem => (List.not_mem_nil hitem).elim⟩
  | summarized _ _ text =>
    refine ⟨[CompactionItemBuilder.compactionSummaryItem text], rfl, fun item hitem => ?_⟩
    rw [List.mem_singleton.mp hitem]
    exact CompactionItemBuilder.isCompactionSummary_summaryItem text

theorem Compacted.turn (h : Compacted limit answers rounds rest history) (item : τ) :
    Compacted limit answers rounds (rest ++ [item]) (history ++ [item]) := by
  cases h with
  | fresh => exact .fresh _
  | summarized _ _ text remainder answer hmem heq hsplit =>
    exact .summarized rounds _ text remainder answer hmem heq hsplit

/-- The oldest items of a history are its summary, if it has one, and a batch of turns. -/
theorem Compacted.take (h : Compacted limit answers rounds rest history)
    (hrest : ∀ turn ∈ rest, CompactionItem.isCompactionSummary turn = false) {k : ℕ}
    (hk : 0 < k) :
    ∃ batch more own, rest = batch ++ more ∧ history.drop k = more ∧
      (separatePriorUserQueries (history.take k)).turnsForLlm = own ++ batch ∧
      (∀ item ∈ own, OwnAnswer answers item) ∧
      (separatePriorUserQueries (history.take k)).priorUserQueries = roundQueries limit rounds ∧
      extractUserQueriesFromTurns (history.take k) limit =
        extractUserQueriesFromTurns batch limit ∧
      ∀ turn ∈ history.take k, turn ∈ batch ∨ Silent turn := by
  cases h with
  | fresh =>
    have hbatch : ∀ turn ∈ rest.take k, CompactionItem.isCompactionSummary turn = false :=
      fun turn hturn => hrest turn (List.mem_of_mem_take hturn)
    refine ⟨rest.take k, rest.drop k, [], (List.take_append_drop k rest).symm, rfl, ?_,
      fun item hitem => (List.not_mem_nil hitem).elim, ?_, rfl, fun turn hturn => .inl hturn⟩
    · rw [(separatePriorUserQueries_eq _).1, (flatMap_of_no_summary hbatch).1]
      rfl
    · rw [(separatePriorUserQueries_eq _).2, (flatMap_of_no_summary hbatch).2]
      rfl
  | summarized _ _ text remainder answer hmem heq hsplit =>
    obtain ⟨n, rfl⟩ := Nat.exists_eq_succ_of_ne_zero hk.ne'
    have hbatch : ∀ turn ∈ rest.take n, CompactionItem.isCompactionSummary turn = false :=
      fun turn hturn => hrest turn (List.mem_of_mem_take hturn)
    have hllm : (separatePriorUserQueries
        (CompactionItemBuilder.compactionSummaryItem text :: rest.take n)).turnsForLlm =
          (if remainder = [] then []
            else [CompactionItemBuilder.compactionSummaryItem remainder]) ++ rest.take n := by
      rw [(separatePriorUserQueries_eq _).1, List.flatMap_cons, (flatMap_of_no_summary hbatch).1]
      simp only [forLlm, CompactionItemBuilder.isCompactionSummary_summaryItem,
        CompactionItemBuilder.text_summaryItem, if_true, hsplit]
    rw [List.take_succ_cons, List.drop_succ_cons]
    refine ⟨rest.take n, rest.drop n, _, (List.take_append_drop n rest).symm, rfl, hllm, ?_,
      by rw [prior_summary_cons text hbatch, hsplit], extract_summary_cons text _ limit, ?_⟩
    · intro item hitem
      split at hitem
      · cases hitem
      · rw [List.mem_singleton.mp hitem]
        rcases heq with rfl | rfl
        · exact ⟨remainder, hmem, .inl rfl⟩
        · exact ⟨answer, hmem, .inr rfl⟩
    · intro turn hturn
      rcases List.mem_cons.mp hturn with rfl | hturn
      · exact .inr (silent_summaryItem text)
      · exact .inl hturn

theorem bothQueries_roundQueries (limit : ℕ) (rounds : List (List τ)) (batch : List τ) :
    bothQueries (roundQueries limit rounds) (extractUserQueriesFromTurns batch limit) =
      roundQueries limit (rounds ++ [batch]) := by
  unfold roundQueries
  rw [bothQueries_joinSections, List.filterMap_append]
  cases h : extractUserQueriesFromTurns batch limit with
  | none => simp [h]
  | some current => simp [h]

/-- A pass keeps the history in shape, with one more round. -/
theorem Compacted.pass {policy : Policy} {countItemTokens : τ → ℕ} {targetTokens : ℕ}
    {sampled : Option Text} {turnsForLlm history' : List τ}
    (h : Compacted policy.userMessageTruncateChars answers rounds rest history)
    (hrest : ∀ turn ∈ rest, CompactionItem.isCompactionSummary turn = false ∧
      QueryReopens policy.userMessageTruncateChars turn)
    (hsampled : ∀ answer, sampled = some answer → answer ∈ answers ∧ ¬ startTag <:+: answer)
    (hpass : compactOnePass policy countItemTokens targetTokens sampled history =
      .committed turnsForLlm history') :
    ∃ batch more, rest = batch ++ more ∧
      Compacted policy.userMessageTruncateChars answers (rounds ++ [batch]) more history' := by
  obtain ⟨k, answer, hk, hanswer, rfl⟩ := compactOnePass_committed hpass
  obtain ⟨hmem, htagless⟩ := hsampled answer hanswer
  obtain ⟨batch, more, own, rfl, hdrop, -, -, hprior, hextract, htake⟩ :=
    h.take (fun turn hturn => (hrest turn hturn).1) hk
  have hreopen : ∀ turn ∈ history.take k,
      QueryReopens policy.userMessageTruncateChars turn := by
    intro turn hturn
    rcases htake turn hturn with hbatch | hsilent
    · exact (hrest turn (List.mem_append_left more hbatch)).2
    · exact queryReopens_of_none ((queryElement_eq_none_iff _ turn).mpr hsilent)
  have hsplit := split_preamble (history.take k) htagless hreopen
  rw [hprior, hextract, bothQueries_roundQueries] at hsplit
  refine ⟨batch, more, rfl, ?_⟩
  rw [hdrop, hprior, hextract]
  refine .summarized _ more _ _ answer hmem ?_ hsplit
  split
  · exact .inl rfl
  · exact .inr rfl

/-- One event keeps the history in shape and every turn in one place. -/
theorem Compacted.step {policy : Policy} (countItemTokens : τ → ℕ) {event : Event τ}
    (h : Compacted policy.userMessageTruncateChars answers rounds rest history)
    (hrest : ∀ turn ∈ rest, CompactionItem.isCompactionSummary turn = false ∧
      QueryReopens policy.userMessageTruncateChars turn)
    (hanswers : ∀ answer ∈ answersOf [event], answer ∈ answers ∧ ¬ startTag <:+: answer) :
    ∃ rounds' rest', rounds.flatten ++ rest ++ turnsOf [event] = rounds'.flatten ++ rest' ∧
      Compacted policy.userMessageTruncateChars answers rounds' rest'
        (Compaction.step policy countItemTokens history event) := by
  cases event with
  | turn item =>
    exact ⟨rounds, rest ++ [item], by simp [turnsOf], h.turn item⟩
  | compact targetTokens sampled =>
    have hkeep : rounds.flatten ++ rest ++ turnsOf [(.compact targetTokens sampled : Event τ)] =
        rounds.flatten ++ rest := by simp [turnsOf]
    unfold Compaction.step
    dsimp only
    split
    · exact ⟨rounds, rest, hkeep, h⟩
    · exact ⟨rounds, rest, hkeep, h⟩
    · rename_i hpass
      have hsampled : ∀ answer, sampled = some answer →
          answer ∈ answers ∧ ¬ startTag <:+: answer := by
        intro answer hanswer
        apply hanswers
        simp [answersOf, hanswer]
      obtain ⟨batch, more, rfl, hcompacted⟩ := h.pass hrest hsampled hpass
      exact ⟨rounds ++ [batch], more, by rw [hkeep]; simp, hcompacted⟩

end Steps

theorem compacted_run (policy : Policy) (countItemTokens : τ → ℕ) {answers : List Text}
    {events : List (Event τ)} {rounds : List (List τ)} {rest history : List τ}
    (h : Compacted policy.userMessageTruncateChars answers rounds rest history)
    (hturns : ∀ turn ∈ rounds.flatten ++ rest ++ turnsOf events,
      CompactionItem.isCompactionSummary turn = false ∧
        QueryReopens policy.userMessageTruncateChars turn)
    (hanswers : ∀ answer ∈ answersOf events, answer ∈ answers ∧ ¬ startTag <:+: answer) :
    ∃ rounds' rest', rounds.flatten ++ rest ++ turnsOf events = rounds'.flatten ++ rest' ∧
      Compacted policy.userMessageTruncateChars answers rounds' rest'
        (events.foldl (step policy countItemTokens) history) := by
  induction events generalizing rounds rest history with
  | nil => exact ⟨rounds, rest, by simp [turnsOf], h⟩
  | cons event events ih =>
    have hsplitTurns : turnsOf (event :: events) = turnsOf [event] ++ turnsOf events := by
      rw [← List.singleton_append, turnsOf, List.filterMap_append]
      rfl
    have hsplitAnswers : answersOf (event :: events) = answersOf [event] ++ answersOf events := by
      rw [← List.singleton_append, answersOf, List.filterMap_append]
      rfl
    rw [hsplitTurns, ← List.append_assoc] at hturns ⊢
    rw [hsplitAnswers] at hanswers
    obtain ⟨rounds', rest', heq, hstep⟩ := h.step countItemTokens
      (fun turn hturn => hturns turn (by simp [hturn]))
      (fun answer hanswer => hanswers answer (List.mem_append_left _ hanswer))
    rw [heq] at hturns ⊢
    exact ih hstep hturns fun answer hanswer => hanswers answer (List.mem_append_right _ hanswer)

theorem keepsQueries_run (policy : Policy) (countItemTokens : τ → ℕ) {events : List (Event τ)}
    (hturns : ∀ turn ∈ turnsOf events, CompactionItem.isCompactionSummary turn = false ∧
      QueryReopens policy.userMessageTruncateChars turn)
    (hanswers : ∀ answer ∈ answersOf events, ¬ startTag <:+: answer) :
    KeepsQueries policy countItemTokens (turnsOf events) (answersOf events)
      (run policy countItemTokens events) := by
  obtain ⟨rounds, rest, heq, hcompacted⟩ := compacted_run policy countItemTokens
    (Compacted.fresh [] : Compacted policy.userMessageTruncateChars (answersOf events) [] [] [])
    (by simpa using hturns) (fun answer hanswer => ⟨hanswer, hanswers answer hanswer⟩)
  have hturnsEq : turnsOf events = rounds.flatten ++ rest := by simpa using heq
  have hrest : ∀ turn ∈ rest, CompactionItem.isCompactionSummary turn = false := by
    intro turn hturn
    refine (hturns turn ?_).1
    rw [hturnsEq]
    exact List.mem_append_right _ hturn
  obtain ⟨head, hhead, hsummary⟩ := hcompacted.head
  refine ⟨rounds, head, rest, hturnsEq, hhead, hsummary, hcompacted.prior hrest, ?_⟩
  intro targetTokens sampled
  rcases compactOnePass_fed policy countItemTokens targetTokens sampled
    (run policy countItemTokens events) with hfed | ⟨k, hk, hfed⟩
  · exact ⟨[], [], hfed, List.nil_prefix, fun item hitem => (List.not_mem_nil hitem).elim⟩
  · obtain ⟨batch, more, own, rfl, -, hllm, hown, -⟩ := hcompacted.take hrest hk
    exact ⟨own, batch, hfed.trans hllm, List.prefix_append batch more, hown⟩

/-- The preamble is found again exactly if every closing tag in a query, as it is written, is
followed by a line that opens a block, and blank space around a summary without any queries is
kept. Where all turns of a run are such, no query is lost, repeated or fed to the summarizer. -/
theorem userQueries_survive (policy : Policy) (countItemTokens : τ → ℕ) :
    (∀ (earlier turns : List τ) (limit : ℕ) (summary : Text), ¬ startTag <:+: summary →
      (Survives earlier turns limit summary ↔
        (∀ turn ∈ turns, QueryReopens limit turn) ∧
          ((separatePriorUserQueries earlier).priorUserQueries = none →
            (∀ turn ∈ turns, Silent turn) → trim summary = summary))) ∧
    ∀ events : List (Event τ),
      (∀ turn ∈ turnsOf events, CompactionItem.isCompactionSummary turn = false ∧
        QueryReopens policy.userMessageTruncateChars turn) →
      (∀ answer ∈ answersOf events, ¬ startTag <:+: answer) →
      KeepsQueries policy countItemTokens (turnsOf events) (answersOf events)
        (run policy countItemTokens events) :=
  ⟨fun earlier turns limit _ hsummary => survives_iff earlier turns limit hsummary,
    fun _ hturns hanswers => keepsQueries_run policy countItemTokens hturns hanswers⟩

end Items

/-- A plain conversation item. -/
inductive MockItem where
  | system
  | developer (text : Text) (summary : Bool)
  | user (text : Text)
  | assistant (text : Option Text)
  | tool
  deriving DecidableEq

instance : CompactionItemBuilder MockItem where
  role
    | .system => .system
    | .developer _ _ => .developer
    | .user _ => .user
    | .assistant _ => .assistant
    | .tool => .tool
  text
    | .developer text _ => some text
    | .user text => some text
    | .assistant text => text
    | .system => none
    | .tool => none
  isToolResult item := item = .tool
  isCompactionSummary
    | .developer _ summary => summary
    | _ => false
  attachmentRefs _ := []
  compactionSummaryItem text := .developer text true
  isCompactionSummary_summaryItem _ := rfl
  role_summaryItem _ := rfl
  text_summaryItem _ := rfl

theorem Reopens.of_absent {t : Text} (h : ¬ endTag <:+: t) : Reopens t :=
  fun _ hs hpre => (h (hpre.isInfix.trans hs.isInfix)).elim

theorem queryReopens_plain (turn : MockItem) (h : ¬ endTag <:+: queryText 3000 turn) :
    QueryReopens 3000 turn :=
  fun _ => ⟨.of_absent h, fun a ha => (List.not_mem_nil (ha : a ∈ [])).elim⟩

/-- A short conversation: a query, its answer, and a pass that compacts both. -/
def plainEvents : List (Event MockItem) :=
  [.turn (.user "fix it".toList), .turn (.assistant (some "Fixed.".toList)),
    .turn (.user "thanks".toList), .compact 1 (some "Done.".toList)]

/-- Plain queries survive the compaction of their conversation. -/
theorem userQueries_survive_plain :
    Survives [] [MockItem.user "fix it".toList] 3000 "Done.".toList ∧
      KeepsQueries ⟨0, 3000, fun _ _ => false⟩ (fun _ => 1) (turnsOf plainEvents)
        (answersOf plainEvents) (run ⟨0, 3000, fun _ _ => false⟩ (fun _ => 1) plainEvents) := by
  obtain ⟨hiff, hrun⟩ := @userQueries_survive MockItem _ ⟨0, 3000, fun _ _ => false⟩ fun _ => 1
  constructor
  · refine (hiff [] [.user "fix it".toList] 3000 "Done.".toList ?_).mpr ⟨?_, ?_⟩
    · rw [← splitOnce_eq_none_iff]
      decide
    · intro turn hturn
      rw [List.mem_singleton.mp hturn]
      refine queryReopens_plain _ ?_
      rw [← splitOnce_eq_none_iff]
      decide
    · intro _ _
      decide
  · refine hrun plainEvents ?_ ?_
    · intro turn hturn
      have hplain : CompactionItem.isCompactionSummary turn = false ∧
          splitOnce endTag (queryText 3000 turn) = none := by
        revert turn
        decide
      exact ⟨hplain.1, queryReopens_plain turn (splitOnce_eq_none_iff.mp hplain.2)⟩
    · intro answer hanswer
      rw [← splitOnce_eq_none_iff]
      revert answer
      decide

/-- A query with a closing tag in it is cut there, and the rest of it is taken for the summary. -/
theorem not_survives_closing_tag :
    ¬ (∀ (earlier turns : List MockItem) (limit : ℕ) (summary : Text),
      ¬ startTag <:+: summary → ¬ endTag <:+: summary →
        Survives earlier turns limit summary) := by
  intro h
  have hsurvives := h [] [.user "what does </ezer_user_queries> mean?".toList] 3000 "Done.".toList
    (by rw [← splitOnce_eq_none_iff]; decide)
    (by rw [← splitOnce_eq_none_iff]; decide)
  revert hsurvives
  unfold Survives
  decide +kernel

end Ezer.Compaction
