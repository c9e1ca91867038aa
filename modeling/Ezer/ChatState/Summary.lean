import Ezer.Lib.Loop
import Ezer.Lib.Replace

/-!
# The summary that replaces a conversation

What the compaction model answers is cleaned before it stands for the
conversation: scratchpad in front is dropped, the summary is taken out of its
tags, and control tokens that are left are made harmless.
-/

namespace Ezer.ChatState

open Lib

/-- The tag that opens the model's scratchpad. -/
def analysisOpen : Text := "<analysis>".toList

/-- The tag that closes the model's scratchpad. -/
def analysisClose : Text := "</analysis>".toList

/-- The tag that opens the summary. -/
def summaryOpen : Text := "<summary>".toList

/-- The tag that closes the summary. -/
def summaryClose : Text := "</summary>".toList

/-- The control tokens, closing ones first. -/
def controlTokens : List Text :=
  [summaryClose, summaryOpen, analysisClose, analysisOpen, "</summary_request>".toList,
    "<summary_request>".toList]

/-- Whether the scratchpad that starts at an offset stands in front of what is said. -/
def isLeading (result : Text) (start : ℕ) : Bool :=
  match find summaryOpen result with
  | some sp =>
    start < sp || (getBytes result (sp + byteLen summaryOpen) start).any fun s => (trim s).isEmpty
  | none => (getBytes result 0 start).any fun s => (trim s).isEmpty

/-- One round of dropping scratchpad in front. -/
def dropScratchpad (result : Text) : ForInStep Text :=
  match find analysisOpen result with
  | none => .done result
  | some start =>
    if isLeading result start = false then .done result
    else
      let before := (getBytes result 0 start).getD []
      match (getBytesFrom result start).bind (find analysisClose) with
      | some rel =>
        let stop := start + rel + byteLen analysisClose
        .yield (before ++ (getBytesFrom result stop).getD [])
      | none =>
        let dropTo := (((getBytesFrom result start).bind (find summaryOpen)).map
          fun rel => start + rel).getD (byteLen result)
        .done (before ++ (getBytesFrom result dropTo).getD [])

/-- A text behind the last tag that closes scratchpad, unless it starts with a numbered section. -/
def behindAnalysis (s : Text) : Text :=
  let lead := s.dropWhile fun c => c ∈ ['#', '*', '-', '>', ' ', '\t']
  if lead.head?.any Char.isDigit then s
  else
    match rfind analysisClose s with
    | some pos => trimStart ((getBytesFrom s (pos + byteLen analysisClose)).getD [])
    | none => s

/-- A summary without drafting scratchpad in front. -/
def stripLeadingScratchpad (inner : Text) : Text :=
  let s := behindAnalysis (trim inner)
  match stripStart summaryOpen s with
  | some rest => trimStart rest
  | none => s

/-- The answer with the summary taken out of its tags. -/
def unwrapSummary (result : Text) : Text :=
  match find summaryOpen result, rfind summaryClose result with
  | some start, some stop =>
    if start < stop then
      let before := (getBytes result 0 start).getD []
      let after := (getBytesFrom result (stop + byteLen summaryClose)).getD []
      let inner := stripLeadingScratchpad
        (trim ((getBytes result (start + byteLen summaryOpen) stop).getD []))
      before ++ "Summary:\n".toList ++ inner ++ after
    else result
  | _, _ => result

/-- A token that is no longer read as one. -/
def defused (token : Text) : Text := '<' :: '\u200b' :: token.tail

/-- A text in which no control token is read as one. -/
def neutralizeCompactionControlTokens (text : Text) : Text :=
  controlTokens.foldl (fun text token => replaceAll token (defused token) text) text

/-- One round of collapsing blank lines. -/
def collapseBlankLines (result : Text) : ForInStep Text :=
  if (find "\n\n\n".toList result).isSome then
    .yield (replaceAll "\n\n\n".toList "\n\n".toList result)
  else .done result

/-- The model's answer cleaned, if both loops are left within so many rounds. -/
def formatCompactSummary (rounds : ℕ) (summary : Text) : Option Text := do
  let result ← whileLoop dropScratchpad rounds summary
  let result := neutralizeCompactionControlTokens (unwrapSummary result)
  let result ← whileLoop collapseBlankLines rounds result
  some (trim result)

section Tokens

theorem headed_controlTokens : ∀ token ∈ controlTokens, Headed '<' token := by decide

theorem tail_controlTokens : ∀ token ∈ controlTokens, token.tail ≠ [] := by decide

theorem noSpace_controlTokens :
    ∀ token ∈ controlTokens, '\u200b' ∉ token ∧ '\n' ∉ token := by decide

theorem controlToken_eq {token : Text} (h : token ∈ controlTokens) :
    token = '<' :: token.tail := by
  obtain ⟨q, rfl, -⟩ := (headed_controlTokens token h).exists_cons
  rfl

/-- Making one token harmless adds no other one. -/
theorem defuse_absent {token other text : Text} (htoken : token ∈ controlTokens)
    (hother : other ∈ controlTokens) (h : other <:+: replaceAll token (defused token) text) :
    other <:+: text ∧ other ≠ token := by
  have heq := controlToken_eq htoken
  rw [heq, defused, List.tail_cons] at h
  have hheaded := headed_controlTokens token htoken
  rw [heq] at hheaded ⊢
  exact (headed_controlTokens other hother).infix_replaceAll (tail_controlTokens other hother)
    (noSpace_controlTokens other hother).1 hheaded h

theorem foldl_defuse_absent {tokens : List Text} (htokens : ∀ token ∈ tokens, token ∈ controlTokens)
    {other text : Text} (hother : other ∈ controlTokens)
    (h : other <:+: tokens.foldl (fun text token => replaceAll token (defused token) text) text) :
    other <:+: text ∧ other ∉ tokens := by
  induction tokens generalizing text with
  | nil => exact ⟨h, List.not_mem_nil⟩
  | cons token tokens ih =>
    obtain ⟨htoken, htokens⟩ := List.forall_mem_cons.mp htokens
    obtain ⟨hplace, hnot⟩ := ih htokens h
    obtain ⟨htext, hne⟩ := defuse_absent htoken hother hplace
    exact ⟨htext, fun hmem => (List.mem_cons.mp hmem).elim hne hnot⟩

/-- No control token is left. -/
theorem neutralized {token : Text} (h : token ∈ controlTokens) (text : Text) :
    ¬ token <:+: neutralizeCompactionControlTokens text :=
  fun hplace => (foldl_defuse_absent (fun _ => id) h hplace).2 h

theorem neutralize_of_absent {text : Text} (h : ∀ token ∈ controlTokens, ¬ token <:+: text) :
    neutralizeCompactionControlTokens text = text := by
  unfold neutralizeCompactionControlTokens
  generalize controlTokens = tokens at h
  induction tokens with
  | nil => rfl
  | cons token tokens ih =>
    obtain ⟨htoken, htokens⟩ := List.forall_mem_cons.mp h
    rw [List.foldl_cons, replaceAll_of_absent htoken, ih htokens]

/-- A character that stands nowhere before the end of a control token. -/
def Separates (c : Char) : Prop := ∀ token ∈ controlTokens, c ∉ token.dropLast

theorem neutralize_append {u v : Text} (hu : ∀ c ∈ u.getLast?, Separates c)
    (hv : ∀ token ∈ controlTokens, ¬ token <:+: v) :
    ∃ u', neutralizeCompactionControlTokens (u ++ v) = u' ++ v := by
  have hall : ∀ tokens : List Text, (∀ token ∈ tokens, token ∈ controlTokens) → ∀ u : Text,
      (∀ c ∈ u.getLast?, Separates c) →
      ∃ u', tokens.foldl (fun text token => replaceAll token (defused token) text) (u ++ v) =
        u' ++ v := by
    intro tokens
    induction tokens with
    | nil => exact fun _ u _ => ⟨u, rfl⟩
    | cons token tokens ih =>
      intro htokens u hu
      obtain ⟨htoken, htokens⟩ := List.forall_mem_cons.mp htokens
      have hne := (headed_controlTokens token htoken).ne_nil
      have hlast : (defused token).getLast? = token.getLast? := by
        obtain ⟨d, q, hq⟩ := List.exists_cons_of_ne_nil (tail_controlTokens token htoken)
        rw [controlToken_eq htoken, defused, List.tail_cons, hq, List.getLast?_cons_cons,
          List.getLast?_cons_cons, List.getLast?_cons_cons]
      have hcut : ∀ c ∈ u.getLast?, c ∉ token.dropLast := fun c hc => hu c hc token htoken
      rw [List.foldl_cons, replaceAll_append_of_getLast? hne hcut,
        replaceAll_of_absent (hv token htoken)]
      have hnew : defused token ≠ [] := List.cons_ne_nil _ _
      refine ih htokens _ fun c hc => hu c ?_
      rwa [getLast?_replaceAll hne hnew hlast] at hc
  exact hall controlTokens (fun _ => id) u hu

end Tokens

section Loops

/-- What one round of dropping scratchpad can do. -/
theorem dropScratchpad_cases (result : Text) :
    dropScratchpad result = .done result ∨
      ∃ a v, result = a ++ analysisOpen ++ v ∧
        ((∃ x y, analysisOpen ++ v = x ++ analysisClose ++ y ∧
            dropScratchpad result = .yield (a ++ y)) ∨
          (¬ analysisClose <:+: analysisOpen ++ v ∧
            ((¬ summaryOpen <:+: analysisOpen ++ v ∧ dropScratchpad result = .done a) ∨
              ∃ x y, analysisOpen ++ v = x ++ summaryOpen ++ y ∧ FirstBehind summaryOpen x ∧
                dropScratchpad result = .done (a ++ (summaryOpen ++ y))))) := by
  unfold dropScratchpad
  split
  · exact .inl rfl
  · rename_i start hstart
    obtain ⟨a, v, rfl, -, rfl⟩ := find_eq_some_iff.mp hstart
    split
    · exact .inl rfl
    · refine .inr ⟨a, v, rfl, ?_⟩
      have hbefore : getBytes (a ++ analysisOpen ++ v) 0 (byteLen a) = some a := by
        have h := getBytes_append [] a (analysisOpen ++ v)
        simpa only [List.nil_append, byteLen_nil, Nat.zero_add, List.append_assoc] using h
      have hrest : getBytesFrom (a ++ analysisOpen ++ v) (byteLen a) = some (analysisOpen ++ v) := by
        rw [List.append_assoc]
        exact getBytesFrom_append a _
      simp only [hbefore, hrest, Option.getD_some, Option.bind_some]
      cases hclose : find analysisClose (analysisOpen ++ v) with
      | some rel =>
        obtain ⟨x, y, heq, -, rfl⟩ := find_eq_some_iff.mp hclose
        have hbehind : getBytesFrom (a ++ analysisOpen ++ v)
            (byteLen a + byteLen x + byteLen analysisClose) = some y := by
          rw [List.append_assoc, heq, ← byteLen_append, ← byteLen_append]
          have hassoc : a ++ (x ++ analysisClose ++ y) = a ++ x ++ analysisClose ++ y := by
            simp only [List.append_assoc]
          rw [hassoc]
          exact getBytesFrom_append _ y
        refine .inl ⟨x, y, heq, ?_⟩
        simp only [hbehind, Option.getD_some]
      | none =>
        refine .inr ⟨find_eq_none_iff.mp hclose, ?_⟩
        cases hopen : find summaryOpen (analysisOpen ++ v) with
        | none =>
          have hend : getBytesFrom (a ++ analysisOpen ++ v)
              (byteLen (a ++ analysisOpen ++ v)) = some [] := by
            have h := getBytesFrom_append (a ++ analysisOpen ++ v) []
            rwa [List.append_nil] at h
          refine .inl ⟨find_eq_none_iff.mp hopen, ?_⟩
          simp only [Option.map_none, Option.getD_none, hend, Option.getD_some, List.append_nil]
        | some rel =>
          obtain ⟨x, y, heq, hfirst, rfl⟩ := find_eq_some_iff.mp hopen
          have hbehind : getBytesFrom (a ++ analysisOpen ++ v) (byteLen a + byteLen x) =
              some (summaryOpen ++ y) := by
            rw [List.append_assoc, heq, ← byteLen_append, List.append_assoc, ← List.append_assoc]
            exact getBytesFrom_append _ _
          refine .inr ⟨x, y, heq, hfirst, ?_⟩
          simp only [Option.map_some, Option.getD_some, hbehind]

theorem dropScratchpad_shorter (result next : Text) (h : dropScratchpad result = .yield next) :
    next.length < result.length := by
  rcases dropScratchpad_cases result with hdone | ⟨a, v, hresult, hrest⟩
  · rw [hdone] at h
    cases h
  · rcases hrest with ⟨x, y, heq, hyield⟩ | ⟨-, ⟨-, hdone⟩ | ⟨x, y, -, -, hdone⟩⟩
    · rw [hyield] at h
      cases h
      have hlen := congrArg List.length heq
      have hclose : 0 < analysisClose.length := by decide
      simp only [List.length_append] at hlen
      rw [hresult]
      simp only [List.length_append]
      omega
    · rw [hdone] at h
      cases h
    · rw [hdone] at h
      cases h

theorem blankLines_eq : "\n\n\n".toList = List.replicate 3 '\n' := by decide

theorem blankLine_eq : "\n\n".toList = List.replicate 2 '\n' := by decide

theorem collapseBlankLines_yield {result next : Text} (h : collapseBlankLines result = .yield next) :
    List.replicate 3 '\n' <:+: result ∧
      next = replaceAll (List.replicate 3 '\n') (List.replicate 2 '\n') result := by
  unfold collapseBlankLines at h
  rw [blankLines_eq, blankLine_eq] at h
  split at h
  · rename_i hsome
    cases h
    refine ⟨?_, rfl⟩
    by_contra hno
    rw [find_eq_none_iff.mpr hno] at hsome
    cases hsome
  · cases h

theorem collapseBlankLines_done {result last : Text} (h : collapseBlankLines result = .done last) :
    last = result ∧ ¬ List.replicate 3 '\n' <:+: last := by
  unfold collapseBlankLines at h
  rw [blankLines_eq] at h
  split at h
  · cases h
  · rename_i hnone
    cases h
    refine ⟨rfl, find_eq_none_iff.mp ?_⟩
    rwa [Option.isSome_iff_ne_none, not_not] at hnone

theorem collapseBlankLines_shorter (result next : Text)
    (h : collapseBlankLines result = .yield next) : next.length < result.length := by
  obtain ⟨hplace, rfl⟩ := collapseBlankLines_yield h
  exact length_replaceAll_lt (by decide) hplace

/-- A text with at most one blank line in a row. -/
def collapsed (text : Text) : Text := cutRuns '\n' 2 0 text

/-- The loop over blank lines leaves the text with at most one blank line in a row. -/
theorem collapse_eq {rounds : ℕ} {text last : Text}
    (h : whileLoop collapseBlankLines rounds text = some last) :
    last = collapsed text ∧ ¬ List.replicate 3 '\n' <:+: last := by
  obtain ⟨before, hinv, hdone⟩ := whileLoop_invariant
    (fun result => collapsed result = collapsed text) (fun result next hinv hnext => by
      obtain ⟨-, rfl⟩ := collapseBlankLines_yield hnext
      rw [← hinv]
      exact cutRuns_replaceAll '\n' 2 (Nat.zero_le 2) result) h rfl
  obtain ⟨rfl, hno⟩ := collapseBlankLines_done hdone
  refine ⟨?_, hno⟩
  rw [← hinv]
  exact (cutRuns_of_absent '\n' 2 (n := 0) hno).symm

theorem collapsed_absent {token text : Text} (h : token ∈ controlTokens) {rounds : ℕ} {last : Text}
    (hloop : whileLoop collapseBlankLines rounds text = some last)
    (hno : ¬ token <:+: text) : ¬ token <:+: last := by
  have hnewline := (noSpace_controlTokens token h).2
  obtain ⟨before, hinv, hdone⟩ := whileLoop_invariant
    (fun result => ¬ token <:+: result) (fun result next hinv hnext => by
      obtain ⟨-, rfl⟩ := collapseBlankLines_yield hnext
      exact fun hplace => hinv (infix_of_replaceAll_replicate hnewline hplace)) hloop hno
  obtain ⟨rfl, -⟩ := collapseBlankLines_done hdone
  exact hinv

end Loops

section Kept

variable {summary tail : Text}

/-- A summary in its tags, and what is behind it. -/
def tagged (summary tail : Text) : Text := summaryOpen ++ (summary ++ (summaryClose ++ tail))

theorem blank_absent {tail : Text} (h : ∀ c ∈ tail, isWhitespace c = true) : '<' ∉ tail :=
  fun hmem => absurd (h '<' hmem) (by decide)

theorem separates_close : Separates '>' := by
  unfold Separates
  decide

/-- Every control token in a tagged summary is one of its two tags. -/
theorem tagged_absent (hsummary : ∀ token ∈ controlTokens, ¬ token <:+: summary)
    (htail : ∀ c ∈ tail, isWhitespace c = true) {token : Text} (htoken : token ∈ controlTokens)
    (hopen : ¬ token <:+: summaryOpen) (hclose : ¬ token <:+: summaryClose) :
    ¬ token <:+: tagged summary tail := by
  have hheaded := headed_controlTokens token htoken
  have hlast : '>' ∉ token.dropLast := separates_close token htoken
  have hends {tag : Text} (htag : tag.getLast? = some '>') : ∀ c ∈ tag.getLast?, c ∉ token.dropLast := by
    intro c hc
    rw [htag] at hc
    cases hc
    exact hlast
  have hhead : ∀ c ∈ (summaryClose ++ tail).head?, c = '<' := fun c hc => (Option.some.inj hc).symm
  rw [tagged, infix_append_iff_of_getLast? (hends (by decide)), hheaded.infix_append_iff hhead,
    infix_append_iff_of_getLast? (hends (by decide))]
  rintro (h | h | h | h)
  · exact hopen h
  · exact hsummary token htoken h
  · exact hclose h
  · obtain ⟨q, rfl, -⟩ := hheaded.exists_cons
    exact blank_absent htail (h.subset (List.mem_cons_self ..))

theorem head?_tagged : ∀ c ∈ (tagged summary tail).head?, c = '<' :=
  fun _ hc => (Option.some.inj hc).symm

variable (hsummary : ∀ token ∈ controlTokens, ¬ token <:+: summary)
  (htail : ∀ c ∈ tail, isWhitespace c = true)

include hsummary htail

/-- Dropping scratchpad from before a tagged summary keeps it. -/
theorem dropScratchpad_tagged {result : Text} {round : ForInStep Text}
    (hround : dropScratchpad result = round) (hresult : ∃ p, result = p ++ tagged summary tail) :
    ∃ p, round.value = p ++ tagged summary tail := by
  have hopen : ¬ analysisOpen <:+: tagged summary tail :=
    tagged_absent hsummary htail (by decide) (by decide) (by decide)
  have hclose : ¬ analysisClose <:+: tagged summary tail :=
    tagged_absent hsummary htail (by decide) (by decide) (by decide)
  obtain ⟨p, rfl⟩ := hresult
  rcases dropScratchpad_cases (p ++ tagged summary tail) with hdone | ⟨a, v, heq, hrest⟩
  · rw [← hround, hdone]
    exact ⟨p, rfl⟩
  have hheaded : Headed '<' analysisOpen := headed_controlTokens _ (by decide)
  have hheaded' : Headed '<' analysisClose := headed_controlTokens _ (by decide)
  rcases hheaded.cut head?_tagged heq.symm with ⟨r, -, rfl⟩ | ⟨r, -, hbad⟩
  · rw [← List.append_assoc] at hrest
    rcases hrest with ⟨x, y, heq', hyield⟩ | ⟨-, ⟨hno, -⟩ | ⟨x, y, heq', hfirst, hdone⟩⟩
    · rw [← hround, hyield]
      rcases hheaded'.cut head?_tagged heq'.symm with ⟨r', -, rfl⟩ | ⟨r', -, hbad⟩
      · exact ⟨a ++ r', (List.append_assoc ..).symm⟩
      · refine (hclose ?_).elim
        rw [hbad]
        exact List.infix_append _ _ _
    · refine (hno ?_).elim
      rw [tagged, ← List.append_assoc]
      exact List.infix_append _ _ _
    · obtain ⟨r', -, hy⟩ := hfirst.exists_append heq'.symm
      rw [← hround, hdone, hy]
      exact ⟨a ++ r', (List.append_assoc ..).symm⟩
  · refine (hopen ?_).elim
    rw [hbad]
    exact List.infix_append _ _ _

omit htail in
theorem close_absent {blank : Text} (hblank : ∀ c ∈ blank, isWhitespace c = true) :
    ¬ analysisClose <:+: summaryOpen ++ (blank ++ trim summary) := by
  have hheaded : Headed '<' analysisClose := headed_controlTokens _ (by decide)
  have hlast : '>' ∉ analysisClose.dropLast := separates_close _ (by decide)
  have hopen : ∀ c ∈ summaryOpen.getLast?, c ∉ analysisClose.dropLast := by
    rintro c ⟨⟩
    decide
  rw [infix_append_iff_of_getLast? hopen, hheaded.infix_append_left_iff (blank_absent hblank)]
  rintro (h | h)
  · exact absurd h (by decide)
  · exact hsummary _ (by decide) (h.trans (trim_isInfix summary))

/-- A text that ends with a trimmed summary behind its opening tag and white space. -/
def Opens (summary s : Text) : Prop :=
  ∃ q blank, s = q ++ (summaryOpen ++ (blank ++ trim summary)) ∧
    ∀ c ∈ blank, isWhitespace c = true

omit hsummary htail

theorem opens_trimStart {s : Text} (h : Opens summary s) : Opens summary (trimStart s) := by
  obtain ⟨q, blank, rfl, hblank⟩ := h
  have htrim : trimStart (q ++ (summaryOpen ++ (blank ++ trim summary))) =
      trimStart q ++ (summaryOpen ++ (blank ++ trim summary)) :=
    trimStart_append_cons (by decide) q _
  exact ⟨trimStart q, blank, htrim, hblank⟩

theorem opens_trim (q : Text) : Opens summary (trim (q ++ (summaryOpen ++ summary))) := by
  obtain ⟨blank, hblank, hend, -⟩ := exists_trim summary
  refine ⟨trimStart q, blank, ?_, hblank⟩
  have hstart : trimStart (q ++ (summaryOpen ++ summary)) = trimStart q ++ (summaryOpen ++ summary) :=
    trimStart_append_cons (by decide) q _
  have htag : summaryOpen = "<summary".toList ++ ['>'] := by decide
  have htrim := trimEnd_append_cons (c := '>') (by decide) (trimStart q ++ "<summary".toList) summary
  rw [trim, hstart, htag, ← hend]
  simpa only [List.append_assoc, List.singleton_append] using htrim

theorem opens_behind (hsummary : ∀ token ∈ controlTokens, ¬ token <:+: summary) {s u v : Text}
    (h : Opens summary s) (hs : s = u ++ analysisClose ++ v) : Opens summary v := by
  obtain ⟨q, blank, rfl, hblank⟩ := h
  have hheaded : Headed '<' analysisClose := headed_controlTokens _ (by decide)
  have hhead : ∀ c ∈ (summaryOpen ++ (blank ++ trim summary)).head?, c = '<' :=
    fun c hc => (Option.some.inj hc).symm
  rcases hheaded.cut hhead hs.symm with ⟨r, -, hv⟩ | ⟨r, -, hbad⟩
  · exact ⟨r, blank, hv, hblank⟩
  · refine (close_absent hsummary hblank ?_).elim
    rw [hbad]
    exact List.infix_append _ _ _

/-- A text that ends with the trimmed summary, with nothing or a separating character before it. -/
def EndsWith (summary s : Text) : Prop :=
  ∃ x, s = x ++ trim summary ∧ ∀ c ∈ x.getLast?, Separates c

theorem separates_blank {c : Char} (h : isWhitespace c = true) : Separates c := by
  intro token htoken hmem
  have hall : ∀ token ∈ controlTokens, token.dropLast.all (!isWhitespace ·) = true := by decide
  have hno := List.all_eq_true.mp (hall token htoken) c hmem
  simp [h] at hno

theorem Opens.endsWith {s : Text} (h : Opens summary s) : EndsWith summary s := by
  obtain ⟨q, blank, rfl, hblank⟩ := h
  refine ⟨q ++ (summaryOpen ++ blank), by simp only [List.append_assoc], fun c hc => ?_⟩
  rw [List.getLast?_append, List.getLast?_append] at hc
  cases hlast : blank.getLast? with
  | none =>
    have hopen : summaryOpen.getLast? = some '>' := by decide
    rw [hlast, hopen] at hc
    cases hc
    exact separates_close
  | some d =>
    rw [hlast] at hc
    cases hc
    exact separates_blank (hblank c (List.mem_of_getLast? hlast))

theorem trimStart_blank {blank : Text} (hblank : ∀ c ∈ blank, isWhitespace c = true) :
    trimStart (blank ++ trim summary) = trim summary := by
  obtain ⟨_, _, _, hhead⟩ := exists_trim summary
  have hdrop : trimStart (blank ++ trim summary) = trimStart (trim summary) := by
    rw [trimStart, trimStart, List.dropWhile_append_of_pos hblank]
  rw [hdrop]
  cases htrim : trim summary with
  | nil => rfl
  | cons c k =>
    rw [htrim] at hhead
    exact trimStart_cons (hhead c rfl) k

/-- What is behind scratchpad that was found keeps the summary. -/
theorem opens_behindAnalysis (hsummary : ∀ token ∈ controlTokens, ¬ token <:+: summary) {s : Text}
    (h : Opens summary s) : Opens summary (behindAnalysis s) := by
  unfold behindAnalysis
  dsimp only
  split
  · exact h
  · split
    · rename_i pos hpos
      obtain ⟨u, v, heq, -, rfl⟩ := rfind_eq_some (by decide) hpos
      rw [heq, ← byteLen_append, getBytesFrom_append, Option.getD_some]
      exact opens_trimStart (opens_behind hsummary h heq)
    · exact h

/-- A tag in front of the summary's own one is taken off, or the summary's own one. -/
theorem endsWith_of_stripStart {s rest : Text} (h : Opens summary s)
    (hstrip : stripStart summaryOpen s = some rest) : EndsWith summary (trimStart rest) := by
  obtain ⟨q, blank, rfl, hblank⟩ := h
  have heq : [] ++ summaryOpen ++ rest = q ++ (summaryOpen ++ (blank ++ trim summary)) :=
    (eq_of_stripStart hstrip).symm
  have hheaded : Headed '<' summaryOpen := headed_controlTokens _ (by decide)
  have hhead : ∀ c ∈ (summaryOpen ++ (blank ++ trim summary)).head?, c = '<' :=
    fun c hc => (Option.some.inj hc).symm
  cases q with
  | nil =>
    have hrest : rest = blank ++ trim summary := List.append_cancel_left heq
    rw [hrest, trimStart_blank hblank]
    exact ⟨[], rfl, nofun⟩
  | cons c q =>
    rcases hheaded.cut hhead heq with ⟨r, -, hrest⟩ | ⟨r, hnil, -⟩
    · exact (opens_trimStart ⟨r, blank, hrest, hblank⟩).endsWith
    · cases hnil

/-- Taking scratchpad off the front of what stands in the tags keeps the summary. -/
theorem endsWith_stripLeadingScratchpad
    (hsummary : ∀ token ∈ controlTokens, ¬ token <:+: summary) {inner : Text}
    (hinner : inner = summary ∨ ∃ q, inner = q ++ (summaryOpen ++ summary)) :
    EndsWith summary (stripLeadingScratchpad (trim inner)) := by
  unfold stripLeadingScratchpad
  rw [trim_trim]
  dsimp only
  rcases hinner with rfl | ⟨q, rfl⟩
  · have hno (token : Text) (htoken : token ∈ controlTokens) : ¬ token <:+: trim inner :=
      fun h => hsummary token htoken (h.trans (trim_isInfix inner))
    have hclose : rfind analysisClose (trim inner) = none :=
      rfind_eq_none_iff.mpr (hno _ (by decide))
    have hsame : behindAnalysis (trim inner) = trim inner := by
      simp only [behindAnalysis, hclose, ite_self]
    have hopen : stripStart summaryOpen (trim inner) = none := by
      rw [Option.eq_none_iff_forall_ne_some]
      intro rest hstrip
      refine hno summaryOpen (by decide) ?_
      rw [eq_of_stripStart hstrip]
      exact (List.prefix_append _ _).isInfix
    rw [hsame, hopen]
    exact ⟨[], rfl, nofun⟩
  · have hopens : Opens summary (behindAnalysis (trim (q ++ (summaryOpen ++ summary)))) :=
      opens_behindAnalysis hsummary (opens_trim q)
    split
    · rename_i rest hstrip
      exact endsWith_of_stripStart hopens hstrip
    · exact hopens.endsWith

theorem unwrapSummary_tagged (hsummary : ∀ token ∈ controlTokens, ¬ token <:+: summary)
    (htail : ∀ c ∈ tail, isWhitespace c = true) (p : Text) :
    ∃ front, (∀ c ∈ front.getLast?, Separates c) ∧
      unwrapSummary (p ++ tagged summary tail) = front ++ (trim summary ++ tail) := by
  have hheaded : Headed '<' summaryOpen := headed_controlTokens _ (by decide)
  have hheaded' : Headed '<' summaryClose := headed_controlTokens _ (by decide)
  have hplace : summaryOpen <:+: p ++ tagged summary tail := by
    rw [tagged, ← List.append_assoc]
    exact List.infix_append _ _ _
  obtain ⟨start, hstart⟩ := exists_find hplace
  obtain ⟨u, v, heq, hfirst, rfl⟩ := find_eq_some_iff.mp hstart
  obtain ⟨r, rfl, hv⟩ := hfirst.exists_append heq.symm
  have hwhole : u ++ r ++ tagged summary tail =
      (u ++ r ++ summaryOpen ++ summary) ++ summaryClose ++ tail := by
    simp only [tagged, List.append_assoc]
  have hstop : rfind summaryClose (u ++ r ++ tagged summary tail) =
      some (byteLen (u ++ r ++ summaryOpen ++ summary)) := by
    rw [hwhole]
    exact hheaded'.rfind_append (blank_absent htail) _
  -- What stands between the first opening tag and the last closing one.
  obtain ⟨inner, hinner, hv⟩ : ∃ inner,
      (inner = summary ∨ ∃ q, inner = q ++ (summaryOpen ++ summary)) ∧
        v = inner ++ (summaryClose ++ tail) := by
    cases r with
    | nil => exact ⟨summary, .inl rfl, List.append_cancel_left hv⟩
    | cons c r =>
      have hv' : [] ++ summaryOpen ++ v = (c :: r) ++ tagged summary tail := hv
      rcases hheaded.cut head?_tagged hv' with ⟨r', -, rfl⟩ | ⟨r', hnil, -⟩
      · exact ⟨r' ++ (summaryOpen ++ summary), .inr ⟨r', rfl⟩, by
          simp only [tagged, List.append_assoc]⟩
      · cases hnil
  have hsplit : u ++ r ++ tagged summary tail = u ++ summaryOpen ++ inner ++ (summaryClose ++ tail) := by
    rw [heq, hv]
    simp only [List.append_assoc]
  have hsame : u ++ r ++ summaryOpen ++ summary = u ++ summaryOpen ++ inner := by
    rw [hwhole, List.append_assoc _ summaryClose] at hsplit
    exact List.append_cancel_right hsplit
  rw [hsame] at hstop
  rw [hsplit] at hstart hstop ⊢
  have hlt : byteLen u < byteLen (u ++ summaryOpen ++ inner) := by
    have hpos : 0 < byteLen summaryOpen := byteLen_pos (by decide)
    rw [byteLen_append, byteLen_append]
    omega
  have hbefore : getBytes (u ++ summaryOpen ++ inner ++ (summaryClose ++ tail)) 0 (byteLen u) =
      some u := by
    have h := getBytes_append [] u (summaryOpen ++ inner ++ (summaryClose ++ tail))
    simpa only [List.nil_append, byteLen_nil, Nat.zero_add, List.append_assoc] using h
  have hmiddle : getBytes (u ++ summaryOpen ++ inner ++ (summaryClose ++ tail))
      (byteLen u + byteLen summaryOpen) (byteLen (u ++ summaryOpen ++ inner)) = some inner := by
    rw [byteLen_append (u ++ summaryOpen), byteLen_append u]
    have h := getBytes_append (u ++ summaryOpen) inner (summaryClose ++ tail)
    rwa [byteLen_append] at h
  have hafter : getBytesFrom (u ++ summaryOpen ++ inner ++ (summaryClose ++ tail))
      (byteLen (u ++ summaryOpen ++ inner) + byteLen summaryClose) = some tail := by
    rw [← byteLen_append, ← List.append_assoc]
    exact getBytesFrom_append _ tail
  obtain ⟨x, hx, hseparates⟩ := endsWith_stripLeadingScratchpad hsummary hinner
  refine ⟨u ++ "Summary:\n".toList ++ x, fun c hc => ?_, ?_⟩
  · cases x with
    | nil =>
      have hlabel : "Summary:\n".toList.getLast? = some '\n' := by decide
      rw [List.append_nil, List.getLast?_append, hlabel] at hc
      cases hc
      exact separates_blank (by decide)
    | cons d x =>
      rw [List.getLast?_append_of_ne_nil _ (List.cons_ne_nil d x)] at hc
      exact hseparates c hc
  · simp only [unwrapSummary, hstart, hstop, if_pos hlt, hbefore, hmiddle, hafter,
      Option.getD_some, hx]
    simp only [List.append_assoc]

theorem collapsed_ends {text : Text} (hhead : ∀ c ∈ text.head?, isWhitespace c = false)
    (hlast : ∀ c ∈ text.getLast?, isWhitespace c = false) :
    (∀ c ∈ (collapsed text).head?, isWhitespace c = false) ∧
      ∀ c ∈ (collapsed text).getLast?, isWhitespace c = false := by
  have hnewline {c : Char} (hc : isWhitespace c = false) : c ≠ '\n' := by
    rintro rfl
    exact absurd hc (by decide)
  constructor
  · cases text with
    | nil => nofun
    | cons c k =>
      have hc := hhead c rfl
      rw [collapsed, cutRuns_cons_of_ne '\n' 2 (hnewline hc)]
      exact fun d hd => Option.some.inj hd ▸ hc
  · rcases List.eq_nil_or_concat' text with rfl | ⟨k, c, rfl⟩
    · nofun
    · have hc := hlast c List.getLast?_concat
      rw [collapsed, cutRuns_concat_of_ne '\n' 2 (hnewline hc), List.getLast?_concat]
      exact fun d hd => Option.some.inj hd ▸ hc

/-- A text that starts with no newline is collapsed by itself where blank lines are collapsed. -/
theorem collapsed_infix {front text behind : Text}
    (hhead : ∀ c ∈ text.head?, isWhitespace c = false) :
    collapsed text <:+: collapsed (front ++ (text ++ behind)) := by
  cases text with
  | nil => exact List.nil_infix
  | cons c k =>
    have hc : c ≠ '\n' := by
      rintro rfl
      exact absurd (hhead '\n' rfl) (by decide)
    have hsame (n : ℕ) : cutRuns '\n' 2 n (c :: k) = collapsed (c :: k) := by
      rw [collapsed, cutRuns_cons_of_ne '\n' 2 hc, cutRuns_cons_of_ne '\n' 2 hc]
    have hsplit : collapsed (front ++ (c :: k ++ behind)) = _ :=
      cutRuns_append '\n' 2 0 front (c :: k ++ behind)
    rw [hsplit, cutRuns_append '\n' 2 _ (c :: k) behind, hsame]
    exact List.infix_append' _ _ _

end Kept

/-- After enough rounds the answer is cleaned to the given text. -/
def Formats (raw out : Text) : Prop :=
  ∃ enough, ∀ rounds, enough ≤ rounds → formatCompactSummary rounds raw = some out

/-- What is cleaned of an answer. -/
structure CleanSummary (raw out : Text) : Prop where
  /-- The answer is cleaned, after however many rounds. -/
  returns : Formats raw out
  /-- No control token is left. -/
  defused : ∀ token ∈ controlTokens, ¬ token <:+: out
  /-- Cleaning once more changes nothing. -/
  fixed : Formats out out
  /-- A summary in its tags behind any scratchpad is kept, but for white space around it and blank
  lines in a row. -/
  kept : ∀ scratchpad summary tail : Text,
    raw = scratchpad ++ summaryOpen ++ summary ++ summaryClose ++ tail →
    (∀ c ∈ tail, isWhitespace c = true) → (∀ token ∈ controlTokens, ¬ token <:+: summary) →
    collapsed (trim summary) <:+: out

theorem formats_self {out : Text} (hdefused : ∀ token ∈ controlTokens, ¬ token <:+: out)
    (hblank : ¬ List.replicate 3 '\n' <:+: out) (htrim : trim out = out) : Formats out out := by
  refine ⟨1, fun rounds hrounds => ?_⟩
  obtain ⟨rounds, rfl⟩ := Nat.exists_eq_add_of_le' hrounds
  have hanalysis : find analysisOpen out = none :=
    find_eq_none_iff.mpr (hdefused _ (by decide))
  have hsummary : find summaryOpen out = none :=
    find_eq_none_iff.mpr (hdefused _ (by decide))
  have hdrop : dropScratchpad out = .done out := by
    rw [dropScratchpad, hanalysis]
  have hunwrap : unwrapSummary out = out := by
    rw [unwrapSummary, hsummary]
  have hcollapse : collapseBlankLines out = .done out := by
    rw [collapseBlankLines, blankLines_eq, find_eq_none_iff.mpr hblank]
    rfl
  simp only [formatCompactSummary, whileLoop_of_done hdrop, hunwrap, neutralize_of_absent hdefused,
    whileLoop_of_done hcollapse, htrim, Option.bind_eq_bind, Option.bind_some]

theorem kept_of_loops {scratchpad summary tail result last : Text} {rounds rounds' : ℕ}
    (hsummary : ∀ token ∈ controlTokens, ¬ token <:+: summary)
    (htail : ∀ c ∈ tail, isWhitespace c = true)
    (hdrop : whileLoop dropScratchpad rounds (scratchpad ++ tagged summary tail) = some result)
    (hcollapse : whileLoop collapseBlankLines rounds'
      (neutralizeCompactionControlTokens (unwrapSummary result)) = some last) :
    collapsed (trim summary) <:+: trim last := by
  obtain ⟨before, hbefore, hdone⟩ := whileLoop_invariant
    (fun result => ∃ p, result = p ++ tagged summary tail)
    (fun result next hinv hnext => dropScratchpad_tagged hsummary htail hnext hinv)
    hdrop ⟨scratchpad, rfl⟩
  obtain ⟨p, hp⟩ := dropScratchpad_tagged hsummary htail hdone hbefore
  change result = p ++ tagged summary tail at hp
  obtain ⟨front, hfront, hunwrap⟩ := unwrapSummary_tagged hsummary htail p
  have habsent : ∀ token ∈ controlTokens, ¬ token <:+: trim summary ++ tail := by
    intro token htoken hplace
    have hwhite : ∀ token ∈ controlTokens, token.all (!isWhitespace ·) = true := by decide
    have hmem : ∃ c ∈ token, c ∈ tail := by
      rcases List.infix_append_iff_ne_nil.mp hplace with h | h | ⟨a, b, -, hb, rfl, -, hpre⟩
      · exact (hsummary token htoken (h.trans (trim_isInfix summary))).elim
      · obtain ⟨c, k, rfl⟩ := List.exists_cons_of_ne_nil (headed_controlTokens token htoken).ne_nil
        exact ⟨c, List.mem_cons_self .., h.subset (List.mem_cons_self ..)⟩
      · obtain ⟨c, k, rfl⟩ := List.exists_cons_of_ne_nil hb
        exact ⟨c, List.mem_append_right _ (List.mem_cons_self ..), hpre.subset (List.mem_cons_self ..)⟩
    obtain ⟨c, hc, hctail⟩ := hmem
    exact absurd (htail c hctail) (by simpa using List.all_eq_true.mp (hwhite token htoken) c hc)
  obtain ⟨u', hneutral⟩ := neutralize_append hfront habsent
  obtain ⟨hlast, -⟩ := collapse_eq hcollapse
  obtain ⟨_, _, _, htrimmed⟩ := exists_trim summary
  obtain ⟨hhead, hend⟩ := collapsed_ends htrimmed (trim_getLast? summary)
  refine infix_trim hhead hend ?_
  rw [hlast, hp, hunwrap, hneutral]
  exact collapsed_infix htrimmed

/-- Every answer is cleaned, whatever tags it has and wherever they stand. -/
theorem formatCompactSummary_clean (raw : Text) : ∃ out, CleanSummary raw out := by
  obtain ⟨result, hresult⟩ := exists_whileLoop List.length dropScratchpad_shorter raw
  obtain ⟨last, hlast⟩ := exists_whileLoop List.length collapseBlankLines_shorter
    (neutralizeCompactionControlTokens (unwrapSummary result))
  have hcollapse := hlast _ (Nat.lt_succ_self _)
  have hdefused : ∀ token ∈ controlTokens, ¬ token <:+: trim last := fun token htoken hplace =>
    collapsed_absent htoken hcollapse (neutralized htoken _) (hplace.trans (trim_isInfix last))
  have hblank : ¬ List.replicate 3 '\n' <:+: trim last := fun hplace =>
    (collapse_eq hcollapse).2 (hplace.trans (trim_isInfix last))
  refine ⟨trim last, ?_, hdefused, formats_self hdefused hblank (trim_trim last), ?_⟩
  · refine ⟨raw.length + (neutralizeCompactionControlTokens (unwrapSummary result)).length + 1,
      fun rounds hrounds => ?_⟩
    simp only [formatCompactSummary, hresult rounds (by omega), hlast rounds (by omega),
      Option.bind_eq_bind, Option.bind_some]
  · intro scratchpad summary tail hraw htail hsummary
    have htagged : raw = scratchpad ++ tagged summary tail := by
      rw [hraw]
      simp only [tagged, List.append_assoc]
    rw [htagged] at hresult
    exact kept_of_loops hsummary htail (hresult _ (Nat.lt_succ_self _)) hcollapse

/-- Scratchpad in front of a summary that mentions its tags. -/
theorem thought_clean : ∃ out,
    CleanSummary "<analysis>\nuse <summary> tags\n</analysis>\n\n<summary>\n1. Fix it\n</summary>".toList out ∧
      "1. Fix it".toList <:+: out := by
  obtain ⟨out, hclean⟩ := formatCompactSummary_clean
    "<analysis>\nuse <summary> tags\n</analysis>\n\n<summary>\n1. Fix it\n</summary>".toList
  have hkept := hclean.kept "<analysis>\nuse <summary> tags\n</analysis>\n\n".toList
    "\n1. Fix it\n".toList [] (by decide) nofun (by decide)
  have hsame : collapsed (trim "\n1. Fix it\n".toList) = "1. Fix it".toList := by decide
  exact ⟨out, hclean, hsame ▸ hkept⟩

end Ezer.ChatState
