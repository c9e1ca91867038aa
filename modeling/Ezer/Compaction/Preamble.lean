import Ezer.Compaction.Queries
import Ezer.Lib.Occurrences

/-!
# The preamble of user queries

The blocks found in a summary are put in front of the next one. They are found
again exactly when every closing tag inside a query is followed by a line that
opens the next block.
-/

namespace Ezer.Compaction

open Ezer.Lib

/-- What follows a closing tag between two blocks. -/
def reopening : Text := '\n' :: startTag

/-- A block from its opening tag to the first closing tag. -/
def IsBlock (b : Text) : Prop :=
  ∃ body, b = body ++ endTag ∧ startTag <+: b ∧ FirstBehind endTag body

theorem startTag_head : startTag.head? = some '<' := by decide

theorem startTag_length_le : startTag.length ≤ endTag.length := by decide

theorem endTag_cons : endTag = '<' :: endTag.tail := by decide

theorem mark_not_mem_tail : '<' ∉ endTag.tail := by decide

theorem trim_newline_cons (t : Text) : trim ('\n' :: t) = trim t := by
  simp [trim, trimStart, show isWhitespace '\n' = true from rfl]

theorem pushTrimmed_of_blank {piece : Text} (h : trim piece = []) (rest : Text) :
    pushTrimmed rest piece = rest := by
  unfold pushTrimmed
  rw [h]
  exact if_pos rfl

theorem pushTrimmed_nil (piece : Text) : pushTrimmed [] piece = trim piece := by
  unfold pushTrimmed
  by_cases h : trim piece = []
  · simp [h]
  · simp [h]

section Loop

variable {text : Text} (secs : List Text) (rest : Text)

theorem splitLoop_of_absent (h : ¬ startTag <:+: text) :
    splitLoop text secs rest = (secs, pushTrimmed rest text) := by
  have hnext : nextBlock text = none := by
    rw [nextBlock_eq, splitOnce_eq_none_iff.mpr h]
    rfl
  rw [splitLoop]
  split
  · rfl
  · rename_i heq
    rw [hnext] at heq
    cases heq

theorem splitLoop_of_open {before after : Text} (h : splitOnce startTag text = some (before, after))
    (hstop : splitOnce endTag (text.drop before.length) = none) :
    splitLoop text secs rest = (secs, pushTrimmed rest text) := by
  have hnext : nextBlock text = some (before, startTag, endTag) := by
    rw [nextBlock_eq, h]
    rfl
  rw [splitLoop]
  split
  · rfl
  · rename_i heq
    rw [hnext] at heq
    cases heq
    split
    · rfl
    · rename_i heq
      rw [hstop] at heq
      cases heq

theorem splitLoop_of_block {before after block behind : Text}
    (h : splitOnce startTag text = some (before, after))
    (hstop : splitOnce endTag (text.drop before.length) = some (block, behind)) :
    splitLoop text secs rest =
      splitLoop behind (secs ++ [block ++ endTag]) (pushTrimmed rest before) := by
  have hnext : nextBlock text = some (before, startTag, endTag) := by
    rw [nextBlock_eq, h]
    rfl
  rw [splitLoop]
  split
  · rename_i heq
    rw [hnext] at heq
    cases heq
  · rename_i heq
    rw [hnext] at heq
    cases heq
    split
    · rename_i heq
      rw [hstop] at heq
      cases heq
    · rename_i heq
      rw [hstop] at heq
      cases heq
      rfl

/-- A block behind a gap without tags is taken out. -/
theorem splitLoop_block {gap b : Text} (hgap : '<' ∉ gap) (hb : IsBlock b) (behind : Text) :
    splitLoop (gap ++ b ++ behind) secs rest =
      splitLoop behind (secs ++ [b]) (pushTrimmed rest gap) := by
  obtain ⟨body, rfl, ⟨inner, hinner⟩, hfirst⟩ := hb
  have hstart : splitOnce startTag (gap ++ (body ++ endTag) ++ behind) =
      some (gap, inner ++ behind) := by
    rw [splitOnce_eq_some_iff]
    refine ⟨?_, .of_not_mem startTag_head hgap⟩
    rw [← hinner]
    simp only [List.append_assoc]
  have hstop : splitOnce endTag ((gap ++ (body ++ endTag) ++ behind).drop gap.length) =
      some (body, behind) := by
    rw [List.append_assoc, List.drop_left]
    exact splitOnce_of_firstBehind hfirst behind
  exact splitLoop_of_block secs rest hstart hstop

end Loop

/-- Blocks on lines of their own are all taken out, and nothing of them is left to the rest. -/
theorem splitLoop_joinLines {bs : List Text} (hne : bs ≠ []) (hbs : ∀ b ∈ bs, IsBlock b)
    {gap : Text} (hgap : '<' ∉ gap) (hblank : trim gap = []) (behind : Text) (secs : List Text)
    (rest : Text) :
    splitLoop (gap ++ joinLines bs ++ behind) secs rest = splitLoop behind (secs ++ bs) rest := by
  induction bs generalizing gap secs with
  | nil => exact (hne rfl).elim
  | cons b bs ih =>
    have hb := hbs b (List.mem_cons_self ..)
    by_cases hnil : bs = []
    · subst hnil
      rw [joinLines_singleton, splitLoop_block secs rest hgap hb, pushTrimmed_of_blank hblank]
    · have hrest := ih hnil (fun x hx => hbs x (List.mem_cons_of_mem b hx))
        (show '<' ∉ ['\n'] by decide) (trim_newline_cons []) (secs ++ [b])
      rw [joinLines_cons b hnil,
        show gap ++ (b ++ '\n' :: joinLines bs) ++ behind =
          gap ++ b ++ (['\n'] ++ joinLines bs ++ behind) by simp,
        splitLoop_block secs rest hgap hb, pushTrimmed_of_blank hblank, hrest,
        List.append_assoc, List.singleton_append]

/-- A text has no further block, or it starts with a gap and a block that the loop takes out. -/
theorem scan_induction {motive : Text → Prop}
    (last : ∀ text, (∀ secs rest, splitLoop text secs rest = (secs, pushTrimmed rest text)) →
      motive text)
    (block : ∀ text gap b behind, IsBlock b →
      (∀ secs rest, splitLoop text secs rest =
        splitLoop behind (secs ++ [b]) (pushTrimmed rest gap)) →
      motive behind → motive text) (text : Text) : motive text := by
  induction h : text.length using Nat.strong_induction_on generalizing text with
  | _ n ih =>
    cases hstart : splitOnce startTag text with
    | none =>
      refine last text fun secs rest => ?_
      exact splitLoop_of_absent secs rest (splitOnce_eq_none_iff.mp hstart)
    | some found =>
      obtain ⟨before, after⟩ := found
      cases hstop : splitOnce endTag (text.drop before.length) with
      | none => exact last text fun secs rest => splitLoop_of_open secs rest hstart hstop
      | some found =>
        obtain ⟨body, behind⟩ := found
        have hnext : nextBlock text = some (before, startTag, endTag) := by
          rw [nextBlock_eq, hstart]
          rfl
        obtain ⟨htext, -⟩ := splitOnce_eq_some_iff.mp hstart
        obtain ⟨hdrop, hfirst⟩ := splitOnce_eq_some_iff.mp hstop
        have hopen : startTag <+: body ++ endTag := by
          rw [htext, List.append_assoc, List.drop_left] at hdrop
          refine List.prefix_of_prefix_length_le (List.prefix_append startTag after)
            ⟨behind, hdrop.symm⟩ ?_
          rw [List.length_append]
          exact startTag_length_le.trans (Nat.le_add_left _ _)
        refine block text before (body ++ endTag) behind ⟨body, rfl, hopen, hfirst⟩
          (fun secs rest => splitLoop_of_block secs rest hstart hstop) ?_
        exact ih behind.length (h ▸ behind_shorter hnext hstop) behind rfl

/-- What the loop found before stays in front of what it finds from here on. -/
theorem splitLoop_sections (text : Text) (secs : List Text) (rest : Text) :
    (splitLoop text secs rest).1 = secs ++ (splitLoop text [] []).1 := by
  induction text using scan_induction generalizing secs rest with
  | last text h => rw [h, h, List.append_nil]
  | block text gap b behind _ h ih =>
    rw [h, h, ih, ih ([] ++ [b]), List.nil_append, List.append_assoc]

/-- Everything taken out of a text is a block. -/
theorem isBlock_of_mem_splitLoop (text : Text) :
    ∀ b ∈ (splitLoop text [] []).1, IsBlock b := by
  induction text using scan_induction with
  | last text h =>
    rw [h]
    exact fun b hb => (List.not_mem_nil hb).elim
  | block text gap b behind hb h ih =>
    rw [h, splitLoop_sections]
    intro x hx
    rcases List.mem_append.mp hx with hx | hx
    · obtain rfl : x = b := by simpa using hx
      exact hb
    · exact ih x hx

theorem endTag_suffix_joinLines {bs : List Text} (hne : bs ≠ []) (hbs : ∀ b ∈ bs, IsBlock b) :
    endTag <:+ joinLines bs := by
  induction bs with
  | nil => exact (hne rfl).elim
  | cons b bs ih =>
    by_cases hnil : bs = []
    · subst hnil
      obtain ⟨body, rfl, -, -⟩ := hbs b (List.mem_cons_self ..)
      rw [joinLines_singleton]
      exact List.suffix_append _ _
    · rw [joinLines_cons b hnil]
      have hrest := ih hnil fun x hx => hbs x (List.mem_cons_of_mem b hx)
      exact (hrest.trans (List.suffix_cons _ _)).trans (List.suffix_append _ _)

theorem startTag_prefix_joinLines {bs : List Text} (hne : bs ≠ []) (hbs : ∀ b ∈ bs, IsBlock b) :
    startTag <+: joinLines bs := by
  obtain ⟨b, bs, rfl⟩ := List.exists_cons_of_ne_nil hne
  obtain ⟨-, -, hstart, -⟩ := hbs b (List.mem_cons_self ..)
  by_cases hnil : bs = []
  · subst hnil
    rwa [joinLines_singleton]
  · rw [joinLines_cons b hnil]
    exact hstart.trans (List.prefix_append _ _)

/-- In a block the closing tag begins only at its end. -/
theorem follows_of_firstBehind {body : Text} (h : FirstBehind endTag body) (k : Text) :
    Follows endTag reopening body (endTag ++ k) := by
  intro s hs hne hpre
  rw [← List.append_assoc, prefix_append_self_iff] at hpre
  exact (h s hs hne hpre).elim

/-- Where a closing tag stands right before the next block, it is followed by it. -/
theorem follows_endTag {k : Text} (h : reopening <+: k) : Follows endTag reopening endTag k := by
  have hhead : Follows endTag reopening ('<' :: endTag.tail) k := by
    rw [follows_cons]
    constructor
    · intro _
      rw [← List.cons_append, ← endTag_cons]
      exact (List.prefix_append_right_inj endTag).mpr h
    · exact follows_of_not_mem (by rw [endTag_cons]; rfl) mark_not_mem_tail _ _
  rwa [← endTag_cons] at hhead

theorem follows_of_blocks {bs : List Text} (hbs : ∀ b ∈ bs, IsBlock b) {front : Text}
    (h : joinLines bs = front ++ endTag) : Follows endTag reopening front endTag := by
  induction bs generalizing front with
  | nil =>
    rw [joinLines_nil, endTag_cons] at h
    simp at h
  | cons b bs ih =>
    obtain ⟨body, rfl, hstart, hfirst⟩ := hbs b (List.mem_cons_self ..)
    by_cases hnil : bs = []
    · subst hnil
      rw [joinLines_singleton] at h
      obtain rfl := List.append_cancel_right h
      simpa using follows_of_firstBehind hfirst []
    · have htail : ∀ x ∈ bs, IsBlock x := fun x hx => hbs x (List.mem_cons_of_mem _ hx)
      obtain ⟨front', hfront⟩ := endTag_suffix_joinLines hnil htail
      obtain ⟨more, hmore⟩ := startTag_prefix_joinLines hnil htail
      have heq : front = body ++ (endTag ++ '\n' :: front') := by
        rw [joinLines_cons _ hnil, ← hfront] at h
        have happend : body ++ (endTag ++ '\n' :: front') ++ endTag = front ++ endTag := by
          simpa using h
        exact (List.append_cancel_right happend).symm
      have hreopen : reopening <+: '\n' :: front' ++ endTag := by
        rw [List.cons_append, hfront, ← hmore]
        exact ⟨more, rfl⟩
      rw [heq, follows_append, follows_append, follows_cons]
      refine ⟨?_, follows_endTag hreopen, ?_, ih htail hfront.symm⟩
      · rw [List.append_assoc]
        exact follows_of_firstBehind hfirst _
      · intro hpre
        rw [endTag_cons] at hpre
        have hmark := (List.cons_prefix_cons.mp hpre).1
        exact absurd hmark (by decide)

theorem blocks_of_follows {front : Text} (hstart : startTag <+: front ++ endTag)
    (h : Follows endTag reopening front endTag) :
    ∃ bs, bs ≠ [] ∧ (∀ b ∈ bs, IsBlock b) ∧ joinLines bs = front ++ endTag := by
  induction hlen : front.length using Nat.strong_induction_on generalizing front with
  | _ n ih =>
    have hsome : splitOnce endTag (front ++ endTag) ≠ none := by
      rw [Ne, splitOnce_eq_none_iff, not_not]
      exact (List.suffix_append front endTag).isInfix
    obtain ⟨⟨body, behind⟩, hsplit⟩ := Option.ne_none_iff_exists'.mp hsome
    obtain ⟨htext, hfirst⟩ := splitOnce_eq_some_iff.mp hsplit
    have hblock : IsBlock (body ++ endTag) := by
      refine ⟨body, rfl, ?_, hfirst⟩
      refine List.prefix_of_prefix_length_le hstart ⟨behind, htext.symm⟩ ?_
      rw [List.length_append]
      exact startTag_length_le.trans (Nat.le_add_left _ _)
    by_cases hbehind : behind = []
    · subst hbehind
      rw [List.append_nil] at htext
      exact ⟨[body ++ endTag], by simp, by simpa using hblock, by rw [joinLines_singleton, htext]⟩
    · have hlength := congrArg List.length htext
      have hpos := List.length_pos_iff.mpr hbehind
      simp only [List.length_append] at hlength
      have hsuffix : front.drop body.length ++ endTag = endTag ++ behind := by
        have hdrop := congrArg (List.drop body.length) htext
        rwa [List.append_assoc, List.drop_left, List.drop_append_of_le_length (by omega)] at hdrop
      have hne : front.drop body.length ≠ [] := by
        intro hnil
        rw [List.drop_eq_nil_iff] at hnil
        omega
      have hfollow := h _ (List.drop_suffix _ _) hne (hsuffix ▸ List.prefix_append _ _)
      rw [hsuffix, List.prefix_append_right_inj] at hfollow
      have hend : endTag <:+ behind := by
        refine List.suffix_of_suffix_length_le (hsuffix ▸ List.suffix_append _ _)
          (List.suffix_append endTag behind) ?_
        refine le_trans ?_ hfollow.length_le
        decide
      obtain ⟨line, rfl⟩ := hend
      obtain ⟨front', rfl⟩ : ∃ front', line = '\n' :: front' := by
        cases line with
        | nil =>
          rw [List.nil_append, endTag_cons] at hfollow
          exact absurd (List.cons_prefix_cons.mp hfollow).1 (by decide)
        | cons c line => exact ⟨line, by rw [(List.cons_prefix_cons.mp hfollow).1]⟩
      have heq : front = body ++ (endTag ++ '\n' :: front') := by
        have happend : front ++ endTag = body ++ (endTag ++ '\n' :: front') ++ endTag := by
          simpa using htext
        exact List.append_cancel_right happend
      rw [heq, follows_append, follows_append, follows_cons] at h
      obtain ⟨bs, hbsne, hbs, hjoin⟩ := ih front'.length
        (by rw [← hlen, heq]; simp only [List.length_append, List.length_cons]; omega)
        (List.cons_prefix_cons.mp hfollow).2 h.2.2.2 rfl
      refine ⟨(body ++ endTag) :: bs, by simp, ?_, ?_⟩
      · intro b hb
        rcases List.mem_cons.mp hb with rfl | hb
        · exact hblock
        · exact hbs b hb
      · rw [joinLines_cons _ hbsne, hjoin, heq]
        simp

/-- A text in which every closing tag is followed by a line that opens the next block. -/
def Reopens (t : Text) : Prop :=
  ∀ s, s <:+ t → endTag <+: s → endTag ++ reopening <+: s

theorem reopens_iff (t : Text) : Reopens t ↔ Follows endTag reopening t [] := by
  unfold Reopens Follows
  simp only [List.append_nil]
  constructor
  · exact fun h s hs _ => h s hs
  · intro h s hs hpre
    refine h s hs ?_ hpre
    rintro rfl
    rw [List.prefix_nil, endTag_cons] at hpre
    cases hpre

/-- In front of a text that agrees with no end of the tags a text is taken alone. -/
theorem follows_piece {s : Text} (h : Blunt endTag s) (h' : Blunt (endTag ++ reopening) s)
    (t k : Text) : Follows endTag reopening t (s ++ k) ↔ Reopens t := by
  rw [follows_append_right_iff h h', reopens_iff]

theorem follows_before_name (t k : Text) :
    Follows endTag reopening t ("\" name=\"".toList ++ k) ↔ Reopens t :=
  follows_piece (by decide) (by decide) t k

theorem follows_before_fileEnd (t k : Text) :
    Follows endTag reopening t ("\" />\n".toList ++ k) ↔ Reopens t :=
  follows_piece (by decide) (by decide) t k

theorem follows_before_queryEnd (t k : Text) :
    Follows endTag reopening t ("</ezer_query>\n".toList ++ k) ↔ Reopens t :=
  follows_piece (by decide) (by decide) t k

theorem follows_before_file (t k : Text) :
    Follows endTag reopening t ('\n' :: ("<ezer_file id=\"".toList ++ k)) ↔ Reopens t := by
  have hline : '\n' :: ("<ezer_file id=\"".toList ++ k) = "\n<ezer_file id=\"".toList ++ k :=
    congrArg (· ++ k)
      (show '\n' :: "<ezer_file id=\"".toList = "\n<ezer_file id=\"".toList by decide)
  rw [hline]
  exact follows_piece (by decide) (by decide) t k

theorem follows_fileLine (att : CompactionFileRef) (k : Text) :
    Follows endTag reopening (fileLine att) k ↔ Reopens att.id ∧ Reopens att.name := by
  have hopen : Blunt "<ezer_file id=\"".toList endTag := by decide
  have hmiddle : Blunt "\" name=\"".toList endTag := by decide
  have hclose : Blunt "\" />\n".toList endTag := by decide
  unfold fileLine
  simp only [List.append_assoc]
  rw [follows_append, follows_append, follows_append, follows_append]
  simp only [List.append_assoc]
  rw [follows_before_name, follows_before_fileEnd]
  constructor
  · exact fun h => ⟨h.2.1, h.2.2.2.1⟩
  · exact fun h => ⟨hopen.follows _ _, h.1, hmiddle.follows _ _, h.2, hclose.follows _ _⟩

theorem follows_fileLines (atts : List CompactionFileRef) (k : Text) :
    Follows endTag reopening (atts.flatMap fileLine) k ↔
      ∀ a ∈ atts, Reopens a.id ∧ Reopens a.name := by
  induction atts with
  | nil => simp
  | cons att atts ih =>
    rw [List.flatMap_cons, follows_append, follows_fileLine, ih, List.forall_mem_cons]

section Items

variable {τ : Type*} [CompactionItem τ]

/-- A user item whose text, as it is written, and whose attachments reopen every block they
close. -/
def QueryReopens (limit : ℕ) (turn : τ) : Prop :=
  CompactionItem.role turn = .user → Reopens (queryText limit turn) ∧
    ∀ a ∈ CompactionItem.attachmentRefs turn, Reopens a.id ∧ Reopens a.name

theorem follows_queryElement {limit : ℕ} {turn : τ} {element : Text}
    (h : queryElement limit turn = some element) (k : Text) :
    Follows endTag reopening element k ↔ QueryReopens limit turn := by
  unfold queryElement at h
  split at h
  · cases h
  · rename_i huser
    rw [not_not] at huser
    dsimp only at h
    split at h
    · cases h
    · have hopen : Blunt "<ezer_query>".toList endTag := by decide
      have hclose : Blunt "</ezer_query>\n".toList endTag := by decide
      have hnewline : Blunt ['\n'] endTag := by decide
      simp only [QueryReopens, huser, true_imp_iff]
      by_cases hatts : CompactionItem.attachmentRefs turn = []
      · rw [if_pos hatts, List.append_nil] at h
        cases h
        rw [follows_append, follows_append, follows_before_queryEnd, hatts]
        constructor
        · exact fun h => ⟨h.1.2, fun a ha => (List.not_mem_nil ha).elim⟩
        · exact fun h => ⟨⟨hopen.follows _ _, h.1⟩, hclose.follows _ _⟩
      · rw [if_neg hatts] at h
        cases h
        obtain ⟨att, atts, hcons⟩ := List.exists_cons_of_ne_nil hatts
        have hline : ∀ k, '\n' :: (CompactionItem.attachmentRefs turn).flatMap fileLine ++ k =
            '\n' :: ("<ezer_file id=\"".toList ++ (att.id ++ "\" name=\"".toList ++ att.name ++
              "\" />\n".toList ++ atts.flatMap fileLine ++ k)) := by
          intro k
          have hassoc : ∀ a b c d e f k : Text, '\n' :: (a ++ b ++ c ++ d ++ e ++ f) ++ k =
              '\n' :: (a ++ (b ++ c ++ d ++ e ++ f ++ k)) := by simp
          rw [hcons, List.flatMap_cons]
          exact hassoc _ _ _ _ _ _ k
        rw [follows_append, follows_append, follows_append, follows_cons, follows_fileLines, hline,
          follows_before_file]
        constructor
        · exact fun h => ⟨h.1.1.2, h.1.2.2⟩
        · intro h
          have hbreak := hnewline.follows reopening
            ((CompactionItem.attachmentRefs turn).flatMap fileLine ++
              ("</ezer_query>\n".toList ++ k))
          rw [follows_cons] at hbreak
          exact ⟨⟨⟨hopen.follows _ _, h.1⟩, hbreak.1, h.2⟩, hclose.follows _ _⟩

/-- An item without an element closes no block. -/
theorem queryReopens_of_none {limit : ℕ} {turn : τ} (h : queryElement limit turn = none) :
    QueryReopens limit turn := by
  intro huser
  unfold queryElement at h
  rw [if_neg (not_not.mpr huser)] at h
  dsimp only at h
  split at h
  · rename_i hempty
    have htext : queryText limit turn = [] := by
      unfold queryText
      rw [hempty.1]
      rfl
    rw [htext, hempty.2]
    refine ⟨(reopens_iff []).mpr (follows_nil _ _ _), fun a ha => (List.not_mem_nil ha).elim⟩
  · cases h

theorem follows_elements (limit : ℕ) (turns : List τ) (k : Text) :
    Follows endTag reopening (turns.filterMap (queryElement limit)).flatten k ↔
      ∀ turn ∈ turns, QueryReopens limit turn := by
  induction turns with
  | nil => simp
  | cons turn turns ih =>
    rw [List.forall_mem_cons, ← ih]
    cases h : queryElement limit turn with
    | none =>
      rw [List.filterMap_cons_none h]
      exact ⟨fun hf => ⟨queryReopens_of_none h, hf⟩, And.right⟩
    | some element =>
      rw [List.filterMap_cons_some h, List.flatten_cons, follows_append, follows_queryElement h]

/-- The block of the turns is made of blocks on lines of their own exactly when every query
reopens what it closes. -/
theorem extract_blocks_iff {limit : ℕ} {turns : List τ} {current : Text}
    (h : extractUserQueriesFromTurns turns limit = some current) :
    (∃ bs, bs ≠ [] ∧ (∀ b ∈ bs, IsBlock b) ∧ joinLines bs = current) ↔
      ∀ turn ∈ turns, QueryReopens limit turn := by
  unfold extractUserQueriesFromTurns at h
  dsimp only at h
  split at h
  · cases h
  · cases h
    have hopen : Blunt (startTag ++ ['\n']) endTag := by decide
    have hfront : startTag ++ '\n' :: (turns.filterMap (queryElement limit)).flatten =
        startTag ++ ['\n'] ++ (turns.filterMap (queryElement limit)).flatten := by simp
    rw [← follows_elements limit turns endTag, hfront]
    constructor
    · rintro ⟨bs, -, hbs, hjoin⟩
      exact (follows_append.mp (follows_of_blocks hbs hjoin)).2
    · intro hfollow
      refine blocks_of_follows ?_ (follows_append.mpr ⟨hopen.follows _ _, hfollow⟩)
      rw [List.append_assoc, List.append_assoc]
      exact List.prefix_append _ _

end Items

end Ezer.Compaction
