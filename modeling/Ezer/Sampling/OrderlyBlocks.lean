import Ezer.Sampling.MessagesStream

/-!
# Streams of blocks in order

Blocks may be opened, continued and closed in any order, and what is sent while
they are open need not be what is gathered when they are closed. Here is the
order in which both are the same, decided from the raw events alone, and why the
tokens of the text channel then are the text that is gathered.
-/

namespace Ezer.Sampling

open Ezer.Lib Ezer.ChatState

/-- An open block, as the raw events tell it. -/
inductive OpenBlock where
  | text (initial : String)
  | toolUse
  | thinking
  deriving DecidableEq

/-- What an open block is. -/
def OpenBlock.type : OpenBlock → BlockType
  | .text _ => .text
  | .toolUse => .toolUse
  | .thinking => .thinking

/-- The open blocks, those with a token in the order of their first tokens, the tool calls in the
order in which they were opened, and the indices that ever were of a tool call. -/
structure Track where
  blocks : ℕ → Option OpenBlock
  texts : List ℕ
  tools : List ℕ
  wasTool : ℕ → Bool

namespace Track

/-- No block. -/
def start : Track := ⟨fun _ => none, [], [], fun _ => false⟩

/-- Put a block at an index. -/
def setBlock (index : ℕ) (block : Option OpenBlock) (t : Track) : Track :=
  { t with blocks := Function.update t.blocks index block }

/-- A block may not be opened in the place of a text that was shown or of a tool call. -/
def openBlock {J : Type*} (index : ℕ) (contentBlock : ContentBlock J) (t : Track) :
    Option Track :=
  let free := index ∉ t.texts ∧ index ∉ t.tools
  match contentBlock with
  | .thinking _ _ => if free then some (t.setBlock index (some .thinking)) else none
  | .text text _ => if free then some (t.setBlock index (some (.text text))) else none
  | .toolUse _ _ _ _ =>
    if free then
      some
        { t.setBlock index (some .toolUse) with
          tools := t.tools ++ [index]
          wasTool := Function.update t.wasTool index true }
    else none
  | .redactedThinking _ | .image _ _ | .toolResult _ _ _ => some t

/-- A text may only go to the text block that was begun last, and a fragment of arguments only to a
tool call or to an index that never was one. -/
def continueBlock (index : ℕ) (block : OpenBlock) (delta : StreamDelta) (t : Track) :
    Option Track :=
  match delta with
  | .textDelta text =>
    if text = "" ∨ (block.type = .text ∧ t.texts.getLast? = some index) then some t
    else if block.type = .text ∧ index ∉ t.texts then some { t with texts := t.texts ++ [index] }
    else none
  | .inputJsonDelta partialJson =>
    if partialJson = "" ∨ block = .toolUse ∨ t.wasTool index = false then some t else none
  | .thinkingDelta _ | .signatureDelta _ => some t

/-- Texts and tool calls may only be closed in their order, and no text that was there from the
beginning. -/
def closeBlock (index : ℕ) (block : OpenBlock) (t : Track) : Option Track :=
  match block with
  | .text initial =>
    if initial = "" ∧ (t.texts.head? = some index ∨ index ∉ t.texts) then
      some { t.setBlock index none with texts := t.texts.erase index }
    else none
  | .toolUse =>
    if t.tools.head? = some index then some { t.setBlock index none with tools := t.tools.tail }
    else none
  | .thinking => some (t.setBlock index none)

/-- Follow a raw event, if it is in order. -/
def next {J : Type*} (t : Track) : MessageStreamEvent J → Option Track
  | .contentBlockStart index contentBlock => t.openBlock index contentBlock
  | .contentBlockDelta index delta =>
    match t.blocks index with
    | some block => t.continueBlock index block delta
    | none => some t
  | .contentBlockStop index =>
    match t.blocks index with
    | some block => t.closeBlock index block
    | none => some t
  | .messageStart _ _ _ | .messageDelta _ _ | .messageStop | .ping | .error _ _ => some t

/-- Follow an item of a raw stream. -/
def nextItem {J : Type*} (t : Track) : RawItem (MessageStreamEvent J) → Option Track
  | .event e _ => t.next e
  | .idle | .error _ => some t

/-- Follow a raw stream. -/
def run {J : Type*} (t : Track) (items : List (RawItem (MessageStreamEvent J))) : Option Track :=
  items.foldlM nextItem t

end Track

section Texts

/-- What is gathered in the open blocks and behind them is what was shown. -/
structure TextAgrees (t : Track) (blocks : ℕ → Option BlockState) (content : String)
    (tokens : List String) (closed : List (List String)) (shown : ℕ → List String) : Prop where
  tokens : tokens = closed.flatten ++ t.texts.flatMap shown
  closedText : ∀ b ∈ closed, String.join b ≠ ""
  content : content = "\n".intercalate (closed.map String.join)
  nodup : t.texts.Nodup
  blank : ∀ i, i ∉ t.texts → shown i = []
  begun : ∀ i ∈ t.texts, String.join (shown i) ≠ "" ∧ (t.blocks i).map OpenBlock.type = some .text
  gathered : ∀ i state initial, blocks i = some state → t.blocks i = some (.text initial) →
    state.textAcc = initial ++ String.join (shown i)

namespace TextAgrees

variable {t : Track} {blocks : ℕ → Option BlockState} {content : String} {tokens : List String}
  {closed : List (List String)} {shown : ℕ → List String}

theorem start : TextAgrees Track.start (fun _ => none) "" [] [] (fun _ => []) where
  tokens := rfl
  closedText := by
    intro b hb
    cases hb
  content := rfl
  nodup := List.nodup_nil
  blank _ _ := rfl
  begun := by
    intro i hi
    cases hi
  gathered := by
    intro i state initial hstate
    cases hstate

/-- The blocks without a text that was shown may change. -/
theorem change (h : TextAgrees t blocks content tokens closed shown) {index : ℕ}
    (hfree : index ∉ t.texts) {state : Option BlockState} {block : Option OpenBlock}
    (hinitial : ∀ s initial, state = some s → block = some (.text initial) →
      s.textAcc = initial) {t' : Track} (htexts : t'.texts = t.texts)
    (hblocks : t'.blocks = Function.update t.blocks index block) :
    TextAgrees t' (Function.update blocks index state) content tokens closed shown where
  tokens := by
    rw [htexts]
    exact h.tokens
  closedText := h.closedText
  content := h.content
  nodup := by
    rw [htexts]
    exact h.nodup
  blank := by
    rw [htexts]
    exact h.blank
  begun := by
    rw [htexts, hblocks]
    intro i hi
    have hne : i ≠ index := by
      intro heq
      exact hfree (heq ▸ hi)
    rw [Function.update_of_ne hne]
    exact h.begun i hi
  gathered := by
    intro i s initial hs hblock
    rw [hblocks] at hblock
    by_cases hi : i = index
    · subst hi
      rw [Function.update_self] at hs hblock
      rw [h.blank i hfree, String.join_nil, String.append_empty]
      exact hinitial s initial hs hblock
    · rw [Function.update_of_ne hi] at hs hblock
      exact h.gathered i s initial hs hblock

/-- A block may change in all but its text. -/
theorem keep (h : TextAgrees t blocks content tokens closed shown) {index : ℕ}
    {state : BlockState} (hstate : blocks index = some state) (state' : BlockState)
    (htext : state'.textAcc = state.textAcc) :
    TextAgrees t (Function.update blocks index (some state')) content tokens closed shown where
  tokens := h.tokens
  closedText := h.closedText
  content := h.content
  nodup := h.nodup
  blank := h.blank
  begun := h.begun
  gathered := by
    intro i s initial hs hblock
    by_cases hi : i = index
    · subst hi
      rw [Function.update_self] at hs
      cases hs
      rw [htext]
      exact h.gathered i state initial hstate hblock
    · rw [Function.update_of_ne hi] at hs
      exact h.gathered i s initial hs hblock

/-- A text may be shown in the block that is the last of those with a text. -/
theorem showText (h : TextAgrees t blocks content tokens closed shown) {index : ℕ} {text : String}
    (htext : text ≠ "") {before : List ℕ} {t' : Track} (hblocks : t'.blocks = t.blocks)
    (htexts : t'.texts = before ++ [index]) (hbefore : index ∉ before)
    (hold : t.texts = before ++ [index] ∨ t.texts = before)
    (htype : (t.blocks index).map OpenBlock.type = some .text) {state state' : BlockState}
    (hstate : blocks index = some state) (hacc : state'.textAcc = state.textAcc ++ text) :
    TextAgrees t' (Function.update blocks index (some state')) content (tokens ++ [text]) closed
      (Function.update shown index (shown index ++ [text])) := by
  have hsame (i : ℕ) (hi : i ≠ index) :
      Function.update shown index (shown index ++ [text]) i = shown i :=
    Function.update_of_ne hi _ _
  have hbeforeShown : before.flatMap (Function.update shown index (shown index ++ [text])) =
      before.flatMap shown := by
    rw [List.flatMap_def, List.flatMap_def]
    congr 1
    apply List.map_congr_left
    intro i hi
    apply hsame
    intro heq
    exact hbefore (heq ▸ hi)
  have htextsShown : t.texts.flatMap shown = before.flatMap shown ++ shown index := by
    rcases hold with hlast | hnew
    · rw [hlast, List.flatMap_append, List.flatMap_singleton]
    · rw [hnew, h.blank index (hnew ▸ hbefore), List.append_nil]
  have hmem (i : ℕ) : i ∈ t'.texts ↔ i = index ∨ i ∈ t.texts := by
    rw [htexts]
    rcases hold with hlast | hnew
    · rw [hlast, List.mem_append, List.mem_singleton]
      exact ⟨Or.inr, fun h => h.elim Or.inr id⟩
    · rw [hnew, List.mem_append, List.mem_singleton, or_comm]
  have hjoin : String.join (shown index ++ [text]) = String.join (shown index) ++ text := by
    rw [String.join_append, String.join_cons, String.join_nil, String.append_empty]
  refine ⟨?_, h.closedText, h.content, ?_, ?_, ?_, ?_⟩
  · rw [htexts, List.flatMap_append, hbeforeShown, List.flatMap_singleton, Function.update_self,
      h.tokens, htextsShown, List.append_assoc, List.append_assoc]
  · rw [htexts]
    rcases hold with hlast | hnew
    · rw [← hlast]
      exact h.nodup
    · rw [← hnew]
      refine List.nodup_append.mpr ⟨h.nodup, List.pairwise_singleton _ _, ?_⟩
      rintro a ha b hb rfl
      rw [List.mem_singleton.mp hb, hnew] at ha
      exact hbefore ha
  · intro i hi
    have hne : i ≠ index := fun heq => hi ((hmem i).mpr (Or.inl heq))
    rw [hsame i hne]
    exact h.blank i fun hin => hi ((hmem i).mpr (Or.inr hin))
  · intro i hi
    rw [hblocks]
    by_cases hne : i = index
    · subst hne
      refine ⟨?_, htype⟩
      rw [Function.update_self, hjoin]
      intro hempty
      exact htext (String.append_eq_empty_iff.mp hempty).2
    · rw [hsame i hne]
      exact h.begun i (((hmem i).mp hi).resolve_left hne)
  · intro i s initial hs hblock
    rw [hblocks] at hblock
    by_cases hne : i = index
    · subst hne
      rw [Function.update_self] at hs ⊢
      cases hs
      rw [hacc, h.gathered i state initial hstate hblock, hjoin, String.append_assoc]
    · rw [Function.update_of_ne hne] at hs
      rw [hsame i hne]
      exact h.gathered i s initial hs hblock

/-- A text that was shown may be closed as the first of them. -/
theorem closeShown (h : TextAgrees t blocks content tokens closed shown) {index : ℕ}
    {rest : List ℕ} (htexts : t.texts = index :: rest) {state : BlockState}
    (hstate : blocks index = some state) (hblock : t.blocks index = some (.text ""))
    {t' : Track} (htexts' : t'.texts = rest)
    (hblocks' : t'.blocks = Function.update t.blocks index none) :
    TextAgrees t' (Function.update blocks index none)
      ((if content = "" then "" else content ++ "\n") ++ state.textAcc) tokens
      (closed ++ [shown index]) (Function.update shown index []) := by
  obtain ⟨hnot, hrest⟩ := List.nodup_cons.mp (htexts ▸ h.nodup)
  have hmem : index ∈ t.texts := by
    rw [htexts]
    exact List.mem_cons_self
  have hacc : state.textAcc = String.join (shown index) := by
    rw [h.gathered index state "" hstate hblock, String.empty_append]
  have hsame (i : ℕ) (hi : i ≠ index) : Function.update shown index [] i = shown i :=
    Function.update_of_ne hi _ _
  have hne (i : ℕ) (hi : i ∈ rest) : i ≠ index := by
    intro heq
    exact hnot (heq ▸ hi)
  refine ⟨?_, ?_, ?_, ?_, ?_, ?_, ?_⟩
  · have hrestShown : rest.flatMap (Function.update shown index []) = rest.flatMap shown := by
      rw [List.flatMap_def, List.flatMap_def]
      congr 1
      apply List.map_congr_left
      intro i hi
      exact hsame i (hne i hi)
    rw [htexts', hrestShown, h.tokens, htexts, List.flatMap_cons, List.flatten_append,
      List.flatten_singleton, List.append_assoc]
  · intro b hb
    rcases List.mem_append.mp hb with hb | hb
    · exact h.closedText b hb
    · rw [List.mem_singleton.mp hb]
      exact (h.begun index hmem).1
  · rw [hacc, h.content, List.map_append, List.map_singleton, intercalate_concat_of_ne_empty]
    intro t ht
    obtain ⟨b, hb, rfl⟩ := List.mem_map.mp ht
    exact h.closedText b hb
  · rw [htexts']
    exact hrest
  · intro i hi
    by_cases heq : i = index
    · rw [heq, Function.update_self]
    · rw [hsame i heq]
      apply h.blank
      rw [htexts]
      rintro (_ | ⟨_, hin⟩)
      · exact heq rfl
      · exact hi (htexts' ▸ hin)
  · intro i hi
    rw [htexts'] at hi
    rw [hblocks', hsame i (hne i hi), Function.update_of_ne (hne i hi)]
    apply h.begun
    rw [htexts]
    exact List.mem_cons_of_mem _ hi
  · intro i s initial hs hblock'
    rw [hblocks'] at hblock'
    by_cases heq : i = index
    · subst heq
      rw [Function.update_self] at hs
      cases hs
    · rw [Function.update_of_ne heq] at hs hblock'
      rw [hsame i heq]
      exact h.gathered i s initial hs hblock'

end TextAgrees

end Texts

end Ezer.Sampling
