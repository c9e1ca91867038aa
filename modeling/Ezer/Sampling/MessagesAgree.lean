import Ezer.Sampling.OrderlyBlocks
import Ezer.Sampling.ChatStream

/-!
# What the messages API sends and what it gathers

The events of a stream are in order whatever the raw events are. Where the
blocks are in order, the text and the tool calls of the response are those that
a consumer of the events puts together.
-/

namespace Ezer.Sampling

open Ezer.Lib Ezer.ChatState

section Tools

/-- The tool calls that are gathered, in the open blocks and behind them, are those that were
sent. -/
structure ToolsAgree (t : Track) (blocks : ℕ → Option BlockState) (toolIndex : ℕ → Option ℕ)
    (nextIndex : ℕ) (calls : List ToolCall) (trace : List SamplingEvent) : Prop where
  counted : nextIndex = calls.length + t.tools.length
  opened : ∀ p i, t.tools[p]? = some i → toolIndex i = some (calls.length + p) ∧
    ∃ state, blocks i = some state ∧ state.blockType = .toolUse ∧
      state.toolCall = clientCall trace (calls.length + p)
  complete : ∀ i, (t.blocks i).map OpenBlock.type = some .toolUse → i ∈ t.tools
  gathered : ∀ k call, calls[k]? = some call → call = clientCall trace k
  announced : ∀ k, toolDeltas trace k ≠ [] ↔ k < nextIndex
  indexed : ∀ i k, toolIndex i = some k → k < nextIndex
  wasTool : ∀ i, t.wasTool i = (toolIndex i).isSome

namespace ToolsAgree

variable {t : Track} {blocks : ℕ → Option BlockState} {toolIndex : ℕ → Option ℕ} {nextIndex : ℕ}
  {calls : List ToolCall} {trace : List SamplingEvent}

theorem start {trace : List SamplingEvent} (htrace : ∀ k, toolDeltas trace k = []) :
    ToolsAgree Track.start (fun _ => none) (fun _ => none) 0 [] trace where
  counted := rfl
  opened := by
    intro p i hi
    cases hi
  complete := by
    intro i hi
    cases hi
  gathered := by
    intro k call hcall
    cases hcall
  announced k := by simp [htrace k]
  indexed := by
    intro i k hk
    cases hk
  wasTool _ := rfl

/-- Two indices of one open tool call are the same. -/
theorem position_unique (h : ToolsAgree t blocks toolIndex nextIndex calls trace) {p q i : ℕ}
    (hp : t.tools[p]? = some i) (hq : t.tools[q]? = some i) : p = q := by
  have heq := (h.opened p i hp).1.symm.trans (h.opened q i hq).1
  have hadd := Option.some.inj heq
  omega

/-- More events that say nothing about tool calls. -/
theorem more (h : ToolsAgree t blocks toolIndex nextIndex calls trace)
    {out : List SamplingEvent} (hout : ∀ k, toolDeltas out k = []) :
    ToolsAgree t blocks toolIndex nextIndex calls (trace ++ out) where
  counted := h.counted
  opened p i hi := by
    obtain ⟨hindex, state, hstate, htype, hcall⟩ := h.opened p i hi
    refine ⟨hindex, state, hstate, htype, ?_⟩
    rw [clientCall_append_of_nil (hout _)]
    exact hcall
  complete := h.complete
  gathered k call hcall := by
    rw [clientCall_append_of_nil (hout k)]
    exact h.gathered k call hcall
  announced k := by
    rw [toolDeltas_append, hout k, List.append_nil]
    exact h.announced k
  indexed := h.indexed
  wasTool := h.wasTool

variable {index : ℕ}

/-- The blocks that are no tool call may change. -/
theorem change (h : ToolsAgree t blocks toolIndex nextIndex calls trace)
    (hfree : index ∉ t.tools) {state : Option BlockState} {block : Option OpenBlock}
    (hblock : block.map OpenBlock.type ≠ some .toolUse) {t' : Track} (htools : t'.tools = t.tools)
    (hwasTool : t'.wasTool = t.wasTool) (hblocks : t'.blocks = Function.update t.blocks index block) :
    ToolsAgree t' (Function.update blocks index state) toolIndex nextIndex calls trace where
  counted := by
    rw [htools]
    exact h.counted
  opened p i hi := by
    rw [htools] at hi
    have hne : i ≠ index := by
      intro heq
      exact hfree (heq ▸ List.mem_of_getElem? hi)
    rw [Function.update_of_ne hne]
    exact h.opened p i hi
  complete i hi := by
    rw [hblocks] at hi
    rw [htools]
    by_cases heq : i = index
    · subst heq
      rw [Function.update_self] at hi
      exact (hblock hi).elim
    · rw [Function.update_of_ne heq] at hi
      exact h.complete i hi
  gathered := h.gathered
  announced := h.announced
  indexed := h.indexed
  wasTool := by
    rw [hwasTool]
    exact h.wasTool

/-- A block may change in all but its tool call. -/
theorem keep (h : ToolsAgree t blocks toolIndex nextIndex calls trace)
    {state : BlockState} (hstate : blocks index = some state) (state' : BlockState)
    (htype : state'.blockType = state.blockType)
    (hcall : state.blockType = .toolUse → state'.toolCall = state.toolCall) {t' : Track}
    (htools : t'.tools = t.tools) (hwasTool : t'.wasTool = t.wasTool)
    (hblocks : t'.blocks = t.blocks) :
    ToolsAgree t' (Function.update blocks index (some state')) toolIndex nextIndex calls trace where
  counted := by
    rw [htools]
    exact h.counted
  opened p i hi := by
    rw [htools] at hi
    obtain ⟨hindex, s, hs, hstool, hscall⟩ := h.opened p i hi
    by_cases heq : i = index
    · subst heq
      obtain rfl := Option.some.inj (hstate.symm.trans hs)
      refine ⟨hindex, state', Function.update_self .., htype.trans hstool, ?_⟩
      exact (hcall hstool).trans hscall
    · rw [Function.update_of_ne heq]
      exact ⟨hindex, s, hs, hstool, hscall⟩
  complete := by
    rw [hblocks, htools]
    exact h.complete
  gathered := h.gathered
  announced := h.announced
  indexed := h.indexed
  wasTool := by
    rw [hwasTool]
    exact h.wasTool

theorem openCall (h : ToolsAgree t blocks toolIndex nextIndex calls trace) {index : ℕ}
    (hfree : index ∉ t.tools) {state : BlockState} (htype : state.blockType = .toolUse)
    (hargs : state.argsAcc = "") {t' : Track} (htools : t'.tools = t.tools ++ [index])
    (hwasTool : t'.wasTool = Function.update t.wasTool index true)
    (hblocks : t'.blocks = Function.update t.blocks index (some .toolUse)) :
    ToolsAgree t' (Function.update blocks index (some state))
      (Function.update toolIndex index (some nextIndex)) (nextIndex + 1) calls
      (trace ++ [.toolCallDelta nextIndex (some state.toolId) (some state.toolName) none]) := by
  have hother (k : ℕ) (hk : k ≠ nextIndex) :
      toolDeltas [.toolCallDelta nextIndex (some state.toolId) (some state.toolName) none] k =
        [] := by
    simp [toolDeltas, SamplingEvent.toolDelta, Ne.symm hk]
  refine ⟨?_, ?_, ?_, ?_, ?_, ?_, ?_⟩
  · rw [htools, List.length_append, h.counted]
    rfl
  · intro p i hi
    rw [htools, List.getElem?_append] at hi
    split at hi
    · rename_i hp
      have hne : i ≠ index := by
        intro heq
        exact hfree (heq ▸ List.mem_of_getElem? hi)
      obtain ⟨hindex, s, hs, hstool, hscall⟩ := h.opened p i hi
      rw [Function.update_of_ne hne, Function.update_of_ne hne,
        clientCall_append_of_nil (hother _ (by rw [h.counted]; omega))]
      exact ⟨hindex, s, hs, hstool, hscall⟩
    · rename_i hp
      rw [List.getElem?_singleton] at hi
      split at hi
      · rename_i hzero
        obtain rfl := Option.some.inj hi
        have hnext : calls.length + p = nextIndex := by
          rw [h.counted]
          omega
        have hblank : toolDeltas trace nextIndex = [] := by
          by_contra hne
          exact Nat.lt_irrefl _ ((h.announced nextIndex).mp hne)
        rw [hnext, Function.update_self, Function.update_self, clientCall_append_delta,
          clientCall_of_nil hblank]
        refine ⟨rfl, state, rfl, htype, ?_⟩
        rw [BlockState.toolCall, hargs]
        rfl
      · cases hi
  · intro i hi
    rw [hblocks] at hi
    rw [htools, List.mem_append, List.mem_singleton]
    by_cases heq : i = index
    · exact Or.inr heq
    · rw [Function.update_of_ne heq] at hi
      exact Or.inl (h.complete i hi)
  · intro k call hcall
    obtain ⟨hk, _⟩ := List.getElem?_eq_some_iff.mp hcall
    rw [clientCall_append_of_nil (hother k (by rw [h.counted]; omega))]
    exact h.gathered k call hcall
  · intro k
    by_cases hk : k = nextIndex
    · subst hk
      simp [toolDeltas, SamplingEvent.toolDelta]
    · rw [toolDeltas_append, hother k hk, List.append_nil, h.announced]
      omega
  · intro i k hk
    by_cases heq : i = index
    · subst heq
      rw [Function.update_self] at hk
      obtain rfl := Option.some.inj hk
      exact Nat.lt_succ_self _
    · rw [Function.update_of_ne heq] at hk
      exact Nat.lt_succ_of_lt (h.indexed i k hk)
  · intro i
    rw [hwasTool]
    by_cases heq : i = index
    · subst heq
      rw [Function.update_self, Function.update_self]
      rfl
    · rw [Function.update_of_ne heq, Function.update_of_ne heq]
      exact h.wasTool i

/-- A fragment of the arguments of an open tool call is sent on. -/
theorem continueCall (h : ToolsAgree t blocks toolIndex nextIndex calls trace)
    (hmem : index ∈ t.tools) {state : BlockState} (hstate : blocks index = some state)
    {fragment : String} {k : ℕ} (hk : toolIndex index = some k) :
    ToolsAgree t
      (Function.update blocks index (some { state with argsAcc := state.argsAcc ++ fragment }))
      toolIndex nextIndex calls (trace ++ [.toolCallDelta k none none (some fragment)]) := by
  obtain ⟨q, hq⟩ := List.getElem?_of_mem hmem
  obtain ⟨hindexq, s, hs, hstool, hscall⟩ := h.opened q index hq
  obtain rfl := Option.some.inj (hstate.symm.trans hs)
  obtain rfl := Option.some.inj (hk.symm.trans hindexq)
  have hother (j : ℕ) (hj : j ≠ calls.length + q) :
      toolDeltas [.toolCallDelta (calls.length + q) none none (some fragment)] j = [] := by
    simp [toolDeltas, SamplingEvent.toolDelta, Ne.symm hj]
  refine ⟨h.counted, ?_, h.complete, ?_, ?_, h.indexed, h.wasTool⟩
  · intro p i hi
    by_cases heq : i = index
    · subst heq
      obtain rfl := h.position_unique hq hi
      rw [Function.update_self, clientCall_append_delta, ← hscall]
      exact ⟨hindexq, _, rfl, hstool, rfl⟩
    · have hne : p ≠ q := by
        rintro rfl
        exact heq (Option.some.inj (hi.symm.trans hq))
      rw [Function.update_of_ne heq, clientCall_append_of_nil (hother _ (by omega))]
      exact h.opened p i hi
  · intro j call hcall
    obtain ⟨hj, _⟩ := List.getElem?_eq_some_iff.mp hcall
    rw [clientCall_append_of_nil (hother j (by omega))]
    exact h.gathered j call hcall
  · intro j
    by_cases hj : j = calls.length + q
    · subst hj
      have hlt := h.indexed index _ hindexq
      simp [toolDeltas, SamplingEvent.toolDelta, hlt]
    · rw [toolDeltas_append, hother j hj, List.append_nil]
      exact h.announced j

/-- An empty fragment of arguments may be sent on for any announced tool call. -/
theorem continueBlank (h : ToolsAgree t blocks toolIndex nextIndex calls trace) {k : ℕ}
    (hk : k < nextIndex) :
    ToolsAgree t blocks toolIndex nextIndex calls
      (trace ++ [.toolCallDelta k none none (some "")]) := by
  have hsame (j : ℕ) : clientCall (trace ++ [.toolCallDelta k none none (some "")]) j =
      clientCall trace j := by
    by_cases hj : j = k
    · subst hj
      rw [clientCall_append_delta]
      simp
    · apply clientCall_append_of_nil
      simp [toolDeltas, SamplingEvent.toolDelta, Ne.symm hj]
  refine ⟨h.counted, ?_, h.complete, ?_, ?_, h.indexed, h.wasTool⟩
  · intro p i hi
    rw [hsame]
    exact h.opened p i hi
  · intro j call hcall
    rw [hsame]
    exact h.gathered j call hcall
  · intro j
    by_cases hj : j = k
    · subst hj
      simp [toolDeltas, SamplingEvent.toolDelta, hk]
    · rw [← h.announced j, toolDeltas_append]
      simp [toolDeltas, SamplingEvent.toolDelta, Ne.symm hj]

theorem closeCall (h : ToolsAgree t blocks toolIndex nextIndex calls trace)
    {rest : List ℕ} (htools : t.tools = index :: rest) {state : BlockState}
    (hstate : blocks index = some state) {t' : Track} (htools' : t'.tools = rest)
    (hwasTool : t'.wasTool = t.wasTool)
    (hblocks' : t'.blocks = Function.update t.blocks index none) :
    ToolsAgree t' (Function.update blocks index none) toolIndex nextIndex
      (calls ++ [state.toolCall]) trace := by
  have hlength : (calls ++ [state.toolCall]).length = calls.length + 1 := List.length_append
  have hfirst : t.tools[0]? = some index := by
    rw [htools]
    rfl
  have hshift (p : ℕ) : t.tools[p + 1]? = rest[p]? := by
    rw [htools, List.getElem?_cons_succ]
  obtain ⟨hindex, s, hs, hstool, hscall⟩ := h.opened 0 index hfirst
  obtain rfl := Option.some.inj (hstate.symm.trans hs)
  refine ⟨?_, ?_, ?_, ?_, h.announced, h.indexed, ?_⟩
  · rw [h.counted, hlength, htools', htools, List.length_cons]
    omega
  · intro p i hi
    rw [htools', ← hshift] at hi
    have hne : i ≠ index := by
      rintro rfl
      cases h.position_unique hi hfirst
    rw [Function.update_of_ne hne, hlength, Nat.add_assoc, Nat.add_comm 1 p]
    exact h.opened (p + 1) i hi
  · intro i hi
    rw [hblocks'] at hi
    rw [htools']
    by_cases heq : i = index
    · subst heq
      rw [Function.update_self] at hi
      cases hi
    · rw [Function.update_of_ne heq] at hi
      have hmem := h.complete i hi
      rw [htools] at hmem
      exact (List.mem_cons.mp hmem).resolve_left heq
  · intro k call hcall
    rw [List.getElem?_append] at hcall
    split at hcall
    · exact h.gathered k call hcall
    · rw [List.getElem?_singleton] at hcall
      split at hcall
      · have hk : k = calls.length := by omega
        obtain rfl := Option.some.inj hcall
        rw [hk]
        exact hscall
      · cases hcall
  · rw [hwasTool]
    exact h.wasTool

end ToolsAgree

end Tools

namespace MessagesAcc

/-- What is gathered and what was sent agree. -/
structure Agrees (s : MessagesAcc) (t : Track) (trace : List SamplingEvent) : Prop where
  types : ∀ i, (t.blocks i).map OpenBlock.type = (s.blocks i).map BlockState.blockType
  texts : ∃ closed shown,
    TextAgrees t s.blocks s.assistantText (textTokens trace) closed shown
  tools : ToolsAgree t s.blocks s.blockToToolIndex s.nextToolIndex s.assistantToolCalls trace

section Agrees

variable {s : MessagesAcc} {t t' : Track} {trace : List SamplingEvent}

variable {index : ℕ} {state : BlockState}

/-- A block with a text that was shown is a text. -/
theorem Agrees.not_mem_texts (h : s.Agrees t trace)
    (hstate : s.blocks index = some state) (htype : state.blockType ≠ .text) :
    index ∉ t.texts := by
  intro hmem
  obtain ⟨closed, shown, htexts⟩ := h.texts
  have heq := (h.types index).symm.trans (htexts.begun index hmem).2
  rw [hstate] at heq
  exact htype (Option.some.inj heq)

/-- An open tool call is one. -/
theorem Agrees.not_mem_tools (h : s.Agrees t trace)
    (hstate : s.blocks index = some state) (htype : state.blockType ≠ .toolUse) :
    index ∉ t.tools := by
  intro hmem
  obtain ⟨p, hp⟩ := List.getElem?_of_mem hmem
  obtain ⟨_, s', hs', htype', _⟩ := h.tools.opened p index hp
  obtain rfl := Option.some.inj (hstate.symm.trans hs')
  exact htype htype'

theorem types_update (h : s.Agrees t trace) {state : Option BlockState} {block : Option OpenBlock}
    (htype : block.map OpenBlock.type = state.map BlockState.blockType) (i : ℕ) :
    (Function.update t.blocks index block i).map OpenBlock.type =
      (Function.update s.blocks index state i).map BlockState.blockType := by
  by_cases hi : i = index
  · subst hi
    rw [Function.update_self, Function.update_self]
    exact htype
  · rw [Function.update_of_ne hi, Function.update_of_ne hi]
    exact h.types i

/-- Events without tokens of the text channel and without parts of tool calls. -/
theorem Agrees.more {s' : MessagesAcc} (h : s.Agrees t trace) {out : List SamplingEvent}
    (htokens : textTokens out = []) (hdeltas : ∀ k, toolDeltas out k = [])
    (hblocks : s'.blocks = s.blocks) (htext : s'.assistantText = s.assistantText)
    (hcalls : s'.assistantToolCalls = s.assistantToolCalls)
    (hnext : s'.nextToolIndex = s.nextToolIndex)
    (hindex : s'.blockToToolIndex = s.blockToToolIndex) : s'.Agrees t (trace ++ out) where
  types := by
    rw [hblocks]
    exact h.types
  texts := by
    rw [hblocks, htext, textTokens_append, htokens, List.append_nil]
    exact h.texts
  tools := by
    rw [hblocks, hcalls, hnext, hindex]
    exact h.tools.more hdeltas

theorem Agrees.announceFirst (h : s.Agrees t trace) :
    (announceFirst s).1.Agrees t (trace ++ (announceFirst s).2) := by
  rw [MessagesAcc.announceFirst]
  split
  · rw [List.append_nil]
    exact h
  · exact h.more rfl (fun _ => rfl) rfl rfl rfl rfl rfl

/-- A token behind a change that only the tokens may show. -/
theorem sendToken_same (channel : SamplingChannel) (text : String) (s : MessagesAcc) :
    (sendToken channel text s).1.blocks = s.blocks ∧
      (sendToken channel text s).1.assistantText = s.assistantText ∧
      (sendToken channel text s).1.assistantToolCalls = s.assistantToolCalls ∧
      (sendToken channel text s).1.nextToolIndex = s.nextToolIndex ∧
      (sendToken channel text s).1.blockToToolIndex = s.blockToToolIndex := by
  rw [sendToken, Transform.andThen, MessagesAcc.announceFirst]
  split <;> exact ⟨rfl, rfl, rfl, rfl, rfl⟩

theorem textTokens_sendToken (channel : SamplingChannel) (text : String) (s : MessagesAcc) :
    textTokens (sendToken channel text s).2 = if channel = .text then [text] else [] := by
  rw [sendToken, Transform.andThen, MessagesAcc.announceFirst]
  split <;> cases channel <;> rfl

theorem toolDeltas_sendToken (channel : SamplingChannel) (text : String) (s : MessagesAcc)
    (k : ℕ) : toolDeltas (sendToken channel text s).2 k = [] := by
  rw [sendToken, Transform.andThen, MessagesAcc.announceFirst]
  split <;> rfl

/-- A block is opened as the raw events tell it. -/
theorem Agrees.startBlock {J : Type*} (h : s.Agrees t trace)
    {contentBlock : ContentBlock J} (hnext : t.openBlock index contentBlock = some t') :
    (startBlock index contentBlock s).1.Agrees t'
      (trace ++ (startBlock index contentBlock s).2) := by
  have hsilent {state : BlockState} {block : OpenBlock} (hfree : index ∉ t.texts ∧ index ∉ t.tools)
      (htype : block.type = state.blockType) (htool : block.type ≠ .toolUse)
      (hinitial : ∀ initial, block = .text initial → state.textAcc = initial) :
      (openBlock index state s).Agrees (t.setBlock index (some block)) trace := by
    obtain ⟨closed, shown, htexts⟩ := h.texts
    refine ⟨types_update h (congrArg some htype), ⟨closed, shown, ?_⟩, ?_⟩
    · refine htexts.change hfree.1 ?_ rfl rfl
      intro state' initial hstate hblock
      cases hstate
      exact hinitial initial (Option.some.inj hblock)
    · refine h.tools.change hfree.2 ?_ rfl rfl rfl
      intro heq
      exact htool (Option.some.inj heq)
  cases contentBlock with
  | thinking thinking signature =>
    rw [Track.openBlock] at hnext
    split at hnext
    · rename_i hfree
      cases hnext
      refine (hsilent hfree rfl ?_ ?_).announceFirst
      · intro heq
        cases heq
      · intro initial heq
        cases heq
    · cases hnext
  | text text cacheControl =>
    rw [Track.openBlock] at hnext
    split at hnext
    · rename_i hfree
      cases hnext
      refine Agrees.announceFirst (hsilent hfree rfl ?_ ?_)
      · intro heq
        cases heq
      · intro initial hinitial
        exact OpenBlock.text.inj hinitial
    · cases hnext
  | toolUse id name input cacheControl =>
    rw [Track.openBlock] at hnext
    split at hnext
    · rename_i hfree
      cases hnext
      obtain ⟨closed, shown, htexts⟩ := h.texts
      refine ⟨types_update h rfl, ⟨closed, shown, ?_⟩, ?_⟩
      · have htokens : textTokens (trace ++
            [.toolCallDelta s.nextToolIndex (some id) (some name) none]) = textTokens trace :=
          (textTokens_append _ _).trans (List.append_nil _)
        refine (htokens ▸ htexts).change hfree.1 ?_ rfl rfl
        intro state initial _ hblock
        cases hblock
      · exact @ToolsAgree.openCall _ _ _ _ _ _ h.tools _ hfree.2 ⟨.toolUse, "", name, id, "", "", ""⟩
          rfl rfl _ rfl rfl rfl
    · cases hnext
  | redactedThinking | image | toolResult =>
    cases hnext
    exact h.more rfl (fun _ => rfl) rfl rfl rfl rfl rfl

/-- A block is continued as the raw events tell it. -/
theorem Agrees.continueBlock (h : s.Agrees t trace)
    {block : OpenBlock} (hstate : s.blocks index = some state)
    (hblock : t.blocks index = some block) {delta : StreamDelta}
    (hnext : t.continueBlock index block delta = some t') :
    (continueBlock index state delta s).1.Agrees t'
      (trace ++ (continueBlock index state delta s).2) := by
  have htype : block.type = state.blockType := by
    have htypes := h.types index
    rw [hblock, hstate] at htypes
    exact Option.some.inj htypes
  obtain ⟨closed, shown, htexts⟩ := h.texts
  have htypes {state' : BlockState} (hsame : state'.blockType = state.blockType) (i : ℕ) :
      (t.blocks i).map OpenBlock.type =
        (Function.update s.blocks index (some state') i).map BlockState.blockType := by
    by_cases hi : i = index
    · subst hi
      rw [Function.update_self, hblock, Option.map_some, Option.map_some, htype, hsame]
    · rw [Function.update_of_ne hi]
      exact h.types i
  have hsilent (state' : BlockState) (hsame : state'.blockType = state.blockType)
      (htext : state'.textAcc = state.textAcc) (hcall : state'.toolCall = state.toolCall) :
      (openBlock index state' s).Agrees t trace :=
    ⟨htypes hsame, ⟨closed, shown, htexts.keep hstate state' htext⟩,
      h.tools.keep hstate state' hsame (fun _ => hcall) rfl rfl rfl⟩
  cases delta with
  | thinkingDelta thinking =>
    cases hnext
    rw [MessagesAcc.continueBlock]
    split
    · exact h.more rfl (fun _ => rfl) rfl rfl rfl rfl rfl
    · obtain ⟨hblocks, htext, hcalls, hindex, hmap⟩ := sendToken_same .reasoning thinking
        (openBlock index { state with thinkingAcc := state.thinkingAcc ++ thinking } s)
      have hkept := hsilent { state with thinkingAcc := state.thinkingAcc ++ thinking } rfl rfl rfl
      exact hkept.more (textTokens_sendToken _ _ _) (toolDeltas_sendToken _ _ _) hblocks htext hcalls hindex hmap
  | signatureDelta signature =>
    cases hnext
    exact (hsilent { state with signature := signature } rfl rfl rfl).more rfl (fun _ => rfl) rfl rfl
      rfl rfl rfl
  | textDelta text =>
    rw [MessagesAcc.continueBlock]
    rw [Track.continueBlock] at hnext
    by_cases hempty : text = ""
    · rw [if_pos (Or.inl hempty)] at hnext
      cases hnext
      rw [if_pos hempty]
      exact h.more rfl (fun _ => rfl) rfl rfl rfl rfl rfl
    · rw [if_neg hempty]
      obtain ⟨before, htexts', hbefore, hold, htools', hwasTool', hblocks', hkind⟩ :
          ∃ before, t'.texts = before ++ [index] ∧ index ∉ before ∧
            (t.texts = before ++ [index] ∨ t.texts = before) ∧ t'.tools = t.tools ∧
            t'.wasTool = t.wasTool ∧ t'.blocks = t.blocks ∧ block.type = .text := by
        split at hnext
        · rename_i hlast
          obtain ⟨hkind, hlast⟩ := hlast.resolve_left hempty
          cases hnext
          obtain ⟨before, hbefore⟩ := List.getLast?_eq_some_iff.mp hlast
          refine ⟨before, hbefore, ?_, Or.inl hbefore, rfl, rfl, rfl, hkind⟩
          intro hmem
          have hnodup := List.nodup_append.mp (hbefore ▸ htexts.nodup)
          exact hnodup.2.2 index hmem index List.mem_cons_self rfl
        · split at hnext
          · rename_i hfresh
            cases hnext
            exact ⟨t.texts, rfl, hfresh.2, Or.inr rfl, rfl, rfl, rfl, hfresh.1⟩
          · cases hnext
      have hnottool : state.blockType ≠ .toolUse := by
        rw [← htype, hkind]
        simp
      obtain ⟨hblocks, htext, hcalls, hindex, hmap⟩ := sendToken_same .text text
        (openBlock index { state with textAcc := state.textAcc ++ text } s)
      rw [Transform.andThen, Transform.update]
      refine ⟨?_, ?_, ?_⟩
      · rw [hblocks, hblocks']
        exact htypes rfl
      · refine ⟨closed, Function.update shown index (shown index ++ [text]), ?_⟩
        rw [hblocks, htext, List.nil_append, textTokens_append, textTokens_sendToken, if_pos rfl]
        exact htexts.showText hempty hblocks' htexts' hbefore hold
          (by rw [hblock, Option.map_some, hkind]) hstate rfl
      · rw [hblocks, hcalls, hindex, hmap, List.nil_append]
        refine ToolsAgree.more ?_ (toolDeltas_sendToken _ _ _)
        exact h.tools.keep hstate { state with textAcc := state.textAcc ++ text } rfl
          (fun htool => (hnottool htool).elim) htools' hwasTool' hblocks'
  | inputJsonDelta partialJson =>
    rw [Track.continueBlock] at hnext
    split at hnext
    · rename_i hcond
      cases hnext
      rw [MessagesAcc.continueBlock]
      dsimp only
      have htokens (k : ℕ) : textTokens (trace ++ [.toolCallDelta k none none (some partialJson)]) =
          textTokens trace := (textTokens_append _ _).trans (List.append_nil _)
      have htexts' :=
        htexts.keep hstate { state with argsAcc := state.argsAcc ++ partialJson } rfl
      by_cases htool : block = .toolUse
      · have hmem : index ∈ t.tools := by
          apply h.tools.complete
          rw [hblock, htool]
          rfl
        obtain ⟨p, hp⟩ := List.getElem?_of_mem hmem
        have hk := (h.tools.opened p index hp).1
        rw [hk]
        refine ⟨htypes rfl, ⟨closed, shown, ?_⟩, h.tools.continueCall hmem hstate hk⟩
        rw [htokens]
        exact htexts'
      · have hnottool : state.blockType ≠ .toolUse := by
          rw [← htype]
          cases block with
          | toolUse => exact (htool rfl).elim
          | text | thinking => simp [OpenBlock.type]
        have htools' := h.tools.keep hstate { state with argsAcc := state.argsAcc ++ partialJson }
          rfl (fun htool => (hnottool htool).elim) rfl rfl rfl
        cases hindex : s.blockToToolIndex index with
        | none =>
          rw [List.append_nil]
          exact ⟨htypes rfl, ⟨closed, shown, htexts'⟩, htools'⟩
        | some k =>
          have hempty : partialJson = "" := by
            rcases hcond with hempty | hblock' | hwas
            · exact hempty
            · exact (htool hblock').elim
            · rw [h.tools.wasTool, hindex] at hwas
              cases hwas
          refine ⟨htypes rfl, ⟨closed, shown, ?_⟩, ?_⟩
          · rw [htokens]
            exact htexts'
          · have hcontinued := htools'.continueBlank (h.tools.indexed index k hindex)
            rw [← hempty] at hcontinued
            exact hcontinued
    · cases hnext

/-- A block is closed as the raw events tell it. -/
theorem Agrees.closeBlock (h : s.Agrees t trace)
    {block : OpenBlock} (hstate : s.blocks index = some state)
    (hblock : t.blocks index = some block) (hnext : t.closeBlock index block = some t') :
    (closeBlock state { s with blocks := Function.update s.blocks index none }).1.Agrees t'
      (trace ++
        (closeBlock state { s with blocks := Function.update s.blocks index none }).2) := by
  have htype : block.type = state.blockType := by
    have htypes := h.types index
    rw [hblock, hstate] at htypes
    exact Option.some.inj htypes
  obtain ⟨closed, shown, htexts⟩ := h.texts
  have hnone : (none : Option OpenBlock).map OpenBlock.type ≠ some .toolUse := by
    intro heq
    cases heq
  have hblank (state' : BlockState) (initial : String) (hnone : none = some state') :
      none = some (OpenBlock.text initial) → state'.textAcc = initial := by
    cases hnone
  have hgone (i : ℕ) : (Function.update t.blocks index none i).map OpenBlock.type =
      (Function.update s.blocks index none i).map BlockState.blockType := types_update h rfl i
  cases block with
  | text initial =>
    have hnottool : index ∉ t.tools := by
      apply h.not_mem_tools hstate
      rw [← htype]
      simp [OpenBlock.type]
    have hkind : state.blockType = .text := htype.symm
    rw [Track.closeBlock] at hnext
    split at hnext
    · rename_i hcond
      obtain ⟨rfl, hplace⟩ := hcond
      cases hnext
      rw [MessagesAcc.closeBlock, hkind]
      dsimp only
      rw [List.append_nil]
      have hacc : state.textAcc = String.join (shown index) := by
        rw [htexts.gathered index state "" hstate hblock, String.empty_append]
      have htools' : ToolsAgree
          { t.setBlock index none with texts := t.texts.erase index }
          (Function.update s.blocks index none) s.blockToToolIndex s.nextToolIndex
          s.assistantToolCalls trace :=
        h.tools.change hnottool hnone rfl rfl rfl
      by_cases hmem : index ∈ t.texts
      · have hhead := hplace.resolve_right (fun hnot => hnot hmem)
        obtain ⟨rest, hrest⟩ := List.head?_eq_some_iff.mp hhead
        have hshown : state.textAcc ≠ "" := by
          rw [hacc]
          exact (htexts.begun index hmem).1
        rw [if_neg hshown]
        refine ⟨hgone, ⟨_, _, htexts.closeShown hrest hstate hblock ?_ rfl⟩, htools'⟩
        dsimp only
        rw [hrest, List.erase_cons_head]
      · have hempty : state.textAcc = "" := by
          rw [hacc, htexts.blank index hmem, String.join_nil]
        rw [if_pos hempty]
        refine ⟨hgone, ⟨closed, shown, ?_⟩, htools'⟩
        exact htexts.change hmem hblank (List.erase_of_not_mem hmem) rfl
    · cases hnext
  | thinking =>
    have hkind : state.blockType = .thinking := htype.symm
    have hnottext : index ∉ t.texts := by
      apply h.not_mem_texts hstate
      rw [hkind]
      simp
    have hnottool : index ∉ t.tools := by
      apply h.not_mem_tools hstate
      rw [hkind]
      simp
    cases hnext
    have hclosed : MessagesAcc.Agrees { s with blocks := Function.update s.blocks index none }
        (t.setBlock index none) trace :=
      ⟨hgone, ⟨closed, shown, htexts.change hnottext hblank rfl rfl⟩,
        h.tools.change hnottool hnone rfl rfl rfl⟩
    rw [MessagesAcc.closeBlock, hkind]
    dsimp only
    split
    · exact hclosed.more rfl (fun _ => rfl) rfl rfl rfl rfl rfl
    · exact hclosed.more rfl (fun _ => rfl) rfl rfl rfl rfl rfl
  | toolUse =>
    have hkind : state.blockType = .toolUse := htype.symm
    have hnottext : index ∉ t.texts := by
      apply h.not_mem_texts hstate
      rw [hkind]
      simp
    rw [Track.closeBlock] at hnext
    split at hnext
    · rename_i hhead
      obtain ⟨rest, hrest⟩ := List.head?_eq_some_iff.mp hhead
      cases hnext
      rw [MessagesAcc.closeBlock, hkind]
      dsimp only
      rw [List.append_nil]
      refine ⟨hgone, ⟨closed, shown, htexts.change hnottext hblank rfl rfl⟩, ?_⟩
      refine h.tools.closeCall hrest hstate ?_ rfl rfl
      dsimp only
      rw [hrest, List.tail_cons]
    · cases hnext

/-- A raw event in order keeps what was gathered and what was sent the same. -/
theorem Agrees.readEvent {J : Type*} (h : s.Agrees t trace) {e : MessageStreamEvent J}
    (hnext : t.next e = some t') :
    (readEvent e s).1.Agrees t' (trace ++ (readEvent e s).2) := by
  cases e with
  | messageStart | messageDelta | messageStop | ping | error =>
    cases hnext
    exact h.more rfl (fun _ => rfl) rfl rfl rfl rfl rfl
  | contentBlockStart index contentBlock => exact h.startBlock hnext
  | contentBlockDelta index | contentBlockStop index =>
    have htypes := h.types index
    rw [Track.next] at hnext
    rw [MessagesAcc.readEvent]
    dsimp only
    cases hstate : s.blocks index with
    | none =>
      rw [hstate] at htypes
      rw [Option.map_eq_none_iff.mp htypes] at hnext
      cases hnext
      exact h.more rfl (fun _ => rfl) rfl rfl rfl rfl rfl
    | some state =>
      cases hblock : t.blocks index with
      | none =>
        rw [hstate, hblock] at htypes
        cases htypes
      | some block =>
        rw [hblock] at hnext
        first
        | exact h.continueBlock hstate hblock hnext
        | exact h.closeBlock hstate hblock hnext

end Agrees

/-- What is gathered behind a raw stream, and what was sent until then. -/
structure Follows {J : Type*} (s : MessagesAcc) (seen : List (RawItem (MessageStreamEvent J)))
    (trace : List SamplingEvent) : Prop where
  watched : s.Watched trace
  agrees : ∀ t, Track.start.run seen = some t → s.Agrees t trace

theorem Follows.handle {J : Type*} {s s' : MessagesAcc}
    {seen : List (RawItem (MessageStreamEvent J))} {trace out : List SamplingEvent}
    (h : s.Follows seen trace) {e : MessageStreamEvent J} {stalled : Bool}
    (hhandle : MessagesAcc.handle s e = .ok (s', out)) :
    s'.Follows (seen ++ [.event e stalled]) (trace ++ out) := by
  have hread : readEvent e s = (s', out) := by
    cases e <;> first | exact Except.ok.inj hhandle | cases hhandle
  have hstate : s' = (readEvent e s).1 := by rw [hread]
  have hout : out = (readEvent e s).2 := by rw [hread]
  rw [hstate, hout]
  refine ⟨watched_readEvent e s trace h.watched, ?_⟩
  intro t' ht'
  rw [Track.run, List.foldlM_append] at ht'
  obtain ⟨t, ht, hlast⟩ := Option.bind_eq_some_iff.mp ht'
  rw [List.foldlM_cons] at hlast
  obtain ⟨t₁, hnext, hend⟩ := Option.bind_eq_some_iff.mp hlast
  obtain rfl := Option.some.inj hend
  exact (h.agrees t ht).readEvent hnext

end MessagesAcc

end Ezer.Sampling
