import Ezer.Sampling.MessagesStream

/-!
# What a response keeps of the blocks

A raw stream whose blocks are opened, continued by pieces of their own kind and
closed says what each block holds. The response joins the texts and lists the
tool calls, and has room for the reasoning of one block.
-/

namespace Ezer.Sampling

open Ezer.Lib Ezer.ChatState

/-- What the events say of a block. -/
inductive BlockContent where
  | text (body : String)
  | toolUse (id name arguments : String)
  | thinking (thought signature : String)
  | unread

namespace BlockContent

/-- What a block holds as it is opened. The arguments of a tool call come in pieces only. -/
def opened {J : Type*} : ContentBlock J → BlockContent
  | .thinking thought signature => .thinking thought signature
  | .text body _ => .text body
  | .toolUse id name _ _ => .toolUse id name ""
  | .redactedThinking _ | .image _ _ | .toolResult _ _ _ => .unread

/-- What a block holds with one more piece, if the piece is of its kind. -/
def extend : BlockContent → StreamDelta → Option BlockContent
  | .text body, .textDelta more => some (.text (body ++ more))
  | .toolUse id name arguments, .inputJsonDelta more =>
    some (.toolUse id name (arguments ++ more))
  | .thinking thought signature, .thinkingDelta more =>
    some (.thinking (thought ++ more) signature)
  | .thinking thought _, .signatureDelta signature => some (.thinking thought signature)
  | _, _ => none

/-- The text of a text block that has any. -/
def text? : BlockContent → Option String
  | .text body => if body = "" then none else some body
  | _ => none

/-- The call of a tool block. -/
def toolCall? : BlockContent → Option ToolCall
  | .toolUse id name arguments => some ⟨id, name, arguments⟩
  | _ => none

/-- The text of a thinking block together with its signature, if it has either. -/
def signedThinking? : BlockContent → Option (String × String)
  | .thinking thought signature =>
    if thought = "" ∧ signature = "" then none else some (thought, signature)
  | _ => none

end BlockContent

/-- The open blocks and the closed ones, in the order in which they were closed. -/
structure Ledger where
  opened : ℕ → Option BlockContent
  closed : List BlockContent

namespace Ledger

/-- No block. -/
def start : Ledger := ⟨fun _ => none, []⟩

/-- Follow an event: a block is opened where none is, continued by a piece of its own kind, and
closed while it is open. -/
def next {J : Type*} (l : Ledger) : MessageStreamEvent J → Option Ledger
  | .contentBlockStart index contentBlock =>
    match l.opened index with
    | some _ => none
    | none =>
      some { l with
        opened := Function.update l.opened index (some (BlockContent.opened contentBlock)) }
  | .contentBlockDelta index delta =>
    match l.opened index with
    | none => none
    | some content =>
      (content.extend delta).map fun content =>
        { l with opened := Function.update l.opened index (some content) }
  | .contentBlockStop index =>
    match l.opened index with
    | none => none
    | some content =>
      some ⟨Function.update l.opened index none, l.closed ++ [content]⟩
  | .messageStart _ _ _ | .messageDelta _ _ | .messageStop | .ping => some l
  | .error _ _ => none

/-- Follow an item that comes in time. -/
def nextItem {J : Type*} (l : Ledger) : RawItem (MessageStreamEvent J) → Option Ledger
  | .event e stalled => if !messagesEventHasMeaningfulContent e && stalled then none else l.next e
  | .idle | .error _ => none

/-- Follow a raw stream. -/
def run {J : Type*} (l : Ledger) (items : List (RawItem (MessageStreamEvent J))) :
    Option Ledger :=
  items.foldlM nextItem l

end Ledger

/-- A raw stream is well formed, and its blocks are these, in the order in which they stopped. -/
def WellFormed {J : Type*} (items : List (RawItem (MessageStreamEvent J)))
    (blocks : List BlockContent) : Prop :=
  ∃ l, Ledger.start.run items = some l ∧ l.closed = blocks ∧ ∀ index, l.opened index = none

/-- The text of a reasoning item together with its signature. -/
def signedText (r : ReasoningItem) : String × String :=
  (String.join r.summary, r.encryptedContent.getD "")

/-- The reasoning of an item. -/
def asReasoning : ConversationItem → Option ReasoningItem
  | .reasoning r => some r
  | _ => none

/-- The message of an item. -/
def asAssistant : ConversationItem → Option AssistantItem
  | .assistant a => some a
  | _ => none

/-- The response has every signed thinking text as an item of its own. -/
def KeepsThinking (blocks : List BlockContent) (response : ConversationResponse) : Prop :=
  (response.items.filterMap asReasoning).map signedText =
    blocks.filterMap BlockContent.signedThinking?

/-- The response has every text and every tool call, in one message. -/
def KeepsMessage (blocks : List BlockContent) (response : ConversationResponse) : Prop :=
  ∃ message, response.items.filterMap asAssistant = [message] ∧
    message.content = "\n".intercalate (blocks.filterMap BlockContent.text?) ∧
    message.toolCalls = blocks.filterMap BlockContent.toolCall?

/-- The response has the content of every block. -/
def KeepsBlocks (blocks : List BlockContent) (response : ConversationResponse) : Prop :=
  KeepsThinking blocks response ∧ KeepsMessage blocks response

namespace BlockContent

/-- The open block that is kept for what the events say of it. -/
def blockState : BlockContent → Option BlockState
  | .text body => some { blockType := .text, textAcc := body }
  | .toolUse id name arguments =>
    some { blockType := .toolUse, toolName := name, toolId := id, argsAcc := arguments }
  | .thinking thought signature =>
    some { blockType := .thinking, thinkingAcc := thought, signature := signature }
  | .unread => none

/-- The reasoning item of a block. -/
def reasoning? (content : BlockContent) : Option ReasoningItem :=
  match content with
  | .thinking thought signature =>
    MessagesAcc.reasoningOf
      { blockType := .thinking, thinkingAcc := thought, signature := signature }
  | _ => none

theorem ne_empty_of_text? {content : BlockContent} {t : String} (h : content.text? = some t) :
    t ≠ "" := by
  cases content with
  | text body =>
    simp only [text?, Option.ite_none_left_eq_some, Option.some.injEq] at h
    exact h.2 ▸ h.1
  | toolUse | thinking | unread => cases h

theorem map_signedText_reasoning? (content : BlockContent) :
    content.reasoning?.map signedText = content.signedThinking? := by
  cases content with
  | thinking thought signature =>
    unfold reasoning? MessagesAcc.reasoningOf signedThinking? signedText
    by_cases hthought : thought = "" <;> by_cases hsignature : signature = "" <;>
      simp [hthought, hsignature, String.join]
  | text | toolUse | unread => rfl

theorem map_signedText_filterMap (blocks : List BlockContent) :
    (blocks.filterMap reasoning?).map signedText = blocks.filterMap signedThinking? := by
  rw [List.map_filterMap]
  exact congrArg (fun f => blocks.filterMap f) (funext map_signedText_reasoning?)

end BlockContent

namespace MessagesAcc

/-- What is gathered agrees with what the events say of the blocks: the open ones are kept as they
are, the closed ones are in the text, the calls and the last reasoning. -/
structure Gathers (s : MessagesAcc) (l : Ledger) : Prop where
  blocks : ∀ index, s.blocks index = (l.opened index).bind BlockContent.blockState
  text : s.assistantText = "\n".intercalate (l.closed.filterMap BlockContent.text?)
  toolCalls : s.assistantToolCalls = l.closed.filterMap BlockContent.toolCall?
  reasoning : s.assistantReasoning = (l.closed.filterMap BlockContent.reasoning?).getLast?

namespace Gathers

variable {s : MessagesAcc} {l : Ledger}

theorem start : Gathers MessagesAcc.start Ledger.start where
  blocks _ := rfl
  text := rfl
  toolCalls := rfl
  reasoning := rfl

theorem announceFirst (h : Gathers s l) : Gathers (announceFirst s).1 l := by
  unfold MessagesAcc.announceFirst
  split
  · exact h
  · exact ⟨h.blocks, h.text, h.toolCalls, h.reasoning⟩

theorem sendToken (h : Gathers s l) (channel : SamplingChannel) (text : String) :
    Gathers (sendToken channel text s).1 l :=
  ⟨h.announceFirst.blocks, h.announceFirst.text, h.announceFirst.toolCalls,
    h.announceFirst.reasoning⟩

/-- A block that is read is kept as the events say. -/
theorem openBlock (h : Gathers s l) (index : ℕ) {content : BlockContent} {state : BlockState}
    (hstate : content.blockState = some state) :
    Gathers (openBlock index state s)
      { l with opened := Function.update l.opened index (some content) } where
  blocks i := by
    by_cases hi : i = index
    · subst hi
      simp [MessagesAcc.openBlock, hstate]
    · simp [MessagesAcc.openBlock, hi, h.blocks i]
  text := h.text
  toolCalls := h.toolCalls
  reasoning := h.reasoning

/-- A block that is not read leaves what is gathered alone. -/
theorem openUnread (h : Gathers s l) {index : ℕ} (hfree : l.opened index = none) :
    Gathers s { l with opened := Function.update l.opened index (some .unread) } where
  blocks i := by
    by_cases hi : i = index
    · subst hi
      simp [BlockContent.blockState, h.blocks i, hfree]
    · simp [hi, h.blocks i]
  text := h.text
  toolCalls := h.toolCalls
  reasoning := h.reasoning

theorem startBlock {J : Type*} (h : Gathers s l) {index : ℕ} (hfree : l.opened index = none)
    (contentBlock : ContentBlock J) :
    Gathers (startBlock index contentBlock s).1
      { l with
        opened := Function.update l.opened index (some (BlockContent.opened contentBlock)) } := by
  cases contentBlock with
  | thinking | text => exact (h.openBlock index rfl).announceFirst
  | toolUse id name input cacheControl =>
    have hopen := h.openBlock index
      (show (BlockContent.toolUse id name "").blockState = some _ from rfl)
    exact ⟨hopen.blocks, hopen.text, hopen.toolCalls, hopen.reasoning⟩
  | redactedThinking | image | toolResult => exact h.openUnread hfree

/-- A piece of its own kind extends a block as the events say. -/
theorem continueBlock (h : Gathers s l) {index : ℕ} {content content' : BlockContent}
    {state : BlockState} {delta : StreamDelta} (hopen : l.opened index = some content)
    (hstate : content.blockState = some state) (hextend : content.extend delta = some content') :
    Gathers (continueBlock index state delta s).1
      { l with opened := Function.update l.opened index (some content') } := by
  have hsame (hcontent : content' = content) :
      Gathers s { l with opened := Function.update l.opened index (some content') } := by
    rw [hcontent, ← hopen, Function.update_eq_self]
    exact h
  cases content <;> cases delta <;>
    simp only [BlockContent.extend, Option.some.injEq, reduceCtorEq] at hextend <;>
    simp only [BlockContent.blockState, Option.some.injEq] at hstate <;>
    subst hextend hstate
  case text.textDelta body more =>
    rw [MessagesAcc.continueBlock]
    split
    · rename_i hmore
      exact hsame (by rw [hmore, String.append_empty])
    · exact (h.openBlock index rfl).sendToken .text more
  case toolUse.inputJsonDelta id name arguments more => exact h.openBlock index rfl
  case thinking.thinkingDelta thought signature more =>
    rw [MessagesAcc.continueBlock]
    split
    · rename_i hmore
      exact hsame (by rw [hmore, String.append_empty])
    · exact (h.openBlock index rfl).sendToken .reasoning more
  case thinking.signatureDelta thought signature more => exact h.openBlock index rfl

/-- A closed block goes where its kind is gathered. -/
theorem closeBlock (h : Gathers s l) {index : ℕ} {content : BlockContent} {state : BlockState}
    (hstate : content.blockState = some state) :
    Gathers (closeBlock state { s with blocks := Function.update s.blocks index none }).1
      ⟨Function.update l.opened index none, l.closed ++ [content]⟩ := by
  have hblocks (i : ℕ) : Function.update s.blocks index none i =
      (Function.update l.opened index none i).bind BlockContent.blockState := by
    by_cases hi : i = index
    · subst hi
      simp
    · simp [hi, h.blocks i]
  cases content with
  | text body =>
    cases hstate
    have hcalls : ([BlockContent.text body].filterMap BlockContent.toolCall?) = [] := rfl
    have hreasoning : ([BlockContent.text body].filterMap BlockContent.reasoning?) = [] := rfl
    by_cases hbody : body = ""
    · have htext : ([BlockContent.text body].filterMap BlockContent.text?) = [] := by
        simp [BlockContent.text?, hbody]
      simp only [MessagesAcc.closeBlock, hbody, if_true]
      rw [← hbody]
      constructor
      · exact hblocks
      · rw [List.filterMap_append, htext, List.append_nil, h.text]
      · rw [List.filterMap_append, hcalls, List.append_nil, h.toolCalls]
      · rw [List.filterMap_append, hreasoning, List.append_nil, h.reasoning]
    · have htext : ([BlockContent.text body].filterMap BlockContent.text?) = [body] := by
        simp [BlockContent.text?, hbody]
      simp only [MessagesAcc.closeBlock, hbody, if_false]
      constructor
      · exact hblocks
      · rw [List.filterMap_append, htext, intercalate_concat_of_ne_empty, h.text]
        intro t ht
        obtain ⟨block, -, hblock⟩ := List.mem_filterMap.mp ht
        exact BlockContent.ne_empty_of_text? hblock
      · rw [List.filterMap_append, hcalls, List.append_nil, h.toolCalls]
      · rw [List.filterMap_append, hreasoning, List.append_nil, h.reasoning]
  | toolUse id name arguments =>
    cases hstate
    constructor
    · exact hblocks
    · rw [List.filterMap_append, MessagesAcc.closeBlock, h.text]
      exact congrArg _ (List.append_nil _).symm
    · rw [List.filterMap_append, MessagesAcc.closeBlock, h.toolCalls]
      rfl
    · rw [List.filterMap_append, MessagesAcc.closeBlock, h.reasoning]
      exact congrArg _ (List.append_nil _).symm
  | thinking thought signature =>
    cases hstate
    have hlast : ([BlockContent.thinking thought signature].filterMap
        BlockContent.reasoning?).getLast? =
        BlockContent.reasoning? (.thinking thought signature) := by
      rw [List.filterMap_cons, List.filterMap_nil]
      cases BlockContent.reasoning? (.thinking thought signature) <;> rfl
    constructor
    · exact hblocks
    · rw [List.filterMap_append, MessagesAcc.closeBlock, h.text]
      exact congrArg _ (List.append_nil _).symm
    · rw [List.filterMap_append, MessagesAcc.closeBlock, h.toolCalls]
      exact (List.append_nil _).symm
    · rw [List.filterMap_append, List.getLast?_append, hlast, ← h.reasoning]
      rfl
  | unread => cases hstate

/-- A block that is not read is closed without a trace. -/
theorem closeUnread (h : Gathers s l) {index : ℕ} (hopen : l.opened index = some .unread) :
    Gathers s ⟨Function.update l.opened index none, l.closed ++ [.unread]⟩ where
  blocks i := by
    by_cases hi : i = index
    · subst hi
      simp [h.blocks i, hopen, BlockContent.blockState]
    · simp [hi, h.blocks i]
  text := by
    rw [h.text, List.filterMap_append]
    exact congrArg _ (List.append_nil _).symm
  toolCalls := by simp [h.toolCalls, BlockContent.toolCall?]
  reasoning := by simp [h.reasoning, BlockContent.reasoning?]

/-- An event that is in order is read as the events say. -/
theorem readEvent {J : Type*} (h : Gathers s l) {e : MessageStreamEvent J} {l' : Ledger}
    (hnext : l.next e = some l') : Gathers (readEvent e s).1 l' := by
  have hsame {s' : MessagesAcc} (hblocks : s'.blocks = s.blocks)
      (htext : s'.assistantText = s.assistantText)
      (hcalls : s'.assistantToolCalls = s.assistantToolCalls)
      (hreasoning : s'.assistantReasoning = s.assistantReasoning) : Gathers s' l :=
    ⟨hblocks ▸ h.blocks, htext ▸ h.text, hcalls ▸ h.toolCalls, hreasoning ▸ h.reasoning⟩
  cases e with
  | contentBlockStart index contentBlock =>
    cases hopen : l.opened index with
    | some content => simp [Ledger.next, hopen] at hnext
    | none =>
      simp only [Ledger.next, hopen, Option.some.injEq] at hnext
      subst hnext
      exact h.startBlock hopen contentBlock
  | contentBlockDelta index delta =>
    cases hopen : l.opened index with
    | none => simp [Ledger.next, hopen] at hnext
    | some content =>
      simp only [Ledger.next, hopen, Option.map_eq_some_iff] at hnext
      obtain ⟨content', hextend, rfl⟩ := hnext
      have hblock := h.blocks index
      rw [hopen, Option.bind_some] at hblock
      cases hstate : content.blockState with
      | none => cases content <;> simp [BlockContent.extend, BlockContent.blockState] at *
      | some state =>
        rw [hstate] at hblock
        simp only [MessagesAcc.readEvent, hblock]
        exact h.continueBlock hopen hstate hextend
  | contentBlockStop index =>
    cases hopen : l.opened index with
    | none => simp [Ledger.next, hopen] at hnext
    | some content =>
      simp only [Ledger.next, hopen, Option.some.injEq] at hnext
      subst hnext
      have hblock := h.blocks index
      rw [hopen, Option.bind_some] at hblock
      cases hstate : content.blockState with
      | none =>
        rw [hstate] at hblock
        simp only [MessagesAcc.readEvent, hblock]
        cases content with
        | unread => exact h.closeUnread hopen
        | text | toolUse | thinking => simp [BlockContent.blockState] at hstate
      | some state =>
        rw [hstate] at hblock
        simp only [MessagesAcc.readEvent, hblock]
        exact h.closeBlock hstate
  | messageStart | messageDelta | messageStop | ping =>
    cases hnext
    exact hsame rfl rfl rfl rfl
  | error => cases hnext

/-- An item that comes in time and in order is read as the events say. -/
theorem readItem {J : Type*} (h : Gathers s l) (idleSecs : ℕ)
    {item : RawItem (MessageStreamEvent J)} {l' : Ledger} (hnext : l.nextItem item = some l') :
    ∃ s' out, readItem idleSecs MessagesAcc.handle messagesEventHasMeaningfulContent s item =
      .next s' out ∧ Gathers s' l' := by
  cases item with
  | idle | error => cases hnext
  | event e stalled =>
    rw [Ledger.nextItem] at hnext
    split at hnext
    · cases hnext
    · rename_i htime
      refine ⟨(MessagesAcc.readEvent e s).1, (MessagesAcc.readEvent e s).2, ?_,
        h.readEvent hnext⟩
      cases e with
      | error => cases hnext
      | ping =>
        simp only [Sampling.readItem, MessagesAcc.handle]
        rw [if_neg htime]
      | messageStart | messageDelta | messageStop | contentBlockStart | contentBlockDelta
        | contentBlockStop => rfl

/-- A raw stream that comes in time and in order is read to its end as the events say. -/
theorem runStream {J : Type*} (h : Gathers s l) (idleSecs : ℕ)
    {items : List (RawItem (MessageStreamEvent J))} {l' : Ledger}
    (hrun : l.run items = some l') :
    ∃ front s', runStream idleSecs MessagesAcc.handle messagesEventHasMeaningfulContent
      MessagesAcc.finish s items = front ++ [.completed s'.finish] ∧ Gathers s' l' := by
  induction items generalizing s l with
  | nil =>
    cases hrun
    exact ⟨[], s, rfl, h⟩
  | cons item items ih =>
    rw [Ledger.run, List.foldlM_cons] at hrun
    obtain ⟨l₁, hnext, hrest⟩ := Option.bind_eq_some_iff.mp hrun
    obtain ⟨s₁, out, hread, h₁⟩ := h.readItem idleSecs hnext
    obtain ⟨front, s', hfront, h'⟩ := ih h₁ hrest
    refine ⟨out ++ front, s', ?_, h'⟩
    rw [Sampling.runStream, hread]
    dsimp only
    rw [hfront, List.append_assoc]

/-- The message of the response has every text and every tool call. -/
theorem keepsMessage (h : Gathers s l) : KeepsMessage l.closed s.finish := by
  refine ⟨⟨s.assistantText, s.assistantToolCalls, some (s.finalModel.getD ""), none⟩, ?_,
    h.text, h.toolCalls⟩
  unfold finish
  cases s.assistantReasoning <;> rfl

theorem reasoning_finish (h : Gathers s l) :
    (s.finish.items.filterMap asReasoning).map signedText =
      (l.closed.filterMap BlockContent.signedThinking?).getLast?.toList := by
  rw [← BlockContent.map_signedText_filterMap, List.getLast?_map, ← h.reasoning]
  unfold finish
  cases s.assistantReasoning <;> rfl

/-- The response has the reasoning of every block exactly when one block at most has any. -/
theorem keepsThinking_iff (h : Gathers s l) :
    KeepsThinking l.closed s.finish ↔
      (l.closed.filterMap BlockContent.signedThinking?).length ≤ 1 := by
  rw [KeepsThinking, h.reasoning_finish]
  match l.closed.filterMap BlockContent.signedThinking? with
  | [] => simp
  | [_] => simp
  | first :: second :: rest =>
    refine iff_of_false (fun heq => ?_) (by simp)
    have := congrArg List.length heq
    cases hlast : (first :: second :: rest).getLast? <;> simp [hlast] at this

end Gathers

end MessagesAcc

/-- A well-formed stream is read to its end. -/
theorem streamMessages_of_wellFormed {J : Type*} (idleSecs : ℕ)
    (metadata : Option ResponseModelMetadata) {items : List (RawItem (MessageStreamEvent J))}
    {blocks : List BlockContent} (h : WellFormed items blocks) :
    ∃ front s l, streamMessages idleSecs metadata items =
      front ++ [.completed (MessagesAcc.finish s)] ∧ MessagesAcc.Gathers s l ∧
        l.closed = blocks := by
  obtain ⟨l, hrun, hclosed, -⟩ := h
  obtain ⟨front, s, hstream, hgathers⟩ := MessagesAcc.Gathers.start.runStream idleSecs hrun
  refine ⟨openingEvents metadata ++ front, s, l, ?_, hgathers, hclosed⟩
  rw [streamMessages, hstream, List.append_assoc]

/-- **The content of the blocks**: a well-formed stream is read to a response that joins every
text and lists every tool call, in the order in which the blocks stopped; it has every signed
thinking text exactly when one thinking block at most holds any. -/
theorem streamMessages_keepsBlocks {J : Type*} (idleSecs : ℕ)
    (metadata : Option ResponseModelMetadata) {items : List (RawItem (MessageStreamEvent J))}
    {blocks : List BlockContent} (h : WellFormed items blocks) :
    ∃ front response,
      streamMessages idleSecs metadata items = front ++ [.completed response] ∧
        KeepsMessage blocks response ∧
        (KeepsBlocks blocks response ↔
          (blocks.filterMap BlockContent.signedThinking?).length ≤ 1) := by
  obtain ⟨front, s, l, hstream, hgathers, rfl⟩ :=
    streamMessages_of_wellFormed idleSecs metadata h
  refine ⟨front, s.finish, hstream, hgathers.keepsMessage, ?_⟩
  rw [KeepsBlocks, hgathers.keepsThinking_iff]
  exact and_iff_left hgathers.keepsMessage

/-- A thinking block with a text and a signature. -/
def thinkingEvents (index : ℕ) (thought signature : String) : List (MessageStreamEvent Unit) :=
  [.contentBlockStart index (.thinking "" ""), .contentBlockDelta index (.thinkingDelta thought),
    .contentBlockDelta index (.signatureDelta signature), .contentBlockStop index]

/-- A text block and a tool call, one inside the other. -/
def callEvents : List (MessageStreamEvent Unit) :=
  [.contentBlockStart 1 (.toolUse "call" "read" () none), .contentBlockStart 2 (.text "" none),
    .contentBlockDelta 2 (.textDelta "done"), .contentBlockDelta 1 (.inputJsonDelta "[]"),
    .contentBlockStop 2, .contentBlockStop 1]

/-- Events that come in time. -/
def inTime (events : List (MessageStreamEvent Unit)) :
    List (RawItem (MessageStreamEvent Unit)) :=
  events.map fun e => .event e false

/-- A thinking block, a text and a tool call come whole. -/
theorem one_thinking_keepsBlocks :
    ∃ front response,
      streamMessages 60 none (inTime (thinkingEvents 0 "first" "sig-1" ++ callEvents)) =
        front ++ [.completed response] ∧
      KeepsBlocks [.thinking "first" "sig-1", .text "done", .toolUse "call" "read" "[]"]
        response := by
  obtain ⟨front, response, hstream, -, hkeeps⟩ := streamMessages_keepsBlocks 60 none
    (show WellFormed (inTime (thinkingEvents 0 "first" "sig-1" ++ callEvents))
        [.thinking "first" "sig-1", .text "done", .toolUse "call" "read" "[]"] from
      ⟨_, rfl, rfl, fun index =>
        match index with
        | 0 | 1 | 2 | _ + 3 => rfl⟩)
  exact ⟨front, response, hstream, hkeeps.mpr (by decide)⟩

/-- Of two thinking blocks around a tool call, the response has the second only. -/
theorem not_keepsBlocks :
    ¬ ∀ (items : List (RawItem (MessageStreamEvent Unit))) (blocks : List BlockContent)
      (front : List SamplingEvent) (response : ConversationResponse), WellFormed items blocks →
        streamMessages 60 none items = front ++ [.completed response] →
          KeepsBlocks blocks response := by
  intro h
  let items := inTime (thinkingEvents 0 "first" "sig-1" ++ callEvents ++
    thinkingEvents 3 "second" "sig-2")
  have hformed : WellFormed items [.thinking "first" "sig-1", .text "done",
      .toolUse "call" "read" "[]", .thinking "second" "sig-2"] :=
    ⟨_, rfl, rfl, fun index =>
      match index with
      | 0 | 1 | 2 | 3 | _ + 4 => rfl⟩
  obtain ⟨front, s, l, hstream, hgathers, hclosed⟩ :=
    streamMessages_of_wellFormed 60 none hformed
  have hkeeps := (h items _ front _ hformed hstream).1
  rw [← hclosed, hgathers.keepsThinking_iff, hclosed] at hkeeps
  exact absurd hkeeps (by decide)

end Ezer.Sampling
