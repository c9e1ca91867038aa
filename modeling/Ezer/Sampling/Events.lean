import Ezer.Sampling.Errors
import Ezer.ChatState.Items

/-!
# Events of sampling

The events that one request sends while its response streams, what a consumer
that only watches them can put together, and what it means that the response at
the end says the same.
-/

namespace Ezer.Sampling

open Ezer.ChatState

/-- The channel of a token. -/
inductive SamplingChannel where
  | text
  | reasoning
  deriving DecidableEq

/-- Why the model stopped. -/
inductive StopReason where
  | stop
  | length
  | toolCalls
  | contentFilter
  deriving DecidableEq

/-- The tokens of a request. -/
structure TokenUsage where
  promptTokens : ℕ
  completionTokens : ℕ
  totalTokens : ℕ
  reasoningTokens : ℕ
  cachedPromptTokens : ℕ
  cacheCreationPromptTokens : ℕ
  deriving DecidableEq

/-- What a doom-loop trigger reports. -/
inductive DoomLoopSignalKind where
  | tailRepetition (threshold : ℕ)
  | exactRepetition (sequenceTokens repeatCount : ℕ)
  | lowLogprob
  | unknown (label : String)
  deriving DecidableEq

/-- A doom-loop trigger of the server. -/
structure DoomLoopSignal where
  kind : DoomLoopSignalKind
  channel : String
  raw : String
  deriving DecidableEq

/-- A response. -/
structure ConversationResponse where
  items : List ConversationItem
  stopReason : Option StopReason
  usage : Option TokenUsage
  costUsdTicks : Option Int
  messageChunksEmitted : ℕ
  doomLoopSignals : List DoomLoopSignal
  stopMessage : Option String
  messageId : Option String
  rawStopReason : Option String
  stopSequence : Option String
  deriving DecidableEq

/-- The last response of the assistant in a response. -/
def ConversationResponse.assistant (response : ConversationResponse) : Option AssistantItem :=
  response.items.reverse.findSome? fun item =>
    match item with
    | .assistant a => some a
    | _ => none

/-- What the assistant said in a response. -/
def ConversationResponse.content (response : ConversationResponse) : String :=
  (response.assistant.map AssistantItem.content).getD ""

/-- The tool calls in a response. -/
def ConversationResponse.toolCalls (response : ConversationResponse) : List ToolCall :=
  (response.assistant.map AssistantItem.toolCalls).getD []

/-- Why images were removed from a request. -/
inductive StripReason where
  | serverRejected
  | payloadHeuristic
  deriving DecidableEq

/-- An event of a request. -/
inductive SamplingEvent where
  | streamStarted
  | firstToken
  | channelToken (channel : SamplingChannel) (text : String) (chunkIndex : ℕ)
  | toolCallDelta (toolIndex : ℕ) (id name argumentsDelta : Option String)
  | responseStarted (messageId model : String)
      (inputTokens cacheReadInputTokens cacheCreationInputTokens : ℕ)
  | reasoningCompleted (signature : String)
  | completed (response : ConversationResponse)
  | doomLoopSignals (triggers : List String)
  | imagesStripped (strippedUrls : List String) (reason : StripReason)
  | retrying (attempt maxRetries : ℕ) (kind : SamplingErrorKind) (reason : String)
      (doomLoopTriggers : Option (List String)) (doomLoopAbortedAtChunk : Option ℕ)
  | failed (error : SamplingErrorInfo)
  | modelMetadata (metadata : ResponseModelMetadata)
  | backendToolCallStarted (callId name : String)
  | backendToolCallCompleted (callId name : String) (result : Option String)
  deriving DecidableEq

namespace SamplingEvent

/-- Whether an event ends its request. -/
def isTerminal : SamplingEvent → Bool
  | .completed _ | .failed _ => true
  | _ => false

/-- Whether an event announces the first token. -/
def isFirstToken : SamplingEvent → Bool
  | .firstToken => true
  | _ => false

/-- The text of a token of the text channel. -/
def textToken : SamplingEvent → Option String
  | .channelToken .text text _ => some text
  | _ => none

/-- The chunk index of a token. -/
def chunk : SamplingEvent → Option ℕ
  | .channelToken _ _ chunkIndex => some chunkIndex
  | _ => none

/-- The parts that an event adds to a tool call. -/
def toolDelta (index : ℕ) : SamplingEvent → Option (Option String × Option String × Option String)
  | .toolCallDelta toolIndex id name argumentsDelta =>
    if toolIndex = index then some (id, name, argumentsDelta) else none
  | _ => none

end SamplingEvent

section Client

/-- The tokens of the text channel. -/
def textTokens (events : List SamplingEvent) : List String :=
  events.filterMap SamplingEvent.textToken

/-- The parts of a tool call. -/
def toolDeltas (events : List SamplingEvent) (index : ℕ) :
    List (Option String × Option String × Option String) :=
  events.filterMap (SamplingEvent.toolDelta index)

/-- The tool call that a consumer puts together: the last id and the last name, and the argument
fragments one behind the other. -/
def clientCall (events : List SamplingEvent) (index : ℕ) : ToolCall where
  id := ((toolDeltas events index).filterMap fun d => d.1).getLast?.getD ""
  name := ((toolDeltas events index).filterMap fun d => d.2.1).getLast?.getD ""
  arguments := String.join ((toolDeltas events index).filterMap fun d => d.2.2)

@[simp] theorem textTokens_append (xs ys : List SamplingEvent) :
    textTokens (xs ++ ys) = textTokens xs ++ textTokens ys := List.filterMap_append

@[simp] theorem toolDeltas_append (xs ys : List SamplingEvent) (index : ℕ) :
    toolDeltas (xs ++ ys) index = toolDeltas xs index ++ toolDeltas ys index :=
  List.filterMap_append

/-- Before its first part a tool call is blank. -/
theorem clientCall_of_nil {events : List SamplingEvent} {index : ℕ}
    (h : toolDeltas events index = []) : clientCall events index = ⟨"", "", ""⟩ := by
  rw [clientCall, h]
  rfl

/-- Events without a part of a tool call leave it as it is. -/
theorem clientCall_append_of_nil {events : List SamplingEvent} {index : ℕ}
    {more : List SamplingEvent} (h : toolDeltas more index = []) :
    clientCall (events ++ more) index = clientCall events index := by
  have happend : toolDeltas (events ++ more) index = toolDeltas events index := by
    rw [toolDeltas_append, h, List.append_nil]
  rw [clientCall, happend]
  rfl

/-- One more part of a tool call. -/
theorem clientCall_append_delta (events : List SamplingEvent) (index : ℕ)
    (id name argumentsDelta : Option String) :
    clientCall (events ++ [.toolCallDelta index id name argumentsDelta]) index =
      { id := id.getD (clientCall events index).id
        name := name.getD (clientCall events index).name
        arguments := (clientCall events index).arguments ++ argumentsDelta.getD "" } := by
  have happend : toolDeltas (events ++ [.toolCallDelta index id name argumentsDelta]) index =
      toolDeltas events index ++ [(id, name, argumentsDelta)] := by
    rw [toolDeltas_append]
    simp [toolDeltas, SamplingEvent.toolDelta]
  have hlast (xs : List (Option String × Option String × Option String))
      (f : Option String × Option String × Option String → Option String) :
      ((xs ++ [(id, name, argumentsDelta)]).filterMap f).getLast?.getD "" =
        (f (id, name, argumentsDelta)).getD ((xs.filterMap f).getLast?.getD "") := by
    rw [List.filterMap_append]
    cases hf : f (id, name, argumentsDelta) with
    | none => simp [hf]
    | some value => simp [hf]
  have hjoin (xs : List (Option String × Option String × Option String)) :
      String.join ((xs ++ [(id, name, argumentsDelta)]).filterMap fun d => d.2.2) =
        String.join (xs.filterMap fun d => d.2.2) ++ argumentsDelta.getD "" := by
    rw [List.filterMap_append, String.join_append]
    cases argumentsDelta with
    | none => simp
    | some value => simp [String.join_cons]
  rw [clientCall, happend, hlast, hlast, hjoin]
  rfl

end Client

section Contract

/-- The tool calls of a response are those that a consumer put together, in the order of their
indices. -/
def SameToolCalls (events : List SamplingEvent) (toolCalls : List ToolCall) : Prop :=
  ∃ indices : List ℕ, indices.Pairwise (· < ·) ∧
    (∀ i, i ∈ indices ↔ toolDeltas events i ≠ []) ∧
    toolCalls = indices.map (clientCall events)

/-- What a watcher of the events before the last one knows. -/
structure Watch where
  sawFirst : Bool
  chunks : ℕ
  texts : ℕ

/-- Watch one more event, if it may come. -/
def Watch.next (w : Watch) : SamplingEvent → Option Watch
  | .firstToken => if w.sawFirst then none else some { w with sawFirst := true }
  | .channelToken channel _ chunkIndex =>
    if w.sawFirst ∧ chunkIndex = w.chunks + 1 then
      some { w with
        chunks := w.chunks + 1
        texts := if channel = .text then w.texts + 1 else w.texts }
    else none
  | .completed _ | .failed _ => none
  | _ => some w

/-- Watch events, if they may come. -/
def Watch.run (w : Watch) (events : List SamplingEvent) : Option Watch :=
  events.foldlM Watch.next w

theorem Watch.run_append (w : Watch) (xs ys : List SamplingEvent) :
    w.run (xs ++ ys) = (w.run xs).bind fun w => w.run ys := by
  rw [Watch.run, List.foldlM_append]
  rfl

theorem Watch.run_cons (w : Watch) (e : SamplingEvent) (es : List SamplingEvent) :
    w.run (e :: es) = (w.next e).bind fun w => w.run es := by
  rw [Watch.run, List.foldlM_cons]
  rfl

/-- What more events add to the knowledge of a watcher. -/
structure Watch.Adds (w w' : Watch) (events : List SamplingEvent) : Prop where
  nonterminal : ∀ e ∈ events, e.isTerminal = false
  sawFirst : w'.sawFirst = (w.sawFirst || events.any SamplingEvent.isFirstToken)
  firstOnce : w.sawFirst.toNat + events.countP SamplingEvent.isFirstToken ≤ 1
  firstBefore : ∀ a channel text index b,
    events = a ++ .channelToken channel text index :: b →
      (w.sawFirst || a.any SamplingEvent.isFirstToken) = true
  chunks : w'.chunks = w.chunks + (events.filterMap SamplingEvent.chunk).length
  counted : events.filterMap SamplingEvent.chunk =
    List.range' (w.chunks + 1) (events.filterMap SamplingEvent.chunk).length
  texts : w'.texts = w.texts + (textTokens events).length

theorem Watch.Adds.nil (w : Watch) : w.Adds w [] where
  nonterminal := by
    intro e he
    cases he
  sawFirst := by rw [List.any_nil, Bool.or_false]
  firstOnce := by
    rw [List.countP_nil, Nat.add_zero]
    exact Bool.toNat_le _
  firstBefore := by
    intro a channel text index b h
    cases List.append_eq_nil_iff.mp h.symm |>.2
  chunks := by rw [List.filterMap_nil, List.length_nil, Nat.add_zero]
  counted := by rw [List.filterMap_nil, List.length_nil, List.range'_zero]
  texts := by rw [textTokens, List.filterMap_nil, List.length_nil, Nat.add_zero]

theorem Watch.Adds.single {w w' : Watch} {e : SamplingEvent} (hterminal : e.isTerminal = false)
    (hsaw : w'.sawFirst = (w.sawFirst || e.isFirstToken))
    (hfirst : w.sawFirst = true → e.isFirstToken = false)
    (htoken : e.chunk ≠ none → w.sawFirst = true)
    (hchunks : w'.chunks = w.chunks + e.chunk.toList.length)
    (hcounted : ∀ index ∈ e.chunk, index = w.chunks + 1)
    (htexts : w'.texts = w.texts + e.textToken.toList.length) : w.Adds w' [e] where
  nonterminal := by
    intro x hx
    rw [List.mem_singleton.mp hx]
    exact hterminal
  sawFirst := by rw [hsaw, List.any_cons, List.any_nil, Bool.or_false]
  firstOnce := by
    cases hw : w.sawFirst with
    | true => simp [hfirst hw]
    | false => simp [List.countP_cons]; split <;> omega
  firstBefore := by
    intro a channel text index b h
    have he : e = .channelToken channel text index := by
      have hmem : SamplingEvent.channelToken channel text index ∈ [e] := by
        rw [h]
        exact List.mem_append_right _ List.mem_cons_self
      exact (List.mem_singleton.mp hmem).symm
    rw [htoken (by rw [he]; exact Option.some_ne_none _), Bool.true_or]
  chunks := by
    rw [hchunks]
    cases h : e.chunk <;> simp [h]
  counted := by
    cases h : e.chunk with
    | none => simp [h]
    | some index => simp [h, hcounted index h]
  texts := by
    rw [htexts]
    cases h : e.textToken <;> simp [textTokens, h]

theorem Watch.Adds.cons {w w₁ w₂ : Watch} {e : SamplingEvent} {es : List SamplingEvent}
    (h₁ : w.Adds w₁ [e]) (h₂ : w₁.Adds w₂ es) : w.Adds w₂ (e :: es) where
  nonterminal := by
    rintro x (_ | ⟨_, hx⟩)
    · exact h₁.nonterminal e List.mem_cons_self
    · exact h₂.nonterminal x hx
  sawFirst := by
    rw [h₂.sawFirst, h₁.sawFirst, Bool.or_assoc, ← List.any_append, List.singleton_append]
  firstOnce := by
    have hfirst := h₁.firstOnce
    have hrest := h₂.firstOnce
    have hsaw := h₁.sawFirst
    rw [List.any_cons, List.any_nil, Bool.or_false] at hsaw
    rw [List.countP_singleton] at hfirst
    rw [List.countP_cons]
    rw [hsaw] at hrest
    cases hw : w.sawFirst <;> cases he : e.isFirstToken <;> rw [hw, he] at hfirst hrest
    · exact hrest
    · rw [if_pos rfl]
      change 1 + _ ≤ 1 at hrest
      change 0 + (_ + 1) ≤ 1
      omega
    · exact hrest
    · cases Nat.le_of_succ_le_succ hfirst
  firstBefore := by
    intro a channel text index b h
    cases a with
    | nil =>
      obtain ⟨rfl, _⟩ := List.cons_eq_cons.mp h
      exact h₁.firstBefore [] channel text index [] rfl
    | cons x a =>
      obtain ⟨rfl, hes⟩ := List.cons_eq_cons.mp h
      have hbefore := h₂.firstBefore a channel text index b hes
      rw [h₁.sawFirst, Bool.or_assoc, ← List.any_append, List.singleton_append] at hbefore
      exact hbefore
  chunks := by
    have happend : (e :: es).filterMap SamplingEvent.chunk =
        [e].filterMap SamplingEvent.chunk ++ es.filterMap SamplingEvent.chunk :=
      @List.filterMap_append _ _ [e] es _
    rw [h₂.chunks, h₁.chunks, happend, List.length_append]
    omega
  counted := by
    have hstart : w₁.chunks + 1 = w.chunks + 1 + ([e].filterMap SamplingEvent.chunk).length := by
      rw [h₁.chunks]
      omega
    have happend : (e :: es).filterMap SamplingEvent.chunk =
        [e].filterMap SamplingEvent.chunk ++ es.filterMap SamplingEvent.chunk :=
      @List.filterMap_append _ _ [e] es _
    rw [happend, List.length_append, ← List.range'_append_1, ← h₁.counted, ← hstart,
      ← h₂.counted]
  texts := by
    have happend : textTokens (e :: es) = textTokens [e] ++ textTokens es :=
      textTokens_append [e] es
    rw [h₂.texts, h₁.texts, happend, List.length_append]
    omega

/-- Nothing seen. -/
def Watch.start : Watch := ⟨false, 0, 0⟩

section Last

variable {front : List SamplingEvent} {last : SamplingEvent}

theorem toolDeltas_terminal (hlast : last.isTerminal = true) (index : ℕ) :
    toolDeltas [last] index = [] := by
  cases last <;> first | rfl | cases hlast

theorem SameToolCalls.concat {toolCalls : List ToolCall} (h : SameToolCalls front toolCalls)
    (hlast : last.isTerminal = true) : SameToolCalls (front ++ [last]) toolCalls := by
  obtain ⟨indices, hsorted, hmem, hcalls⟩ := h
  refine ⟨indices, hsorted, ?_, ?_⟩
  · intro i
    rw [toolDeltas_append, toolDeltas_terminal hlast, List.append_nil]
    exact hmem i
  · rw [hcalls]
    apply List.map_congr_left
    intro i _
    rw [clientCall_append_of_nil (toolDeltas_terminal hlast i)]

end Last

end Contract

end Ezer.Sampling
