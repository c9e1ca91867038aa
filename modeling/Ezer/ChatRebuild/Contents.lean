import Ezer.ChatRebuild.Rewinds

/-!
# What a rebuild keeps

A rebuilt chat history holds, piece by piece and in order, what the updates behind the
last checkpoint said: the parts of the user, the text of the agent and its calls. Each
call that ended has one result.
-/

namespace Ezer.ChatRebuild

open Ezer.ChatState Ezer.Transcript

inductive Piece
  | part (part : ContentPart)
  | char (c : Char)
  | call (id name : String)

inductive PieceKind
  | part
  | char
  | call

def callPieces (calls : List ChatState.ToolCall) : List Piece :=
  calls.map fun call => .call call.id call.name

/-- The pieces of a kind in an item. -/
def itemPieces : PieceKind → ConversationItem → List Piece
  | .part, .user item => item.content.map .part
  | .char, .assistant item => item.content.toList.map .char
  | .call, .assistant item => callPieces item.toolCalls
  | _, _ => []

/-- The pieces of a kind in an update; a turn of the host says nothing. -/
def acpPieces : PieceKind → AcpUpdate → List Piece
  | .part, .userMessageChunk chunk =>
    if chunk.isHostTurnChunk then [] else (userPart chunk.content).toList.map .part
  | .char, .agentMessageChunk chunk =>
    match chunk.isHostTurnChunk, chunk.content with
    | false, .text text => text.toList.map .char
    | _, _ => []
  | .call, .toolCall tc => [.call tc.toolCallId tc.title]
  | _, _ => []

def updatePieces (kind : PieceKind) : SessionUpdate → List Piece
  | .acp update _ => acpPieces kind update
  | .xai _ => []

/-- The call that an item answers. -/
def resultId : ConversationItem → Option String
  | .toolResult item => some item.toolCallId
  | _ => none

/-- The call that an update ends. -/
def completedId : SessionUpdate → Option String
  | .acp (.toolCallUpdate tc) _ => if isCompleted tc.fields then some tc.toolCallId else none
  | _ => none

namespace ChatReducer

abbrev Output := List ConversationItem × ChatReducer

variable {r : ChatReducer} {read : PieceKind → List Piece} {ended : List String} {out : Output}

/-- The pieces of a kind that wait in the buffers. -/
def held (r : ChatReducer) : PieceKind → List Piece
  | .part => r.userParts.map .part
  | .char => r.agentText.toList.map .char
  | .call => callPieces r.agentToolCalls

/-- No text of the agent waits unseen. -/
def Ready (r : ChatReducer) : Prop :=
  r.needsTruncate = false ∧ (r.hasAgentContent = false → r.agentText = "")

/-- The reducer reads some pieces, ends some calls and gives some items out. -/
structure Moves (r : ChatReducer) (read : PieceKind → List Piece) (ended : List String)
    (out : Output) : Prop where
  pieces : ∀ kind, out.1.flatMap (itemPieces kind) ++ out.2.held kind = r.held kind ++ read kind
  count : out.2.itemCount = r.itemCount + out.1.length
  results : out.1.filterMap resultId = ended
  emitted : out.2.emittedToolResults = ended.reverse ++ r.emittedToolResults
  ready : r.Ready → out.2.Ready

/-- The reducer gives some items out. -/
abbrev Flushes (r : ChatReducer) (out : Output) : Prop :=
  Moves r (fun _ => []) [] out

theorem Flushes.refl (r : ChatReducer) : Flushes r ([], r) :=
  ⟨fun _ => (List.append_nil _).symm, rfl, rfl, rfl, id⟩

theorem Moves.trans {first : Output} (h : Flushes r first) (h' : Moves first.2 read ended out) :
    Moves r read ended (first.1 ++ out.1, out.2) where
  pieces kind := by
    rw [List.flatMap_append, List.append_assoc, h'.pieces, ← List.append_assoc, h.pieces,
      List.append_nil]
  count := by rw [h'.count, h.count, List.length_append, Nat.add_assoc]
  results := by rw [List.filterMap_append, h.results, h'.results, List.nil_append]
  emitted := by rw [h'.emitted, h.emitted, List.reverse_nil, List.nil_append]
  ready hr := h'.ready (h.ready hr)

/-- Behind some items the reducer reads into its buffers. -/
theorem Moves.reading {items : List ConversationItem} {r' r'' : ChatReducer}
    (h : Flushes r (items, r')) (hp : ∀ kind, r''.held kind = r'.held kind ++ read kind)
    (hc : r''.itemCount = r'.itemCount) (he : r''.emittedToolResults = r'.emittedToolResults)
    (hr : r'.Ready → r''.Ready) : Moves r read [] (items, r'') where
  pieces kind := by rw [hp, ← List.append_assoc, h.pieces, List.append_nil]
  count := hc.trans h.count
  results := h.results
  emitted := he.trans h.emitted
  ready h' := hr (h.ready h')

theorem Moves.silent (h : Moves r (fun _ => []) ended out) (hn : ∀ kind, read kind = []) :
    Moves r read ended out := by
  rwa [show read = fun _ => [] from funext hn]

theorem flushes_flushUser (r : ChatReducer) : Flushes r (r.flushUser.1.toList, r.flushUser.2) := by
  rw [flushUser]
  dsimp only
  split
  · exact ⟨(Flushes.refl r).pieces, rfl, rfl, rfl, id⟩
  · refine ⟨fun kind => ?_, rfl, rfl, rfl, id⟩
    cases kind <;> simp [itemPieces, held]

theorem flushes_flushAgent (r : ChatReducer) :
    Flushes r (r.flushAgent.1.toList, r.flushAgent.2) := by
  rw [flushAgent]
  split
  · exact .refl r
  · refine ⟨fun kind => ?_, rfl, rfl, rfl, fun h => ⟨h.1, fun _ => rfl⟩⟩
    cases kind <;> simp [itemPieces, held, callPieces]

theorem flushes_endUserTurn (r : ChatReducer) : Flushes r (r.endUserTurn.1, r.endUserTurn.2) := by
  rw [endUserTurn]
  split
  · have h := flushes_flushUser r
    exact ⟨h.pieces, h.count, h.results, h.emitted, h.ready⟩
  · exact .refl r

theorem flushes_beginUserTurn (r : ChatReducer) : Flushes r r.beginUserTurn := by
  rw [beginUserTurn]
  split
  · have h := flushes_flushAgent r
    exact ⟨h.pieces, h.count, h.results, h.emitted, h.ready⟩
  · exact .refl r

theorem flushes_splitInterjection (r : ChatReducer) (chunk : ContentChunk) :
    Flushes r (r.splitInterjection chunk) := by
  rw [splitInterjection]
  dsimp only
  split
  · exact flushes_flushUser r
  · exact .refl r

theorem flushes_flushHostTurnBoundary (r : ChatReducer) : Flushes r r.flushHostTurnBoundary :=
  (flushes_endUserTurn r).trans (flushes_flushAgent _)

theorem moves_onUserChunk (r : ChatReducer) (chunk : ContentChunk) :
    Moves r (acpPieces · (.userMessageChunk chunk)) [] (r.onUserChunk chunk) := by
  rw [onUserChunk]
  split
  case isTrue hc =>
    exact (flushes_flushHostTurnBoundary r).silent (by rintro ⟨⟩ <;> simp [acpPieces, hc])
  case isFalse hc =>
    have h := (flushes_beginUserTurn r).trans (flushes_splitInterjection _ chunk)
    dsimp only
    refine h.reading (fun kind => ?_) rfl rfl id
    cases kind <;> simp [acpPieces, hc, held]

theorem moves_onAgentChunk (r : ChatReducer) (chunk : ContentChunk) :
    Moves r (acpPieces · (.agentMessageChunk chunk)) [] (r.onAgentChunk chunk) := by
  rw [onAgentChunk]
  split
  case isTrue hc =>
    exact (flushes_flushHostTurnBoundary r).silent (by rintro ⟨⟩ <;> simp [acpPieces, hc])
  case isFalse hc =>
    rw [Bool.not_eq_true] at hc
    have h := flushes_endUserTurn r
    dsimp only
    split
    · next text ht =>
      refine h.reading (fun kind => ?_) rfl rfl fun h => ⟨h.1, nofun⟩
      cases kind <;> simp [acpPieces, hc, ht, held]
    · next ht =>
      refine h.silent ?_
      rintro ⟨⟩
      case char => cases hb : chunk.content <;> simp_all [acpPieces]
      all_goals rfl

/-- Arguments that come late change neither the id nor the name of a call. -/
theorem callPieces_setArguments (id args : String) (calls : List ChatState.ToolCall) :
    callPieces (setArguments id args calls) = callPieces calls := by
  induction calls with
  | nil => rfl
  | cons call calls ih =>
    rw [setArguments]
    split
    · rfl
    · exact congrArg (Piece.call call.id call.name :: ·) ih

theorem flushes_maybeBackfillArgs (r : ChatReducer) (id : String) (fields : ToolCallUpdateFields) :
    Flushes r ([], r.maybeBackfillArgs id fields) := by
  rw [maybeBackfillArgs]
  split
  · exact .refl r
  · split
    · refine (Flushes.refl r).reading (fun kind => ?_) rfl rfl fun h => h
      cases kind <;> simp [held, callPieces_setArguments]
    · exact .refl r

theorem moves_emitToolResult (r : ChatReducer) (id : String) (fields : ToolCallUpdateFields) :
    Moves r (fun _ => []) [id]
      (emitToolResult { r with emittedToolResults := id :: r.emittedToolResults } id fields) := by
  rw [emitToolResult, flushAgent]
  dsimp only
  split
  · refine ⟨fun kind => ?_, rfl, rfl, rfl, fun h => h⟩
    cases kind <;> simp [itemPieces, held]
  · refine ⟨fun kind => ?_, rfl, rfl, rfl, fun h => ⟨h.1, fun _ => rfl⟩⟩
    cases kind <;> simp [itemPieces, held, callPieces]

/-- The calls that an update ends for the first time. -/
def newlyEnded (r : ChatReducer) (update : SessionUpdate) : List String :=
  (completedId update).toList.filter fun id => !r.emittedToolResults.contains id

theorem emitted_newlyEnded (r : ChatReducer) (update : SessionUpdate) :
    (newlyEnded r update).reverse ++ r.emittedToolResults =
      (completedId update).elim r.emittedToolResults (r.emittedToolResults.insert ·) := by
  rw [newlyEnded]
  cases completedId update with
  | none => rfl
  | some id => by_cases h : id ∈ r.emittedToolResults <;> simp [h]

theorem moves_onToolCallUpdate (r : ChatReducer) (tc : ToolCallUpdate)
    (metadata : Option Lib.Json) :
    Moves r (fun _ => []) (newlyEnded r (.acp (.toolCallUpdate tc) metadata))
      (r.onToolCallUpdate tc) := by
  have h := flushes_maybeBackfillArgs r tc.toolCallId tc.fields
  have he : _ = r.emittedToolResults := h.emitted
  rw [onToolCallUpdate, newlyEnded, completedId, ← he]
  dsimp only
  cases hc : isCompleted tc.fields
  · exact h
  · rw [Bool.true_and, if_pos rfl, Option.toList_some, List.filter_singleton]
    split
    · next hn =>
      rw [hn]
      exact h.trans (moves_emitToolResult _ tc.toolCallId tc.fields)
    · next hn =>
      rw [Bool.not_eq_true] at hn
      rw [hn]
      exact h

theorem moves_process (r : ChatReducer) {update : SessionUpdate}
    (hk : isCheckpoint update = false) :
    Moves r (updatePieces · update) (newlyEnded r update) (r.process update) := by
  rcases update with ⟨update, metadata⟩ | update <;> cases update
  case userMessageChunk chunk => exact moves_onUserChunk r chunk
  case agentMessageChunk chunk => exact moves_onAgentChunk r chunk
  case toolCall tc =>
    refine (Flushes.refl r).reading (fun kind => ?_) rfl rfl fun h => h
    cases kind <;> simp [updatePieces, acpPieces, held, callPieces, onToolCall]
  case toolCallUpdate tc =>
    exact (moves_onToolCallUpdate r tc metadata).silent (by rintro ⟨⟩ <;> rfl)
  case compactionCheckpoint => cases hk
  all_goals exact (Flushes.refl r).silent (by rintro ⟨⟩ <;> rfl)

/-- The last items empty the buffers. -/
theorem held_flush (hr : r.Ready) (kind : PieceKind) : r.flush.2.held kind = [] := by
  have hu : r.flushUser.2.userParts = [] ∧ r.flushUser.2.Ready := by
    rw [flushUser]
    dsimp only
    split
    · next hp => exact ⟨hp, hr⟩
    · exact ⟨rfl, hr⟩
  simp only [flush, flushAgent]
  split <;> cases kind <;> simp_all [held, callPieces, Ready]

end ChatReducer

open ChatReducer

/-- What a rebuild under way keeps of the updates since the last checkpoint. -/
structure Keeps (rebuild : Rebuild) (updates : List SessionUpdate) : Prop where
  moves : Moves .new (fun kind => updates.flatMap (updatePieces kind))
    (rebuild.file.filterMap resultId) (rebuild.file, rebuild.reducer)
  nodup : rebuild.reducer.emittedToolResults.Nodup
  ended : ∀ id, id ∈ rebuild.reducer.emittedToolResults ↔ ∃ u ∈ updates, completedId u = some id

theorem Keeps.step {rebuild : Rebuild} {updates : List SessionUpdate} {update : SessionUpdate}
    (h : Keeps rebuild updates) (hk : isCheckpoint update = false) :
    Keeps (rebuild.step update) (updates ++ [update]) := by
  have hm := moves_process rebuild.reducer hk
  have hr := hm.ready (h.moves.ready ⟨rfl, fun _ => rfl⟩)
  rw [Rebuild.step]
  dsimp only
  rw [if_neg (by simp [hr.1])]
  refine ⟨⟨fun kind => ?_, ?_, rfl, ?_, fun _ => hr⟩, ?_, fun id => ?_⟩
  · rw [List.flatMap_append, List.append_assoc, hm.pieces, ← List.append_assoc, h.moves.pieces]
    simp
  · rw [hm.count, h.moves.count, List.length_append, Nat.add_assoc]
  · rw [hm.emitted, h.moves.emitted, List.filterMap_append, hm.results]
    simp
  · rw [hm.emitted, emitted_newlyEnded]
    cases completedId update with
    | none => exact h.nodup
    | some id => exact h.nodup.insert
  · rw [hm.emitted, emitted_newlyEnded]
    cases hd : completedId update <;> simp [hd, h.ended, or_comm, eq_comm]

theorem keeps_foldl (updates : List SessionUpdate) :
    Keeps (updates.foldl Rebuild.step ⟨.new, []⟩) (behindCheckpoint updates) := by
  have hnew : Keeps ⟨.new, []⟩ [] :=
    ⟨(Flushes.refl .new).silent fun _ => rfl, .nil, fun _ => by simp [new]⟩
  induction updates using List.reverseRecOn with
  | nil => exact hnew
  | append_singleton updates update ih =>
    rw [List.foldl_concat]
    cases hk : isCheckpoint update with
    | false => simpa [behindCheckpoint, hk] using ih.step hk
    | true =>
      rw [show behindCheckpoint (updates ++ [update]) = [] by simp [behindCheckpoint, hk]]
      rcases update with _ | ⟨_ | _ | _⟩ <;> first | exact hnew | cases hk

/-- The rebuilt file holds what was said behind the last checkpoint, in order, with one result
for each call that ended, and the number that is given back is that of its items. -/
theorem rebuildChatHistory_keeps (updates : List SessionUpdate) :
    let (file, count) := rebuildChatHistory updates
    count = file.length ∧
      (∀ kind, file.flatMap (itemPieces kind) =
        (behindCheckpoint updates).flatMap (updatePieces kind)) ∧
      (file.filterMap resultId).Nodup ∧
      ∀ id, id ∈ file.filterMap resultId ↔
        ∃ update ∈ behindCheckpoint updates, completedId update = some id := by
  have h := keeps_foldl updates
  rw [rebuildChatHistory]
  generalize updates.foldl Rebuild.step ⟨.new, []⟩ = rebuild at h
  have hf : Flushes rebuild.reducer rebuild.reducer.flush :=
    (flushes_flushUser rebuild.reducer).trans (flushes_flushAgent _)
  have he := h.moves.emitted.trans (List.append_nil _)
  dsimp only
  simp only [List.filterMap_append, List.flatMap_append, List.length_append, hf.results,
    List.append_nil]
  refine ⟨?_, fun kind => ?_, ?_, fun id => ?_⟩
  · rw [hf.count, h.moves.count]
    exact congrArg (· + _) (Nat.zero_add _)
  · have hp := hf.pieces kind
    rw [held_flush (h.moves.ready ⟨rfl, fun _ => rfl⟩), List.append_nil, List.append_nil] at hp
    rw [hp, h.moves.pieces]
    cases kind <;> rfl
  · exact List.nodup_reverse.mp (he ▸ h.nodup)
  · rw [← h.ended, he, List.mem_reverse]

end Ezer.ChatRebuild
