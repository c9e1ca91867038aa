import Ezer.Lib.Decimal
import Ezer.Lib.Json
import Ezer.Lib.Split
import Ezer.Lib.Trim
import Ezer.Transcript.Rewind
import Mathlib.Data.List.Infix

/-!
# Replaying the lines of a transcript

The lines of the updates file, how the replay peeks at them, and the lines that
it sends again: all of them, those behind a cursor, and those of a part of the
file that was written since.
-/

namespace Ezer.Transcript

open Ezer.Lib

/-- The method of the updates that are no protocol updates. -/
def xaiSessionUpdateMethod : Text := "_ezer/session/update".toList

/-- The tag of a rewind marker. -/
def rewindMarker : Text := "rewind_marker".toList

/-- The tag of a user chunk. -/
def userMessageChunk : Text := "user_message_chunk".toList

/-- The tag of a command catalog. -/
def availableCommandsUpdate : Text := "available_commands_update".toList

/-- The tag of a tool update. -/
def toolCallUpdate : Text := "tool_call_update".toList

/-- The status of a tool that runs. -/
def toolCallStatusInProgress : Text := "in_progress".toList

/-- The field of the token count. -/
def totalTokensKey : Text := "totalTokens".toList

/-- The field of the event id. -/
def eventIdKey : Text := "eventId".toList

/-- The method of a line and the text of its parameters. -/
structure RawLinePeek where
  method : Option Text
  params : Option Text

/-- The metadata of a user chunk. -/
structure RawChunkMetaPeek where
  promptIndex : Option ℕ
  hostTurn : Option Bool

/-- What is read of an update. -/
structure RawUpdatePeek where
  sessionUpdate : Text
  status : Option Text
  targetPromptIndex : Option ℕ
  metadata : Option RawChunkMetaPeek

/-- The update of a line and the text of its metadata. -/
structure RawParamsPeek where
  update : Option RawUpdatePeek
  metadata : Option Text

/-- An agent that was started and not finished. -/
structure UnfinishedSubagent where
  subagentId : Text
  attemptId : Option Text
  childSessionId : Text

/-- The updates of agents. -/
inductive XaiUpdate where
  | subagentSpawned (subagent : UnfinishedSubagent)
  | subagentFinished (subagentId : Text)
  | other

/-- How texts are read as JSON. -/
structure LineReader where
  line : Text → Option RawLinePeek
  params : Text → Option RawParamsPeek
  totalTokens : Text → Option (Option ℕ)
  eventId : Text → Option (Option Text)
  value : Text → Option Json
  notification : Text → Option XaiUpdate

/-- Tags and parameters are parts of the text they are read from. -/
structure LineReader.Borrows (reader : LineReader) : Prop where
  line : ∀ text peek params, reader.line text = some peek → peek.params = some params →
    params <:+: text
  params : ∀ text peek update, reader.params text = some peek → peek.update = some update →
    update.sessionUpdate <:+: text

section

variable (reader : LineReader)

/-- The text of the parameters of a line, and whether its update is no protocol update. -/
def peekParams (line : Text) : Text × Bool :=
  match reader.line line with
  | some env => (env.params.getD line, env.method == some xaiSessionUpdateMethod)
  | none => (line, false)

/-- Classify a line by its tag and metadata. -/
def rewindStepForLine (line : Text) : RewindStep :=
  let (rawParams, isXai) := peekParams reader line
  match (reader.params rawParams).bind RawParamsPeek.update with
  | none => .other
  | some u =>
    match (if isXai && u.sessionUpdate == rewindMarker then u.targetPromptIndex else none) with
    | some target => .rewind target
    | none =>
      let isHostTurn := (u.metadata.bind RawChunkMetaPeek.hostTurn).getD false
      if !isXai && !isHostTurn && u.sessionUpdate == userMessageChunk then
        .userChunk (u.metadata.bind RawChunkMetaPeek.promptIndex)
      else .other

/-- The lines that survive the rewinds; without markers no line is read. -/
def filterRewindLines (lines : List Text) : List Text :=
  if !lines.any fun line => decide (rewindMarker <:+: line) then lines
  else filterRewindBy (rewindStepForLine reader) lines

/-- The parameters of a line that can be read. -/
def peekLineParams (line : Text) : Option RawParamsPeek := do
  let env ← reader.line line
  reader.params (env.params.getD line)

/-- The update of a line. -/
def peekLineUpdate (line : Text) : Option RawUpdatePeek :=
  (peekLineParams reader line).bind RawParamsPeek.update

/-- The metadata of a line. -/
def lineMeta (line : Text) : Option Text :=
  (peekLineParams reader line).bind RawParamsPeek.metadata

/-- Whether a line is a command catalog. -/
def lineIsAvailableCommandsUpdate (line : Text) : Bool :=
  decide (availableCommandsUpdate <:+: line) &&
    (peekLineUpdate reader line).any fun u => u.sessionUpdate == availableCommandsUpdate

/-- Whether a line is an update of a tool that runs. -/
def lineIsInProgressToolCallUpdate (line : Text) : Bool :=
  if !decide (toolCallUpdate <:+: line) || !decide (toolCallStatusInProgress <:+: line) then false
  else (peekLineUpdate reader line).any fun u =>
    u.sessionUpdate == toolCallUpdate && u.status == some toolCallStatusInProgress

/-- Whether a line is never sent again. -/
def lineIsDroppedOnReplay (line : Text) : Bool :=
  lineIsAvailableCommandsUpdate reader line || lineIsInProgressToolCallUpdate reader line

/-- The token count of a line. -/
def lineTotalTokens (line : Text) : Option ℕ :=
  if !decide (totalTokensKey <:+: line) then none
  else (((lineMeta reader line).bind reader.totalTokens).bind id)

/-- The event id of a line. -/
def lineEventId (line : Text) : Option Text :=
  if !decide (eventIdKey <:+: line) then none
  else (((lineMeta reader line).bind reader.eventId).bind id)

/-- Whether a line has an event id. -/
def lineHasEventId (line cursorId : Text) : Bool := lineEventId reader line == some cursorId

/-- The counter at the end of the event id of a line. -/
def lineEventSeq (line : Text) : Option ℕ :=
  if !decide (eventIdKey <:+: line) then none
  else do
    let env ← reader.line line
    let raw ← env.params
    let peek ← reader.params raw
    let metadata ← peek.metadata
    let value ← reader.value metadata
    let eventId ← (value.get? "eventId").bind Json.asStr
    let counter ← (eventId.toList.splitOn '-').getLast?
    parseUsize counter

/-- The agents of a map by their ids, one more or in the place of another. -/
def insertSubagent (subagent : UnfinishedSubagent) :
    List UnfinishedSubagent → List UnfinishedSubagent
  | [] => [subagent]
  | other :: rest =>
    if subagent.subagentId < other.subagentId then subagent :: other :: rest
    else if other.subagentId < subagent.subagentId then other :: insertSubagent subagent rest
    else subagent :: rest

/-- The agents that were started and not finished, in the order of their ids. -/
def collectUnfinishedSubagents (filtered : List Text) : List UnfinishedSubagent :=
  filtered.foldl (fun pending line =>
    if !decide ("subagent_spawned".toList <:+: line) && !decide ("subagent_finished".toList <:+: line)
    then pending
    else
      match reader.notification (((reader.line line).bind RawLinePeek.params).getD line) with
      | some (.subagentSpawned subagent) => insertSubagent subagent pending
      | some (.subagentFinished subagentId) =>
        pending.filter fun subagent => subagent.subagentId != subagentId
      | _ => pending) []

/-- What a replay sends. -/
structure PreparedReplay where
  lines : List Text
  markReplay : Bool
  lastTokens : ℕ
  maxEventSeq : Option ℕ
  totalLive : ℕ
  unfinishedSubagents : List UnfinishedSubagent

/-- The lines of a file that are not blank. -/
def liveLines (contents : Text) : List Text := (lines contents).filter fun line => trim line ≠ []

/-- The place of the last line with the event id of the cursor. -/
def cursorPlace (filtered : List Text) (cursorId : Text) : Option ℕ :=
  (filtered.reverse.findIdx? fun line => lineHasEventId reader line cursorId).map
    fun i => filtered.length - 1 - i

/-- Whether every line behind a place has an event id or is never sent. -/
def tailBounded (filtered : List Text) (pos : ℕ) : Bool :=
  (filtered.drop (pos + 1)).all fun line =>
    lineIsDroppedOnReplay reader line || (lineEventId reader line).isSome

/-- Prepare the replay of a file, of the lines behind a cursor if it can be found. -/
def prepareReplayLines (contents : Text) (cursor : Option Text) : PreparedReplay :=
  let filtered := filterRewindLines reader (liveLines contents)
  let maxEventSeq := filtered.foldl (fun largest line =>
    match lineEventSeq reader line with
    | some seq => some (largest.elim seq fun m => max m seq)
    | none => largest) none
  let lastTokens := (filtered.reverse.findSome? (lineTotalTokens reader)).getD 0
  let cursorPos := (cursor.bind (cursorPlace reader filtered)).filter (tailBounded reader filtered)
  let start := cursorPos.elim 0 (· + 1)
  { lines := (filtered.drop start).filter fun line => !lineIsDroppedOnReplay reader line
    markReplay := cursorPos.isNone
    lastTokens := lastTokens
    maxEventSeq := maxEventSeq
    totalLive := (filtered.filter fun line => !lineIsDroppedOnReplay reader line).length
    unfinishedSubagents := collectUnfinishedSubagents reader filtered }

/-- The lines of a part of a file that are sent, without a cursor. -/
def filterDeltaReplayLines (contents : Text) : List Text :=
  filterRewindLines reader
    ((lines contents).filter fun line => trim line ≠ [] && !lineIsDroppedOnReplay reader line)

end

/-- A line as it is written, with what is read of it. -/
structure SampleLine where
  method : Text
  params : Text
  peek : RawParamsPeek
  eventId : Option Text
  tagged : ∀ update, peek.update = some update → update.sessionUpdate <:+: params

namespace SampleLine

/-- The text of a line before its parameters. -/
def head (sample : SampleLine) : Text :=
  "\x7b\"method\":\"".toList ++ sample.method ++ "\",\"params\":".toList

/-- The text of a line. -/
def text (sample : SampleLine) : Text := sample.head ++ sample.params ++ ['\x7d']

/-- Reads some lines. -/
def reader (samples : List SampleLine) : LineReader where
  line text := (samples.find? fun sample => sample.text == text).map fun sample =>
    ⟨some sample.method, some sample.params⟩
  params text := (samples.find? fun sample => sample.params == text).map SampleLine.peek
  totalTokens _ := some none
  eventId text := (samples.find? fun sample => sample.peek.metadata == some text).map
    SampleLine.eventId
  value _ := none
  notification _ := none

theorem borrows_reader (samples : List SampleLine) : (reader samples).Borrows := by
  constructor
  · intro text peek params hline hparams
    obtain ⟨sample, hfind, rfl⟩ := Option.map_eq_some_iff.mp hline
    have htext := List.find?_some hfind
    rw [beq_iff_eq] at htext
    rw [← Option.some.inj hparams, ← htext]
    exact ⟨sample.head, ['\x7d'], rfl⟩
  · intro text peek update hparams hupdate
    obtain ⟨sample, hfind, rfl⟩ := Option.map_eq_some_iff.mp hparams
    have htext := List.find?_some hfind
    rw [beq_iff_eq] at htext
    rw [← htext]
    exact sample.tagged update hupdate

/-- An update as it is written: its tag behind the session, its other fields and its metadata. -/
def ofUpdate (method rest : Text) (update : RawUpdatePeek) (metadata eventId : Option Text) :
    SampleLine where
  method := method
  params := "\x7b\"sessionId\":\"s\",\"update\":\x7b\"sessionUpdate\":\"".toList ++
    update.sessionUpdate ++ rest
  peek := ⟨some update, metadata⟩
  eventId := eventId
  tagged := by
    intro other hother
    rw [← Option.some.inj hother]
    exact ⟨_, rest, rfl⟩

/-- A chunk of a prompt. -/
def promptChunk (promptIndex : ℕ) : SampleLine :=
  ofUpdate "session/update".toList
    ("\",\"content\":\x7b\"type\":\"text\",\"text\":\"p\"\x7d,\"_meta\":\x7b\"promptIndex\":".toList ++
      digits promptIndex ++ "\x7d\x7d\x7d".toList)
    ⟨userMessageChunk, none, none, some ⟨some promptIndex, none⟩⟩ none none

/-- A chunk of a prompt with an event id. -/
def stampedChunk (promptIndex : ℕ) (prompt : Text) (seq : ℕ) : SampleLine :=
  let metadata := "\x7b\"eventId\":\"s-".toList ++ digits seq ++ "\"\x7d".toList
  ofUpdate "session/update".toList
    ("\",\"content\":\x7b\"type\":\"text\",\"text\":\"".toList ++ prompt ++
      "\"\x7d,\"_meta\":\x7b\"promptIndex\":".toList ++ digits promptIndex ++
      "\x7d\x7d,\"_meta\":".toList ++ metadata ++ ['\x7d'])
    ⟨userMessageChunk, none, none, some ⟨some promptIndex, none⟩⟩ (some metadata)
    (some ("s-".toList ++ digits seq))

/-- A command catalog. -/
def catalog : SampleLine :=
  ofUpdate "session/update".toList "\",\"availableCommands\":[]\x7d\x7d".toList
    ⟨availableCommandsUpdate, none, none, none⟩ none none

/-- A rewind marker. -/
def marker (target : ℕ) : SampleLine :=
  ofUpdate xaiSessionUpdateMethod
    ("\",\"target_prompt_index\":".toList ++ digits target ++ ",\"created_at\":\"\"\x7d\x7d".toList)
    ⟨rewindMarker, none, some target, none⟩ none none

/-- The file of some lines. -/
def file (samples : List SampleLine) : Text := (samples.map fun sample => sample.text ++ ['\n']).flatten

end SampleLine

end Ezer.Transcript
