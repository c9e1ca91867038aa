import Ezer.Transcript.Lines
import Ezer.Transcript.Updates
import Mathlib.Data.List.AList

/-!
# The eviction gate

A child transcript is only dropped from memory when a replay of its file would
send an update again. The replay collapses a tool call and its updates into one
call; the gate decides from the lines alone whether anything will be sent.
-/

namespace Ezer.Transcript

open Ezer.Lib

/-- The tool calls that wait for their end. -/
structure ReplayToolCollapser where
  pending : AList fun _ : String => ToolCall

namespace ReplayToolCollapser

/-- No call waits. -/
def new : ReplayToolCollapser := ⟨∅⟩

section

variable (update : ToolCall → ToolCallUpdateFields → ToolCall)

/-- Read an update: what is sent for it now, and what waits then. -/
def push (collapser : ReplayToolCollapser) : AcpUpdate → Option AcpUpdate × ReplayToolCollapser
  | .availableCommandsUpdate => (none, collapser)
  | .toolCall tc =>
    if tc.status.isDone then (some (.toolCall tc), collapser)
    else (none, ⟨collapser.pending.insert tc.toolCallId tc⟩)
  | .toolCallUpdate u =>
    match u.fields.status with
    | some .completed | some .failed =>
      match collapser.pending.lookup u.toolCallId with
      | some base => (some (.toolCall (update base u.fields)), ⟨collapser.pending.erase u.toolCallId⟩)
      | none => (some (.toolCallUpdate u), collapser)
    | none =>
      match collapser.pending.lookup u.toolCallId with
      | some base => (none, ⟨collapser.pending.replace u.toolCallId (update base u.fields)⟩)
      | none => (none, collapser)
    | some _ => (none, collapser)
  | u => (some u, collapser)

/-- The calls that never ended, in some order. -/
def takePending (collapser : ReplayToolCollapser) : List AcpUpdate :=
  collapser.pending.entries.map fun entry => .toolCall entry.2

end

end ReplayToolCollapser

/-- An update that a replay sends. -/
inductive ReplayedUpdate where
  | acp (update : AcpUpdate) (metadata : Option Json)
  | xai (update : ExtensionUpdate)

/-- Whether a replay sent an update of the protocol. -/
inductive ReplayEmission where
  | emitted
  | empty

/-- A replay under way. -/
structure ReplayStream where
  collapser : ReplayToolCollapser
  forwarded : Bool
  sent : List ReplayedUpdate

section

variable (reader : LineReader) (fromStr : Text → Option SessionUpdate)
  (update : ToolCall → ToolCallUpdateFields → ToolCall)

/-- The lines of a file that are not blank and survive its rewinds. -/
def rewindFilteredLive (contents : Text) : List Text := filterRewindLines reader (liveLines contents)

/-- Whether an update is sent on a replay, now or at the end. -/
def emitsOnReplay : AcpUpdate → Bool
  | .availableCommandsUpdate => false
  | .toolCallUpdate u => u.fields.status.any ToolCallStatus.isDone
  | _ => true

/-- Whether a line is of the kind that a replay sends. -/
def lineEmits (line : Text) : Bool :=
  !lineIsDroppedOnReplay reader line &&
    match fromStr line with
    | some (.acp update _) => emitsOnReplay update
    | _ => false

/-- Whether a replay of a file would send an update of the protocol. -/
def replayWouldEmit (contents : Text) : Bool :=
  (rewindFilteredLive reader contents).any (lineEmits reader fromStr)

namespace ReplayStream

/-- Before the first line. -/
def new : ReplayStream := ⟨.new, false, []⟩

/-- Send an update of the protocol. -/
def forward (stream : ReplayStream) (update : AcpUpdate) (metadata : Option Json) : ReplayStream :=
  { stream with forwarded := true, sent := stream.sent ++ [.acp update metadata] }

/-- Read a line. -/
def readLine (stream : ReplayStream) (line : Text) : ReplayStream :=
  if lineIsDroppedOnReplay reader line then stream
  else
    match fromStr line with
    | some (.acp acpUpdate metadata) =>
      let (pushed, collapser) := stream.collapser.push update (stripContextWrappers acpUpdate)
      match pushed with
      | some sentUpdate => { stream with collapser := collapser }.forward sentUpdate metadata
      | none => { stream with collapser := collapser }
    | some (.xai xaiUpdate) => { stream with sent := stream.sent ++ [.xai xaiUpdate] }
    | none => stream

/-- At the end of the file the calls that still wait are sent. -/
def finish (stream : ReplayStream) : ReplayStream :=
  stream.collapser.takePending.foldl (fun stream update => stream.forward update none) stream

end ReplayStream

/-- Replay a file: what is sent, and whether an update of the protocol is among it. -/
def streamReplayUpdates (contents : Text) : List ReplayedUpdate × ReplayEmission :=
  let stream := ((rewindFilteredLive reader contents).foldl
    (ReplayStream.readLine reader fromStr update) .new).finish
  (stream.sent, if stream.forwarded then .emitted else .empty)

end

@[simp] theorem emitsOnReplay_stripContextWrappers (u : AcpUpdate) :
    emitsOnReplay (stripContextWrappers u) = emitsOnReplay u := by
  cases u with
  | userMessageChunk chunk =>
    obtain ⟨content, metadata⟩ := chunk
    cases content <;> rfl
  | _ => rfl

section

variable (update : ToolCall → ToolCallUpdateFields → ToolCall)

/-- What waits or is sent after an update is what waited before, and the update if it is of the
kind that is sent. -/
theorem ReplayToolCollapser.push_iff (collapser : ReplayToolCollapser) (u : AcpUpdate) :
    ((collapser.push update u).1.isSome = true ∨ (collapser.push update u).2.pending.keys ≠ []) ↔
      collapser.pending.keys ≠ [] ∨ emitsOnReplay u = true := by
  cases u with
  | toolCall tc =>
    cases hdone : tc.status.isDone with
    | true | false => simp [push, emitsOnReplay, hdone]
  | toolCallUpdate u =>
    cases hstatus : u.fields.status with
    | none => cases hbase : collapser.pending.lookup u.toolCallId <;>
        simp [push, emitsOnReplay, hstatus, hbase]
    | some status =>
      cases status with
      | pending | inProgress => simp [push, emitsOnReplay, hstatus, ToolCallStatus.isDone]
      | completed | failed => cases hbase : collapser.pending.lookup u.toolCallId <;>
          simp [push, emitsOnReplay, hstatus, hbase, ToolCallStatus.isDone]
  | availableCommandsUpdate => simp [push, emitsOnReplay]
  | _ => simp [push, emitsOnReplay]

end

namespace ReplayStream

/-- Something was sent, or a call waits that will be. -/
def Owes (stream : ReplayStream) : Prop :=
  stream.forwarded = true ∨ stream.collapser.pending.keys ≠ []

/-- The flag says whether an update of the protocol was sent. -/
def Flagged (stream : ReplayStream) : Prop :=
  stream.forwarded = true ↔ ∃ update metadata, ReplayedUpdate.acp update metadata ∈ stream.sent

theorem flagged_new : new.Flagged := by simp [Flagged, new]

theorem flagged_forward (stream : ReplayStream) (update : AcpUpdate) (metadata : Option Json) :
    (stream.forward update metadata).Flagged := by
  refine iff_of_true rfl ⟨update, metadata, ?_⟩
  simp [forward]

section

variable (reader : LineReader) (fromStr : Text → Option SessionUpdate)
  (update : ToolCall → ToolCallUpdateFields → ToolCall)

theorem Flagged.readLine {stream : ReplayStream} (h : stream.Flagged) (line : Text) :
    (stream.readLine reader fromStr update line).Flagged := by
  rw [ReplayStream.readLine]
  split
  · exact h
  · cases fromStr line with
    | none => exact h
    | some u =>
      cases u with
      | xai u => simpa [Flagged] using h
      | acp u metadata =>
        cases hpushed : (stream.collapser.push update (stripContextWrappers u)).1 with
        | none =>
          simp only [hpushed]
          exact h
        | some pushed =>
          simp only [hpushed]
          exact flagged_forward _ _ _

theorem owes_readLine (stream : ReplayStream) (line : Text) :
    (stream.readLine reader fromStr update line).Owes ↔
      stream.Owes ∨ lineEmits reader fromStr line = true := by
  rw [readLine]
  split
  case isTrue hdropped => simp [lineEmits, hdropped]
  case isFalse hdropped =>
    cases hline : fromStr line with
    | none => simp [lineEmits, hline]
    | some u =>
      cases u with
      | xai u => simp [lineEmits, hline, Owes]
      | acp u metadata =>
        have hpush := ReplayToolCollapser.push_iff update stream.collapser (stripContextWrappers u)
        rw [emitsOnReplay_stripContextWrappers] at hpush
        have hemits : lineEmits reader fromStr line = emitsOnReplay u := by
          simp [lineEmits, hdropped, hline]
        rw [hemits]
        cases hpushed : (stream.collapser.push update (stripContextWrappers u)).1 with
        | none =>
          rw [hpushed, Option.isSome_none] at hpush
          simp only [Owes, hpushed]
          tauto
        | some pushed =>
          rw [hpushed, Option.isSome_some] at hpush
          simp only [Owes, forward, hpushed]
          tauto

theorem flagged_readLines (lines : List Text) {stream : ReplayStream} (h : stream.Flagged) :
    (lines.foldl (readLine reader fromStr update) stream).Flagged := by
  induction lines generalizing stream with
  | nil => exact h
  | cons line lines ih => exact ih (h.readLine reader fromStr update line)

theorem owes_readLines (lines : List Text) (stream : ReplayStream) :
    (lines.foldl (readLine reader fromStr update) stream).Owes ↔
      stream.Owes ∨ lines.any (lineEmits reader fromStr) = true := by
  induction lines generalizing stream with
  | nil => simp
  | cons line lines ih =>
    rw [List.foldl_cons, ih, owes_readLine, List.any_cons, Bool.or_eq_true, or_assoc]

end

theorem forwarded_finish (stream : ReplayStream) : stream.finish.forwarded = true ↔ stream.Owes := by
  have hsends (updates : List AcpUpdate) (stream : ReplayStream) :
      (updates.foldl (fun stream update => stream.forward update none) stream).forwarded = true ↔
        stream.forwarded = true ∨ updates ≠ [] := by
    induction updates generalizing stream with
    | nil => simp
    | cons u updates ih =>
      rw [List.foldl_cons, ih]
      simp [forward]
  rw [finish, hsends, Owes]
  simp [ReplayToolCollapser.takePending, AList.keys, List.keys]

theorem Flagged.finish {stream : ReplayStream} (h : stream.Flagged) : stream.finish.Flagged := by
  rw [ReplayStream.finish]
  generalize stream.collapser.takePending = updates
  induction updates generalizing stream with
  | nil => exact h
  | cons u updates ih => exact ih (flagged_forward stream u none)

end ReplayStream

/-- The gate opens exactly when a replay sends an update of the protocol. -/
theorem replayWouldEmit_iff (reader : LineReader) (fromStr : Text → Option SessionUpdate)
    (update : ToolCall → ToolCallUpdateFields → ToolCall) (contents : Text) :
    (replayWouldEmit reader fromStr contents = true ↔
      (streamReplayUpdates reader fromStr update contents).2 = .emitted) ∧
    ((streamReplayUpdates reader fromStr update contents).2 = .emitted ↔
      ∃ sentUpdate metadata, ReplayedUpdate.acp sentUpdate metadata ∈
        (streamReplayUpdates reader fromStr update contents).1) := by
  let stream := (rewindFilteredLive reader contents).foldl
    (ReplayStream.readLine reader fromStr update) .new
  have hemitted : (streamReplayUpdates reader fromStr update contents).2 = .emitted ↔
      stream.finish.forwarded = true := by
    show (if stream.finish.forwarded then ReplayEmission.emitted else .empty) = .emitted ↔ _
    cases stream.finish.forwarded <;> simp
  have howes := ReplayStream.owes_readLines reader fromStr update
    (rewindFilteredLive reader contents) .new
  have hflagged := ReplayStream.flagged_readLines reader fromStr update
    (rewindFilteredLive reader contents) ReplayStream.flagged_new
  constructor
  · rw [hemitted, ReplayStream.forwarded_finish, howes, replayWouldEmit]
    simp [ReplayStream.Owes, ReplayStream.new, ReplayToolCollapser.new]
  · rw [hemitted]
    exact hflagged.finish

end Ezer.Transcript
