import Ezer.HunkTracker.Types
import Mathlib.Algebra.BigOperators.Group.Finset.Piecewise
import Mathlib.Tactic.Abel

/-!
# The sink of line counts

The sink consumes the events of the tracker and writes one record per change of
the line counts of a hunk. It accumulates what it has recorded for every hunk
id, so that a removal can be recorded with the opposite sign.
-/

namespace Ezer.HunkTracker

open Ezer.Lib

/-- Who authored a change. -/
inductive AuthorType where
  | agent
  | human

/-- Mirror of `HunkSource` for serialization. -/
inductive SourceType where
  | agentEdit
  | externalEditOnAgentFile
  | external

/-- Whether a record is about a new hunk, an update in place or a removal. -/
inductive EventType where
  | added
  | updated
  | removed

/-- A single record of line counts; the time is left out. -/
structure HunkRecord where
  hunkId : HunkId
  filePath : Path
  hunkStart : ℕ
  hunkEnd : ℕ
  linesAdded : ℤ
  linesRemoved : ℤ
  authorType : Option AuthorType
  authorId : Option Text
  agentId : Text
  sessionId : Text
  promptIndex : Option ℕ
  sourceType : Option SourceType
  eventType : EventType
  removalReason : Option HunkRemovalReason

/-- Context passed to the sink; the aggregates are sent only to a consumer. -/
structure LocSinkContext where
  sessionId : Text
  agentId : Text
  userId : Option Text
  aggregateTx : Bool

/-- Lightweight update for an external consumer. -/
inductive LocAggregate where
  | linesChanged (authorType : AuthorType) (linesAdded linesRemoved : ℤ) (filePath : Path)
  | linesReverted (linesAddedReverted linesRemovedReverted : ℤ)

/-- The added and removed lines of a hunk. -/
def Hunk.counts (h : Hunk) : ℤ × ℤ := (h.lineInfo.newCount, h.lineInfo.oldCount)

namespace HunkRecord

/-- The record of a hunk under the attribution of a source. -/
def fromHunk (hunk : Hunk) (ctx : LocSinkContext) (eventType : EventType)
    (attributionSource : HunkSource) : HunkRecord :=
  let info := hunk.lineInfo
  let start := if info.newCount = 0 then info.oldStart else info.newStart
  let count := if info.newCount = 0 then info.oldCount else info.newCount
  { hunkId := hunk.id
    filePath := hunk.path
    hunkStart := start
    hunkEnd := if count = 0 then start else start + count - 1
    linesAdded := info.newCount
    linesRemoved := info.oldCount
    authorType := some (if attributionSource.isAgentEdit then .agent else .human)
    authorId := if attributionSource.isAgentEdit then some ctx.agentId else ctx.userId
    agentId := ctx.agentId
    sessionId := ctx.sessionId
    promptIndex := attributionSource.promptIndex
    sourceType := some <|
      match attributionSource with
      | .agentEdit _ => .agentEdit
      | .externalEditOnAgentFile => .externalEditOnAgentFile
      | .external => .external
    eventType := eventType
    removalReason := none }

/-- The signed line counts of a record. -/
def lines (record : HunkRecord) : ℤ × ℤ := (record.linesAdded, record.linesRemoved)

end HunkRecord

/-- The state of the sink: what it has accumulated for each hunk, and what it
has written and sent. -/
structure LocSink where
  acc : HunkId → Option (ℤ × ℤ) := fun _ => none
  records : List HunkRecord := []
  aggregates : List LocAggregate := []

namespace LocSink

/-- Add a change of the counts of a hunk to what is accumulated for it. -/
def accumulate (sink : LocSink) (id : HunkId) (lines : ℤ × ℤ) : LocSink :=
  { sink with acc := Function.update sink.acc id (some ((sink.acc id).getD 0 + lines)) }

/-- Forget what is accumulated for a hunk. -/
def clear (sink : LocSink) (id : HunkId) : LocSink :=
  { sink with acc := Function.update sink.acc id none }

/-- Send an aggregate when there is a consumer. -/
def sendAggregate (sink : LocSink) (ctx : LocSinkContext) (aggregate : LocAggregate) : LocSink :=
  if ctx.aggregateTx then { sink with aggregates := sink.aggregates ++ [aggregate] } else sink

/-- Write a record; the writer does not fail. -/
def writeRecord (sink : LocSink) (record : HunkRecord) : LocSink :=
  { sink with records := sink.records ++ [record] }

/-- Forget a rejected or superseded hunk, and record the opposite of what was
accumulated for it. -/
def revert (sink : LocSink) (ctx : LocSinkContext) (path : Path) (id : HunkId)
    (reason : HunkRemovalReason) : LocSink :=
  match sink.acc id with
  | none => sink.clear id
  | some (totalAdded, totalRemoved) =>
    if totalAdded ≠ 0 ∨ totalRemoved ≠ 0 then
      ((sink.clear id).sendAggregate ctx
        (.linesReverted (max totalAdded 0) (max totalRemoved 0))).writeRecord
        { hunkId := id
          filePath := path
          hunkStart := 0
          hunkEnd := 0
          linesAdded := -totalAdded
          linesRemoved := -totalRemoved
          authorType := none
          authorId := none
          agentId := ctx.agentId
          sessionId := ctx.sessionId
          promptIndex := none
          sourceType := none
          eventType := .removed
          removalReason := some reason }
    else sink.clear id

/-- Process a single event. -/
def handleEvent (ctx : LocSinkContext) (sink : LocSink) : HunkEvent → LocSink
  | .hunkAdded _ hunk =>
    let record := HunkRecord.fromHunk hunk ctx .added hunk.source
    ((sink.accumulate hunk.id record.lines).sendAggregate ctx
      (.linesChanged (record.authorType.getD .agent) record.linesAdded record.linesRemoved
        record.filePath)).writeRecord record
  | .hunkContentChanged _ hunk triggerSource prevLinesAdded prevLinesRemoved =>
    let record := { HunkRecord.fromHunk hunk ctx .updated triggerSource with
      linesAdded := hunk.lineInfo.newCount - prevLinesAdded
      linesRemoved := hunk.lineInfo.oldCount - prevLinesRemoved }
    ((sink.accumulate hunk.id record.lines).sendAggregate ctx
      (.linesChanged (record.authorType.getD .human) record.linesAdded record.linesRemoved
        record.filePath)).writeRecord record
  | .hunkRemoved _ id .accepted => sink.clear id
  | .hunkRemoved path id reason => sink.revert ctx path id reason
  | _ => sink

/-- Process events in order. -/
def handleEvents (ctx : LocSinkContext) (sink : LocSink) (es : List HunkEvent) : LocSink :=
  es.foldl (handleEvent ctx) sink

/-- The line counts over all records written for a file. -/
def total (sink : LocSink) (path : Path) : ℤ × ℤ :=
  ((sink.records.filter fun r => r.filePath = path).map HunkRecord.lines).sum

/-- What is accumulated over a set of hunks. -/
def balance (sink : LocSink) (ids : Finset HunkId) : ℤ × ℤ :=
  ∑ id ∈ ids, (sink.acc id).getD 0

section Lemmas

variable (sink : LocSink) (ctx : LocSinkContext)

@[simp] theorem acc_sendAggregate (a : LocAggregate) : (sink.sendAggregate ctx a).acc = sink.acc := by
  unfold sendAggregate
  split <;> rfl

@[simp] theorem total_sendAggregate (a : LocAggregate) (path : Path) :
    (sink.sendAggregate ctx a).total path = sink.total path := by
  unfold sendAggregate
  split <;> rfl

@[simp] theorem acc_writeRecord (r : HunkRecord) : (sink.writeRecord r).acc = sink.acc := rfl

theorem total_writeRecord (r : HunkRecord) (path : Path) :
    (sink.writeRecord r).total path =
      sink.total path + if r.filePath = path then r.lines else 0 := by
  unfold total writeRecord
  rw [List.filter_append, List.map_append, List.sum_append]
  by_cases h : r.filePath = path <;> simp [h]

@[simp] theorem total_accumulate (id : HunkId) (lines : ℤ × ℤ) (path : Path) :
    (sink.accumulate id lines).total path = sink.total path := rfl

@[simp] theorem total_clear (id : HunkId) (path : Path) :
    (sink.clear id).total path = sink.total path := rfl

theorem handleEvents_append (es es' : List HunkEvent) :
    sink.handleEvents ctx (es ++ es') = (sink.handleEvents ctx es).handleEvents ctx es' := by
  unfold handleEvents
  rw [List.foldl_append]

/-- Changing what is accumulated for one hunk changes the balance of any set with
that hunk by the difference. -/
theorem balance_update {sink' : LocSink} {ids : Finset HunkId} {id : HunkId} (h : id ∈ ids)
    {v : Option (ℤ × ℤ)} (hacc : sink'.acc = Function.update sink.acc id v) :
    sink'.balance ids = sink.balance ids - (sink.acc id).getD 0 + v.getD 0 := by
  unfold balance
  rw [hacc, ← Finset.add_sum_erase _ _ h,
    ← Finset.add_sum_erase ids (fun i => (sink.acc i).getD 0) h, Function.update_self]
  have hrest : ∑ i ∈ ids.erase id, (Function.update sink.acc id v i).getD 0 =
      ∑ i ∈ ids.erase id, (sink.acc i).getD 0 := by
    apply Finset.sum_congr rfl
    intro i hi
    rw [Function.update_of_ne (Finset.ne_of_mem_erase hi)]
  rw [hrest]
  abel

end Lemmas

end LocSink

end Ezer.HunkTracker
