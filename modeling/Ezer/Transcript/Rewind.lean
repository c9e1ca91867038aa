import Mathlib.Data.List.Basic

/-!
# Rewind filtering of a session transcript

A transcript is a list of items in the order they were written. A rewind marker
cuts the survivors back to the start of a prompt; prompts are counted by runs of
user chunks. The fork copy counts the prompts of the survivors again.
-/

namespace Ezer.Transcript

/-- The role of one item in the rewind timeline. -/
inductive RewindStep where
  | rewind (target : ℕ)
  | userChunk (promptIndex : Option ℕ)
  | other
  deriving DecidableEq

/-- Tracks runs of user chunks for counting turns. -/
structure UserRunTurnTracker where
  /-- Some chunk carried a prompt index. -/
  seenMarker : Bool
  /-- The last item was a user chunk. -/
  inUser : Bool
  /-- The prompt index of the current run. -/
  currentRunPi : Option ℕ

namespace UserRunTurnTracker

/-- The tracker at the start of a transcript. -/
def new : UserRunTurnTracker := ⟨false, false, none⟩

/-- Whether a user chunk opens a run of its own, the marker flag already updated. -/
def newRun (tracker : UserRunTurnTracker) (promptIndex : Option ℕ) : Bool :=
  if !tracker.inUser then true
  else if tracker.seenMarker || promptIndex.isSome then promptIndex != tracker.currentRunPi
  else false

/-- Read a user chunk: whether it opens a counted turn, and the tracker after it. -/
def onUserChunk (tracker : UserRunTurnTracker) (promptIndex : Option ℕ) :
    Bool × UserRunTurnTracker :=
  let seenMarker := tracker.seenMarker || promptIndex.isSome
  let counts := if seenMarker then promptIndex.isSome else true
  if ({ tracker with seenMarker := seenMarker } : UserRunTurnTracker).newRun promptIndex then
    (counts, ⟨seenMarker, true, promptIndex⟩)
  else (false, ⟨seenMarker, true, tracker.currentRunPi⟩)

/-- Anything but a user chunk ends the current run. -/
def onNonUser (tracker : UserRunTurnTracker) : UserRunTurnTracker :=
  { tracker with inUser := false, currentRunPi := none }

end UserRunTurnTracker

section

variable {T : Type*} (classify : T → RewindStep)

/-- The state of the rewind filter while it reads a transcript. -/
structure RewindFilter (T : Type*) where
  /-- The items that survive so far. -/
  result : List T
  /-- Where the counted turns of the survivors start. -/
  promptStarts : List ℕ
  tracker : UserRunTurnTracker

namespace RewindFilter

/-- The filter before the first item. -/
def new : RewindFilter T := ⟨[], [], .new⟩

/-- Read one item of the transcript. -/
def step (filter : RewindFilter T) (item : T) : RewindFilter T :=
  match classify item with
  | .rewind target =>
    -- a target out of range keeps every survivor
    let trunc := filter.promptStarts[target]?.getD filter.result.length
    { result := filter.result.take trunc
      promptStarts := filter.promptStarts.take target
      tracker := filter.tracker.onNonUser }
  | .userChunk promptIndex =>
    let (counted, tracker) := filter.tracker.onUserChunk promptIndex
    { result := filter.result ++ [item]
      promptStarts :=
        if counted then filter.promptStarts ++ [filter.result.length] else filter.promptStarts
      tracker := tracker }
  | .other =>
    { filter with result := filter.result ++ [item], tracker := filter.tracker.onNonUser }

/-- Read a transcript. -/
def run (filter : RewindFilter T) (items : List T) : RewindFilter T :=
  items.foldl (step classify) filter

end RewindFilter

/-- The items that survive the rewinds of a transcript. -/
def filterRewindBy (items : List T) : List T :=
  (RewindFilter.run classify .new items).result

/-- The number of items before the turn after the target, from some item on. -/
def truncateLoop (targetPromptIndex : ℕ) :
    UserRunTurnTracker → ℕ → ℕ → List T → ℕ
  | _, _, i, [] => i
  | tracker, userTurnCount, i, item :: items =>
    match classify item with
    | .userChunk promptIndex =>
      let (counted, tracker) := tracker.onUserChunk promptIndex
      if counted then
        if userTurnCount + 1 > targetPromptIndex + 1 then i
        else truncateLoop targetPromptIndex tracker (userTurnCount + 1) (i + 1) items
      else truncateLoop targetPromptIndex tracker userTurnCount (i + 1) items
    | .rewind _ | .other =>
      truncateLoop targetPromptIndex tracker.onNonUser userTurnCount (i + 1) items

/-- How many items to keep for a prompt, itself included. -/
def truncateForPromptBy (items : List T) (targetPromptIndex : ℕ) : ℕ :=
  truncateLoop classify targetPromptIndex .new 0 0 items

end

/-- A line of a transcript with its place among the lines that are not blank. -/
structure LineRecord where
  index : ℕ
  step : RewindStep

/-- The places of the lines that survive the rewinds and the cut of a fork copy. -/
def survivingLineIndexes (steps : List RewindStep) (targetPromptIndex : ℕ) : List ℕ :=
  let records := filterRewindBy LineRecord.step (steps.mapIdx LineRecord.mk)
  let keep := truncateForPromptBy LineRecord.step records targetPromptIndex
  (records.take keep).map LineRecord.index

end Ezer.Transcript
