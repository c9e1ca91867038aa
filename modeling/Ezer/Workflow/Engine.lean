import Ezer.Workflow.Journal

/-!
# The workflow engine

The host functions of a workflow script. A script is a strategy that maps the
results and errors it has seen to its next call; a run carries out one call
after another. What happens outside the engine, the answers of the host, the
failures of appending to the journal file and the clock, is given by a world.
-/

namespace Ezer.Workflow

/-- Why a script pauses. -/
inductive PauseKind where
  | user
  | backOff
  | noProgress
  | verification
  | infra

/-- The pause kind a script names. -/
def PauseKind.parse (s : String) : Except String PauseKind :=
  if s = "user" then .ok .user
  else if s = "back_off" ∨ s = "backoff" then .ok .backOff
  else if s = "no_progress" then .ok .noProgress
  else if s = "verification" ∨ s = "blocked" then .ok .verification
  else if s = "infra" then .ok .infra
  else .error s!"unknown pause kind: {s}"

/-- The errors that make a run fail whatever the script does. -/
inductive Fatal where
  | tooManyHostCalls
  | journal (error : JournalError)
  | channelClosed
  | droppedReply
  | unknownTerminal

/-- The text of a fatal error. -/
def Fatal.message : Fatal → String
  | tooManyHostCalls =>
    s!"workflow exceeded the maximum of {maxHostCalls} result-bearing host calls"
  | journal error => error.message
  | channelClosed => "workflow host channel closed"
  | droppedReply => "workflow host dropped reply"
  | unknownTerminal => "workflow journal contains an unknown terminal marker"

/-- What ends a script from inside a host function; no script can catch it. -/
inductive ControlToken where
  | complete (result : Value)
  | pause (kind : PauseKind) (message : String)
  | budget (message : String)
  | cancelled
  | fatal (cause : Fatal)

/-- An error of a host function: one the script can catch, or the end of the script. -/
inductive ScriptError where
  | runtime (message : String)
  | terminated (token : ControlToken)

/-- How a run ends. -/
inductive WorkflowOutcome where
  | completed (result : Value)
  | paused (kind : PauseKind) (message : String)
  | budgetExceeded (message : String)
  | cancelled
  | failed (error : String)

/-- The outcome of a script that an error has ended. -/
def outcomeFromError : ScriptError → WorkflowOutcome
  | .terminated (.complete result) => .completed result
  | .terminated (.pause kind message) => .paused kind message
  | .terminated (.budget message) => .budgetExceeded message
  | .terminated .cancelled => .cancelled
  | .terminated (.fatal cause) => .failed cause.message
  | .runtime message => .failed message

/-- An error of the journal ends the script. -/
def journalFatal (error : JournalError) : ScriptError := .terminated (.fatal (.journal error))

/-- The message with which an exhausted token budget ends a script. -/
def budgetMessage : String := "workflow agent budget exceeded"

/-- What a run meets outside the engine: the host, what appending the entry with a
given sequence number to the journal file fails with, and the time at which it is
recorded. -/
structure World where
  host : Host
  appendError : ℕ → Option String
  now : ℕ → ℕ

/-- The state shared by the host functions: the journal, the next sequence number and
the requests put into the host channel so far. -/
structure Ctx where
  journal : Journal
  seq : ℕ
  requests : List WorkflowHostRequest

namespace Ctx

/-- Put a request into the host channel. -/
def send (ctx : Ctx) (request : WorkflowHostRequest) : Ctx :=
  { ctx with requests := ctx.requests ++ [request] }

/-- Whether the next call is replayed. -/
def replaying (ctx : Ctx) : Bool := ctx.journal.covers ctx.seq

/-- Reserve sequence numbers and give the first one. -/
def reserveSeqs (ctx : Ctx) (count : ℕ) : Except ScriptError ℕ × Ctx :=
  if ctx.seq + count > maxHostCalls then
    (.error (.terminated (.fatal .tooManyHostCalls)), ctx)
  else (.ok ctx.seq, { ctx with seq := ctx.seq + count })

/-- The next sequence number. -/
def nextSeq (ctx : Ctx) : Except ScriptError ℕ × Ctx := ctx.reserveSeqs 1

/-- Record a result; an error of the journal ends the script. -/
def record (crates : Crates) (world : World) (ctx : Ctx) (seq : ℕ) (kind hash : String)
    (value : Value) : Except ScriptError Unit × Ctx :=
  match ctx.journal.record crates ⟨seq, kind, hash, value, world.now seq⟩
      (world.appendError seq) with
  | .error error => (.error (journalFatal error), ctx)
  | .ok journal => (.ok (), { ctx with journal := journal })

end Ctx

/-- The key of a terminal error journaled for an item of a parallel call. -/
def hostTerminalKey : String := "__xai_workflow_parallel_terminal"

/-- The journaled form of a host error. -/
def hostErrorSentinel (message : String) : Value := .object [(hostErrorKey, .string message)]

/-- The message of a journaled host error. -/
def hostErrorMessage (recorded : Value) : Option String :=
  (recorded.get hostErrorKey).bind Value.asStr

/-- The result a script gets for a journaled value. -/
def replayHostError (recorded : Value) : Except ScriptError Value :=
  match hostErrorMessage recorded with
  | some message => .error (.runtime message)
  | none => .ok recorded

/-- The journaled form of a terminal error. -/
def hostTerminalSentinel (kind : String) : Value := .object [(hostTerminalKey, .string kind)]

/-- Whether a journaled value is a terminal error. -/
def isHostTerminalSentinel (recorded : Value) : Bool := (recorded.get hostTerminalKey).isSome

/-- The error with which a terminal kind ends a script. -/
def hostTerminalError (kind : String) : ScriptError :=
  if kind = "budget_exceeded" then .terminated (.budget budgetMessage)
  else if kind = "cancelled" then .terminated .cancelled
  else if kind = "dropped_reply" then .terminated (.fatal .droppedReply)
  else .terminated (.fatal .unknownTerminal)

/-- A value as the script sees it. -/
def valueToDynamic (crates : Crates) (value : Value) : Except ScriptError Value :=
  match crates.toDynamicError value with
  | some error => .error (.runtime s!"host result conversion: {error}")
  | none => .ok value

/-- Values as the script sees them, or the error of the first that has no such form. -/
def valuesToDynamic (crates : Crates) : List Value → Except ScriptError (List Value)
  | [] => .ok []
  | v :: vs =>
    match valueToDynamic crates v with
    | .error error => .error error
    | .ok v =>
      match valuesToDynamic crates vs with
      | .error error => .error error
      | .ok vs => .ok (v :: vs)

/-- The journaled result of an agent call; journals written before the payload had an
effort match without it. -/
def replaySpawnAgent (crates : Crates) (journal : Journal) (seq : ℕ) (payload : Value)
    (hash : String) : Except JournalError (Option Value) :=
  let normal := journal.replay seq "spawn_agent" hash
  match normal with
  | .ok (some _) => normal
  | .ok none | .error (.divergence _ _) =>
    match payload.asObject with
    | none => normal
    | some fields =>
      if fields.any fun f => f.1 = "effort" then
        journal.replay seq "spawn_agent"
          (requestHash crates "spawn_agent" (.object (fields.filter fun f => f.1 ≠ "effort")))
      else normal
  | .error _ => normal

/-- The journaled result of a call. -/
def replayCall (crates : Crates) (journal : Journal) (seq : ℕ) (kind : String)
    (payload : Value) (hash : String) : Except JournalError (Option Value) :=
  if kind = "spawn_agent" then replaySpawnAgent crates journal seq payload hash
  else journal.replay seq kind hash

/-- Record a result and give it to the script. -/
def recordThen {α : Type} (crates : Crates) (world : World) (ctx : Ctx) (seq : ℕ)
    (kind hash : String) (value : Value) (result : Except ScriptError α) :
    Except ScriptError α × Ctx :=
  match ctx.record crates world seq kind hash value with
  | (.error error, ctx) => (.error error, ctx)
  | (.ok (), ctx) => (result, ctx)

/-- What a host call makes of the delivery of its request. -/
def settleReply {α : Type} (crates : Crates) (world : World) (ctx : Ctx) (seq : ℕ)
    (kind hash : String) (toResult : α → Value) (delivery : Delivery α) :
    Except ScriptError Value × Ctx :=
  match delivery with
  | .closed => (.error (.terminated (.fatal .channelClosed)), ctx)
  | .dropped => (.error (.terminated (.fatal .droppedReply)), ctx)
  | .answered (.error (.agentCallQuotaExceeded requested maximum)) =>
    (.error (.runtime
      s!"workflow agent-call quota exceeded: requested {requested}, maximum {maximum}"), ctx)
  | .answered (.error .budgetExceeded) => (.error (.terminated (.budget budgetMessage)), ctx)
  | .answered (.error .cancelled) => (.error (.terminated .cancelled), ctx)
  | .answered (.error (.unsupported message)) =>
    recordThen crates world ctx seq kind hash (hostErrorSentinel message)
      (.error (.runtime message))
  | .answered (.error (.failed message)) =>
    recordThen crates world ctx seq kind hash (hostErrorSentinel message)
      (.error (.runtime message))
  | .answered (.ok v) =>
    recordThen crates world ctx seq kind hash (toResult v) (.ok (toResult v))

/-- A host call: replayed from the journal, or sent to the host and recorded. -/
def hostCall {α : Type} (crates : Crates) (world : World) (ctx : Ctx) (kind : String)
    (payload : Value) (request : WorkflowHostRequest) (answers : ℕ → Delivery α)
    (toResult : α → Value) : Except ScriptError Value × Ctx :=
  let hash := requestHash crates kind payload
  match ctx.nextSeq with
  | (.error error, ctx) => (.error error, ctx)
  | (.ok seq, ctx) =>
    match replayCall crates ctx.journal seq kind payload hash with
    | .error error => (.error (journalFatal error), ctx)
    | .ok (some recorded) => (replayHostError recorded, ctx)
    | .ok none =>
      settleReply crates world (ctx.send request) seq kind hash toResult
        (answers ctx.requests.length)

/-- Send a notice to the host, which does not answer it. -/
def hostEmit (ctx : Ctx) (build : Bool → WorkflowHostRequest) : Ctx :=
  ctx.send (build ctx.replaying)

/-- Reserve agent calls with the host. -/
def reserveAgentCalls (world : World) (ctx : Ctx) (count : ℕ) : Except ScriptError Unit × Ctx :=
  if count = 0 then (.ok (), ctx)
  else
    let result : Except ScriptError Unit :=
      match world.host.agentCalls ctx.requests.length with
      | .closed => .error (.terminated (.fatal .channelClosed))
      | .dropped => .error (.terminated (.fatal .droppedReply))
      | .answered (.ok ()) => .ok ()
      | .answered (.error (.agentCallQuotaExceeded requested maximum)) =>
        .error (.terminated (.budget
          s!"workflow agent budget exceeded: requested {requested}, maximum {maximum}"))
      | .answered (.error .cancelled) => .error (.terminated .cancelled)
      | .answered (.error .budgetExceeded) => .error (.terminated (.budget budgetMessage))
      | .answered (.error (.unsupported message)) => .error (.runtime message)
      | .answered (.error (.failed message)) => .error (.runtime message)
    (result, ctx.send (.reserveAgentCalls count))

/-- Give agent calls back to the host, whatever becomes of the request. -/
def releaseAgentCalls (ctx : Ctx) (count : ℕ) : Ctx :=
  if count = 0 then ctx else ctx.send (.releaseAgentCalls count)

/-- Whether an error ends the script without a journal entry in a way that is resumed. -/
def isResumableUnjournaledTerminal : ScriptError → Bool
  | .terminated .cancelled => true
  | .terminated (.budget _) => true
  | _ => false

/-- One agent call. -/
def spawnAgentCall (crates : Crates) (world : World) (ctx : Ctx) (opts : AgentOpts) :
    Except ScriptError Value × Ctx :=
  let payload := opts.toValue
  let hash := requestHash crates "spawn_agent" payload
  let spawn := fun ctx => hostCall crates world ctx "spawn_agent" payload (.spawnAgent opts)
    world.host.agent AgentResult.toValue
  match replaySpawnAgent crates ctx.journal ctx.seq payload hash with
  | .error error => (.error (journalFatal error), ctx)
  | .ok (some _) =>
    match spawn ctx with
    | (.error error, ctx) => (.error error, ctx)
    | (.ok value, ctx) => (valueToDynamic crates value, ctx)
  | .ok none =>
    match reserveAgentCalls world ctx 1 with
    | (.error error, ctx) => (.error error, ctx)
    | (.ok (), ctx) =>
      match spawn ctx with
      | (.error error, ctx) =>
        (.error error,
          if isResumableUnjournaledTerminal error then releaseAgentCalls ctx 1 else ctx)
      | (.ok value, ctx) => (valueToDynamic crates value, ctx)

/-- The characters that `str::trim` removes. -/
def isWhitespace (c : Char) : Bool :=
  let n := c.toNat
  (9 ≤ n && n ≤ 13) || n = 32 || n = 0x85 || n = 0xA0 || n = 0x1680 ||
    (0x2000 ≤ n && n ≤ 0x200A) || n = 0x2028 || n = 0x2029 || n = 0x202F || n = 0x205F ||
    n = 0x3000

/-- Agent options from a script's option map, given what the map deserializes to. -/
def agentOptsFromMap (prompt : Option String) (map : Except String AgentOpts) :
    Except String AgentOpts :=
  match map with
  | .error error => .error error
  | .ok opts =>
    let opts := match prompt with
      | some prompt => { opts with prompt := prompt }
      | none => opts
    if opts.prompt.toList.all isWhitespace then .error "agent prompt must not be empty"
    else .ok opts

/-- The options of all items of a parallel call, or the error of the first wrong one. -/
def parallelOpts : List (Except String AgentOpts) → Except String (List AgentOpts)
  | [] => .ok []
  | item :: items =>
    match agentOptsFromMap none item with
    | .error error => .error error
    | .ok opts =>
      match parallelOpts items with
      | .error error => .error error
      | .ok rest => .ok (opts :: rest)

/-- The payload of an agent call and its hash. -/
def replayAgent (crates : Crates) (journal : Journal) (seq : ℕ) (opts : AgentOpts) :
    Except JournalError (Option Value) :=
  replaySpawnAgent crates journal seq opts.toValue
    (requestHash crates "spawn_agent" opts.toValue)

/-- How many of the calls from a sequence number on are not replayed. -/
def liveCount (crates : Crates) (journal : Journal) :
    ℕ → List AgentOpts → Except JournalError ℕ
  | _, [] => .ok 0
  | seq, opts :: rest =>
    match replayAgent crates journal seq opts with
    | .error error => .error error
    | .ok recorded =>
      match liveCount crates journal (seq + 1) rest with
      | .error error => .error error
      | .ok live => .ok (if recorded.isSome then live else live + 1)

/-- An item of a parallel call that waits for its result. -/
inductive PendingAgent where
  | replayed (value : Value)
  | live (seq : ℕ) (hash : String) (reply : Delivery AgentResult)

/-- Number all items of a parallel call and send those that are not replayed. -/
def spawnAll (crates : Crates) (world : World) :
    Ctx → List AgentOpts → Except ScriptError (List PendingAgent) × Ctx
  | ctx, [] => (.ok [], ctx)
  | ctx, opts :: rest =>
    match ctx.nextSeq with
    | (.error error, ctx) => (.error error, ctx)
    | (.ok seq, ctx) =>
      match replayAgent crates ctx.journal seq opts with
      | .error error => (.error (journalFatal error), ctx)
      | .ok (some value) =>
        match spawnAll crates world ctx rest with
        | (.error error, ctx) => (.error error, ctx)
        | (.ok pending, ctx) => (.ok (.replayed value :: pending), ctx)
      | .ok none =>
        match world.host.agent ctx.requests.length with
        | .closed =>
          (.error (.terminated (.fatal .channelClosed)), ctx.send (.spawnAgent opts))
        | reply =>
          match spawnAll crates world (ctx.send (.spawnAgent opts)) rest with
          | (.error error, ctx) => (.error error, ctx)
          | (.ok pending, ctx) =>
            (.ok (.live seq (requestHash crates "spawn_agent" opts.toValue) reply :: pending),
              ctx)

/-- What the items of a parallel call have come to so far. -/
structure Batch where
  resolved : List (Option (ℕ × String) × Value) := []
  terminalKind : Option String := none
  terminalError : Option ScriptError := none
  resumableTerminal : Bool := false

namespace Batch

/-- Note a terminal kind, of which the first counts. -/
def terminal (batch : Batch) (kind : String) : Batch :=
  { batch with
    terminalKind := batch.terminalKind.or (some kind)
    resumableTerminal :=
      batch.resumableTerminal || (kind = "budget_exceeded" || kind = "cancelled") }

/-- Add a result. -/
def push (batch : Batch) (live : Option (ℕ × String)) (value : Value) : Batch :=
  { batch with resolved := batch.resolved ++ [(live, value)] }

/-- Take in the result of one item. -/
def add (batch : Batch) : PendingAgent → Batch
  | .replayed value =>
    if isHostTerminalSentinel value then
      batch.terminal (((value.get hostTerminalKey).bind Value.asStr).getD "unknown")
    else
      match hostErrorMessage value with
      | some message =>
        { batch with terminalError := batch.terminalError.or (some (.runtime message)) }
      | none => batch.push none value
  | .live seq hash reply =>
    match reply with
    | .answered (.ok result) => batch.push (some (seq, hash)) result.toValue
    | .answered (.error .budgetExceeded) =>
      (batch.terminal "budget_exceeded").push (some (seq, hash))
        (hostTerminalSentinel "budget_exceeded")
    | .answered (.error .cancelled) =>
      (batch.terminal "cancelled").push (some (seq, hash)) (hostTerminalSentinel "cancelled")
    | .answered (.error _) => batch.push (some (seq, hash)) .null
    | .dropped | .closed =>
      (batch.terminal "dropped_reply").push (some (seq, hash))
        (hostTerminalSentinel "dropped_reply")

end Batch

/-- Record the live results of a batch up to the first that cannot be recorded. -/
def recordResolved (crates : Crates) (world : World) :
    Ctx → List (Option (ℕ × String) × Value) → Except ScriptError Unit × Ctx
  | ctx, [] => (.ok (), ctx)
  | ctx, (none, _) :: rest => recordResolved crates world ctx rest
  | ctx, (some (seq, hash), value) :: rest =>
    match ctx.record crates world seq "spawn_agent" hash value with
    | (.error error, ctx) => (.error error, ctx)
    | (.ok (), ctx) => recordResolved crates world ctx rest

/-- The result of a parallel call whose items have all come to an end. -/
def settleBatch (crates : Crates) (world : World) (ctx : Ctx) (live : ℕ) (batch : Batch) :
    Except ScriptError (List Value) × Ctx :=
  let (terminalError, ctx) :=
    if batch.resumableTerminal then (batch.terminalError, releaseAgentCalls ctx live)
    else
      match recordResolved crates world ctx batch.resolved with
      | (.error error, ctx) => (batch.terminalError.or (some error), ctx)
      | (.ok (), ctx) => (batch.terminalError, ctx)
  match batch.terminalKind, terminalError with
  | some kind, _ => (.error (hostTerminalError kind), ctx)
  | none, some error => (.error error, ctx)
  | none, none => (valuesToDynamic crates (batch.resolved.map Prod.snd), ctx)

/-- A parallel call with valid options. -/
def parallelCalls (crates : Crates) (world : World) (ctx : Ctx) (requests : List AgentOpts) :
    Except ScriptError (List Value) × Ctx :=
  match liveCount crates ctx.journal ctx.seq requests with
  | .error error => (.error (journalFatal error), ctx)
  | .ok live =>
    match reserveAgentCalls world ctx live with
    | (.error error, ctx) => (.error error, ctx)
    | (.ok (), ctx) =>
      match spawnAll crates world ctx requests with
      | (.error error, ctx) => (.error error, ctx)
      | (.ok pending, ctx) =>
        settleBatch crates world ctx live (pending.foldl Batch.add {})

/-- A parallel call, given what each item deserializes to. -/
def parallel (crates : Crates) (world : World) (ctx : Ctx)
    (items : List (Except String AgentOpts)) : Except ScriptError (List Value) × Ctx :=
  let got := items.length
  if got > maxParallel then
    (.error (.runtime s!"parallel() accepts at most {maxParallel} items per call (got {got})"),
      ctx)
  else
    match parallelOpts items with
    | .error error => (.error (.runtime error), ctx)
    | .ok requests => parallelCalls crates world ctx requests

/-- Pause until the user resumes the run; a resumed run goes on. -/
def awaitUser (crates : Crates) (world : World) (ctx : Ctx) (kind message : String) :
    Except ScriptError Unit × Ctx :=
  match PauseKind.parse kind with
  | .error error => (.error (.runtime error), ctx)
  | .ok parsed =>
    let hash := requestHash crates "await_user"
      (.object [("kind", .string kind), ("message", .string message)])
    match ctx.nextSeq with
    | (.error error, ctx) => (.error error, ctx)
    | (.ok seq, ctx) =>
      match ctx.journal.replay seq "await_user" hash with
      | .ok (some _) => (.ok (), ctx)
      | .ok none =>
        recordThen crates world ctx seq "await_user" hash .null
          (.error (.terminated (.pause parsed message)))
      | .error error => (.error (journalFatal error), ctx)

/-- A host call whose result the script sees as a value. -/
def valueCall {α : Type} (crates : Crates) (world : World) (ctx : Ctx) (kind : String)
    (payload : Value) (request : WorkflowHostRequest) (answers : ℕ → Delivery α)
    (toResult : α → Value) : Except ScriptError Value × Ctx :=
  match hostCall crates world ctx kind payload request answers toResult with
  | (.error error, ctx) => (.error error, ctx)
  | (.ok value, ctx) => (valueToDynamic crates value, ctx)

/-- The state of the token budget. -/
def budget (crates : Crates) (world : World) (ctx : Ctx) : Except ScriptError Value × Ctx :=
  valueCall crates world ctx "budget" .null .budgetQuery world.host.budget BudgetState.toValue

/-- Render a template, given what the variables deserialize to. -/
def renderTemplate (crates : Crates) (world : World) (ctx : Ctx) (name : String)
    (vars : Except String Value) : Except ScriptError Value × Ctx :=
  match vars with
  | .error error => (.error (.runtime error), ctx)
  | .ok vars =>
    valueCall crates world ctx "render_template"
      (.object [("name", .string name), ("vars", vars)]) (.renderTemplate name vars)
      world.host.text .string

/-- Write a scratch file. -/
def writeScratchFile (crates : Crates) (world : World) (ctx : Ctx) (name content : String) :
    Except ScriptError Value × Ctx :=
  valueCall crates world ctx "write_scratch_file"
    (.object [("name", .string name), ("content", .string content)])
    (.writeScratchFile name content) world.host.text .string

/-- Read a scratch file. -/
def readScratchFile (crates : Crates) (world : World) (ctx : Ctx) (name : String) :
    Except ScriptError Value × Ctx :=
  valueCall crates world ctx "read_scratch_file" (.object [("name", .string name)])
    (.readScratchFile name) world.host.text .string

/-- The changes since a commit. -/
def gitDiffSince (crates : Crates) (world : World) (ctx : Ctx) (commit : String) :
    Except ScriptError Value × Ctx :=
  valueCall crates world ctx "git_diff_since" (.object [("commit", .string commit)])
    (.gitDiffSince commit) world.host.text .string

/-- What a script does next. Arguments that are maps are given by what they
deserialize to. -/
inductive Action where
  | agent (prompt : String)
  | agentWith (prompt : String) (opts : Except String AgentOpts)
  | parallel (items : List (Except String AgentOpts))
  | phase (title : String)
  | log (message : String)
  | telemetryEvent (name : String) (fields : Except String Value)
  | awaitUser (kind message : String)
  | pause (kind message : String)
  | budget
  | renderTemplate (name : String) (vars : Except String Value)
  | writeScratchFile (name content : String)
  | readScratchFile (name : String)
  | gitDiffSince (commit : String)
  | complete (result : Value)
  | fail (error : String)

/-- What a host function returns to the script. -/
inductive Reply where
  | unit
  | value (value : Value)
  | values (values : List Value)

/-- A result or an error that the script sees. -/
abbrev Observation := Except String Reply

/-- A deterministic script: its next action, given what it has seen. -/
abbrev Script := List Observation → Action

/-- Wrap the result of a host function. -/
def replyWith {α : Type} (f : α → Reply) (result : Except ScriptError α × Ctx) :
    Except ScriptError Reply × Ctx :=
  (result.1.map f, result.2)

/-- Carry out one action of a script. -/
def call (crates : Crates) (world : World) (ctx : Ctx) :
    Action → Except ScriptError Reply × Ctx
  | .agent prompt => replyWith .value (spawnAgentCall crates world ctx { prompt := prompt })
  | .agentWith prompt opts =>
    match agentOptsFromMap (some prompt) opts with
    | .error error => (.error (.runtime error), ctx)
    | .ok opts => replyWith .value (spawnAgentCall crates world ctx opts)
  | .parallel items => replyWith .values (parallel crates world ctx items)
  | .phase title => (.ok .unit, hostEmit ctx (.phase title))
  | .log message => (.ok .unit, hostEmit ctx (.log message))
  | .telemetryEvent name fields =>
    match fields with
    | .error error => (.error (.runtime error), ctx)
    | .ok fields => (.ok .unit, hostEmit ctx (.telemetry name fields))
  | .awaitUser kind message =>
    replyWith (fun _ => .unit) (awaitUser crates world ctx kind message)
  | .pause kind message =>
    match PauseKind.parse kind with
    | .error error => (.error (.runtime error), ctx)
    | .ok kind => (.error (.terminated (.pause kind message)), ctx)
  | .budget => replyWith .value (budget crates world ctx)
  | .renderTemplate name vars => replyWith .value (renderTemplate crates world ctx name vars)
  | .writeScratchFile name content =>
    replyWith .value (writeScratchFile crates world ctx name content)
  | .readScratchFile name => replyWith .value (readScratchFile crates world ctx name)
  | .gitDiffSince commit => replyWith .value (gitDiffSince crates world ctx commit)
  | .complete result => (.error (.terminated (.complete result)), ctx)
  | .fail error => (.error (.runtime error), ctx)

/-- A run of a script: what the script has seen, and the error that has ended it. -/
structure Run where
  ctx : Ctx
  seen : List Observation
  ended : Option ScriptError

namespace Run

/-- The outcome of a run that has ended. -/
def outcome (run : Run) : Option WorkflowOutcome := run.ended.map outcomeFromError

/-- A run before its first call. -/
def start (journal : Journal) : Run := ⟨⟨journal, 0, []⟩, [], none⟩

/-- What becomes of a run after a call. An error that the script does not catch is its
own action. -/
def after (run : Run) (action : Action) (result : Except ScriptError Reply × Ctx) : Run :=
  match result with
  | (.ok reply, ctx) => ⟨ctx, run.seen ++ [.ok reply], none⟩
  | (.error (.terminated token), ctx) => ⟨ctx, run.seen, some (.terminated token)⟩
  | (.error (.runtime message), ctx) =>
    match action with
    | .fail error => ⟨ctx, run.seen, some (.runtime error)⟩
    | _ => ⟨ctx, run.seen ++ [.error message], none⟩

/-- One call of a run that has not ended. -/
def step (crates : Crates) (world : World) (script : Script) (run : Run) : Run :=
  match run.ended with
  | some _ => run
  | none =>
    run.after (script run.seen) (call crates world run.ctx (script run.seen))

end Run

/-- The first calls of a script from a journal. -/
def runWorkflow (crates : Crates) (world : World) (script : Script) (journal : Journal) :
    ℕ → Run
  | 0 => Run.start journal
  | n + 1 => (runWorkflow crates world script journal n).step crates world script

end Ezer.Workflow
