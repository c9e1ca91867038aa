import Ezer.Workflow.Value

/-!
# The host of a workflow

The requests a running workflow sends to its host, the values they carry and
the answers. A host is given by its answer to each request, by the number of
the request in its run.
-/

namespace Ezer.Workflow

/-- The options of an agent call. -/
structure AgentOpts where
  prompt : String
  label : Option String := none
  model : Option String := none
  effort : Option String := none
  maxOutputTokens : Option ℕ := none
  agentType : Option String := none
  capabilityMode : Option String := none
  isolationWorktree : Bool := false
  forkContext : Bool := false
  resumeFrom : Option String := none
  outputSchema : Option Value := none
  phase : Option String := none

/-- The options as a JSON object; an absent effort is left out. -/
def AgentOpts.toValue (opts : AgentOpts) : Value :=
  .object ([("prompt", .string opts.prompt), ("label", .ofOption .string opts.label),
      ("model", .ofOption .string opts.model)] ++
    (opts.effort.map fun effort => ("effort", .string effort)).toList ++
    [("max_output_tokens", .ofOption .ofNat opts.maxOutputTokens),
      ("agent_type", .ofOption .string opts.agentType),
      ("capability_mode", .ofOption .string opts.capabilityMode),
      ("isolation_worktree", .bool opts.isolationWorktree),
      ("fork_context", .bool opts.forkContext),
      ("resume_from", .ofOption .string opts.resumeFrom),
      ("output_schema", .ofOption id opts.outputSchema),
      ("phase", .ofOption .string opts.phase)])

/-- The result of an agent call. -/
structure AgentResult where
  agentId : String
  success : Bool
  output : Value
  cancelled : Bool
  tokensUsed : ℕ
  durationMs : ℕ

/-- The result as a JSON object. -/
def AgentResult.toValue (result : AgentResult) : Value :=
  .object [("agent_id", .string result.agentId), ("success", .bool result.success),
    ("output", result.output), ("cancelled", .bool result.cancelled),
    ("tokens_used", .ofNat result.tokensUsed), ("duration_ms", .ofNat result.durationMs)]

/-- The token budget of a run. -/
structure BudgetState where
  total : Option ℕ
  spent : ℕ
  reserved : ℕ
  remaining : Option ℕ

/-- The budget as a JSON object. -/
def BudgetState.toValue (state : BudgetState) : Value :=
  .object [("total", .ofOption .ofNat state.total), ("spent", .ofNat state.spent),
    ("reserved", .ofNat state.reserved), ("remaining", .ofOption .ofNat state.remaining)]

/-- An error with which the host answers. -/
inductive HostError where
  | agentCallQuotaExceeded (requested maximum : ℕ)
  | budgetExceeded
  | cancelled
  | unsupported (message : String)
  | failed (message : String)

/-- A request to the host. -/
inductive WorkflowHostRequest where
  | reserveAgentCalls (count : ℕ)
  | releaseAgentCalls (count : ℕ)
  | spawnAgent (opts : AgentOpts)
  | phase (title : String) (replayed : Bool)
  | log (message : String) (replayed : Bool)
  | telemetry (name : String) (fields : Value) (replayed : Bool)
  | budgetQuery
  | renderTemplate (name : String) (vars : Value)
  | writeScratchFile (name content : String)
  | readScratchFile (name : String)
  | gitDiffSince (commit : String)

/-- Whether the request is sent without waiting for an answer. -/
def WorkflowHostRequest.isNotice : WorkflowHostRequest → Bool
  | phase _ _ | log _ _ | telemetry _ _ _ => true
  | _ => false

/-- What becomes of a request that waits for an answer: the channel is closed, the
host drops the sender of the reply, or it answers. -/
inductive Delivery (α : Type) where
  | closed
  | dropped
  | answered (reply : Except HostError α)

/-- A host answers the request with a given number in the run, according to what the
request asks for. -/
structure Host where
  agentCalls : ℕ → Delivery Unit
  agent : ℕ → Delivery AgentResult
  budget : ℕ → Delivery BudgetState
  text : ℕ → Delivery String

end Ezer.Workflow
