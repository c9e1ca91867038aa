import Ezer.Permission.Evaluate
import Ezer.Lib.Strongest

/-!
# The configured policy on shell commands

Configured rules deny, ask or allow. On a shell command they are compared with
every command of the script, as written and normalized, and with the scripts
handed to an inner shell, to a bounded depth. The gate only escalates; an allow
needs every command to be allowed.
-/

namespace Ezer.Permission

open Ezer.Lib

/-- What a rule decides. -/
inductive RuleAction where
  | allow
  | deny
  | ask
  deriving DecidableEq

/-- The tools a rule is about. -/
inductive ToolFilter where
  | any
  | bash
  | edit
  | read
  | grep
  | mcp
  | webFetch
  | webSearch
  | agentMessage
  deriving DecidableEq

/-- The name of a tool in a refusal. -/
def ToolFilter.label : ToolFilter → Text
  | .any => "any tool".toList
  | .bash => "bash".toList
  | .edit => "edit".toList
  | .read => "read".toList
  | .grep => "grep".toList
  | .mcp => "mcp".toList
  | .webFetch => "web_fetch".toList
  | .webSearch => "web_search".toList
  | .agentMessage => "agent_message".toList

/-- A configured rule. -/
structure PermissionRule where
  action : RuleAction
  tool : ToolFilter
  pattern : Option Text

/-- Whether a rule is about shell commands. -/
def PermissionRule.reachesBash (rule : PermissionRule) : Bool :=
  rule.tool == .any || rule.tool == .bash

/-- Why a rule refuses. -/
def PermissionRule.denyReason (rule : PermissionRule) : Text :=
  match rule.pattern with
  | some pattern =>
    "Denied by permission policy: deny rule on ".toList ++ rule.tool.label ++
      " matching \"".toList ++ pattern ++ ['"']
  | none => "Denied by permission policy: deny rule on ".toList ++ rule.tool.label

/-- An escalation with what it rests on. -/
inductive GateDecision where
  | reject (reason : Text)
  | askRuleMatch
  | askFailClosed

/-- The strength of an escalation. -/
def GateDecision.rank : GateDecision → ℕ
  | .reject _ => 3
  | .askRuleMatch => 2
  | .askFailClosed => 1

/-- The plain decision of an escalation. -/
def GateDecision.intoDecision : GateDecision → Decision
  | .reject reason => .reject reason
  | .askRuleMatch => .ask
  | .askFailClosed => .ask

/-- The strength of a decision. -/
def decisionRank : Decision → ℕ
  | .reject _ => 3
  | .policyDeny _ => 3
  | .ask => 2
  | .allow => 1
  | .followupMessage _ => 0
  | .cancelled => 0

/-- Keeps the stronger escalation. -/
def combineGateDecisions : Option GateDecision → Option GateDecision → Option GateDecision :=
  stronger GateDecision.rank

/-- Escalates without a rule where the condition holds. -/
def failClosedIf (condition : Bool) : Option GateDecision :=
  if condition then some .askFailClosed else none

/-- The commands of a script as the policy sees them. -/
inductive ScriptCommands where
  | unparsed
  | recovered (projections : List (List Text)) (eligible : Bool)
  | decomposed (segments : List (List Text))

/-- The commands of a parsed script: its segments, or what is recovered of them. -/
def scriptCommands (parse : ShellParser) (script : Text) : ScriptCommands :=
  match parse script with
  | none => .unparsed
  | some parsed =>
    match parsed.segments with
    | some segments => .decomposed (segments.map PlainCommand.words)
    | none =>
      .recovered (PermissionScript.analyze parsed).projections
        (PermissionScript.analyze parsed).eligible

/-- The scripts of inner shells that are followed. -/
def maxInlineShellDepth : ℕ := 8

/-- The inline script of a normalized command. -/
def inlineShellScript (words : List Text) : InlineShellScript :=
  shellDashCScript (words.map ShellWord.literal)

section

variable (glob : GlobCompiler) (rules : List PermissionRule) (commands : Text → ScriptCommands)

/-- The compiled pattern of a rule. -/
def PermissionRule.matcher (rule : PermissionRule) : Option (Text → Bool) :=
  match rule.pattern with
  | none => none
  | some pattern => if pattern = ['*'] then none else glob pattern

/-- Whether the pattern of a rule matches a shell command. -/
def PermissionRule.patternMatches (rule : PermissionRule) (cmd : Text) : Bool :=
  match rule.pattern with
  | none => true
  | some pattern =>
    pattern == ['*'] || startsWith (trimStart cmd) pattern ||
      (match rule.matcher glob with
      | some matcher => matcher (trimStart cmd)
      | none => false)

/-- Whether a rule with the action matches a shell command. -/
def PermissionRule.matchesBash (action : RuleAction) (cmd : Text) (rule : PermissionRule) : Bool :=
  rule.action == action && rule.reachesBash && rule.patternMatches glob cmd

/-- Whether the pattern of an allow rule covers a shell command. -/
def bashAllowPatternMatches (cmd : Text) (rule : PermissionRule) : Bool :=
  match rule.pattern with
  | none => true
  | some pattern =>
    pattern == ['*'] || bashCommandMatchesPattern glob cmd pattern (rule.matcher glob)

/-- Whether a rule allows a shell command. -/
def PermissionRule.allowsBash (cmd : Text) (rule : PermissionRule) : Bool :=
  rule.action == .allow && rule.reachesBash && bashAllowPatternMatches glob cmd rule

/-- Whether some rule allows the words of a command. -/
def bashWordsAllowed (words : List Text) : Bool :=
  !words.isEmpty && rules.any (PermissionRule.allowsBash glob (joinWords words))

/-- Whether some rule denies shell commands or asks about them. -/
def hasBashCommandRestrictions : Bool :=
  rules.any fun rule => rule.action != .allow && rule.reachesBash

/-- Whether some rule allows shell commands. -/
def hasBashAllowRules : Bool := rules.any fun rule => rule.action == .allow && rule.reachesBash

/-- Whether something about the normalized words is unknown. -/
def NormalizedCommandPeel.isUnclear (norm : NormalizedCommandPeel) : Bool :=
  norm.exhausted || norm.ambiguous || norm.envOptionsUncertain || norm.hasSplitString

/-- Whether a segment is allowed, given what allows the scripts of inner shells. -/
def segmentFullyAllowed (recurse : Option (Text → Bool)) (words : List Text) : Bool :=
  let norm := normalizeCommandWords words
  !norm.isUnclear && bashWordsAllowed glob rules norm.words &&
    (match inlineShellScript norm.words, recurse with
    | .literal index, some allowed =>
      (match norm.words[index]? with
      | some inner => allowed inner
      | none => false)
    | .notInline, _ => true
    | _, _ => false)

/-- Whether a script is allowed, given what allows the scripts of inner shells. -/
def chainAllowedWith (recurse : Option (Text → Bool)) (cmd : Text) : Bool :=
  match commands cmd with
  | .unparsed => false
  | .recovered projections eligible => eligible && projections.all (bashWordsAllowed glob rules)
  | .decomposed segments =>
    !segments.isEmpty && segments.all (segmentFullyAllowed glob rules recurse)

/-- Whether every command of a script is allowed, inner shells to the given depth. -/
def bashChainFullyAllowed : ℕ → Text → Bool
  | 0 => chainAllowedWith glob rules commands none
  | depth + 1 => chainAllowedWith glob rules commands (some (bashChainFullyAllowed depth))

/-- The decision of the rules on a shell command: deny before ask before allow. -/
def evaluate (cmd : Text) : Option Decision :=
  match rules.find? (PermissionRule.matchesBash glob .deny cmd) with
  | some rule => some (.reject rule.denyReason)
  | none =>
    if rules.any (PermissionRule.matchesBash glob .ask cmd) then some .ask
    else if hasBashAllowRules rules &&
        bashChainFullyAllowed glob rules commands maxInlineShellDepth cmd then some .allow
    else none

/-- The escalation by the rules on the text of one command. -/
def escalate (segment : Text) : Option GateDecision :=
  match evaluate glob rules commands segment with
  | some (.reject reason) => some (.reject reason)
  | some .ask => some .askRuleMatch
  | _ => none

/-- A command as written, and normalized where that is shorter. -/
def commandForms (rawWords : List Text) : List (List Text) :=
  let inner := (normalizeCommandWords rawWords).words
  if inner.length = rawWords.length then [rawWords] else [rawWords, inner]

/-- The escalation by the script of an inner shell. -/
def inlineGate (recurse : Option (Text → Option GateDecision)) (words : List Text) :
    Option GateDecision :=
  match inlineShellScript words, recurse with
  | .literal index, some gate =>
    (match words[index]? with
    | some inner => gate inner
    | none => some .askFailClosed)
  | .notInline, _ => none
  | _, _ => some .askFailClosed

/-- The escalation by the packed operand of `env -S`. -/
def splitStringGate (recurse : Option (Text → Option GateDecision)) (words : List Text) :
    Option GateDecision :=
  match envSplitStringScript words, recurse with
  | some script, some gate => gate script
  | some _, none => some .askFailClosed
  | none, _ => none

/-- The escalation by one command, given the gate for the scripts inside it. -/
def evaluateCommandWords (recurse : Option (Text → Option GateDecision)) (rawWords : List Text) :
    Option GateDecision :=
  let norm := normalizeCommandWords rawWords
  let flagged := combineGateDecisions
    (failClosedIf (norm.exhausted || norm.ambiguous || norm.envOptionsUncertain))
    (failClosedIf norm.hasSplitString)
  let matched := strongestOf GateDecision.rank flagged
    (fun words => escalate glob rules commands (joinWords words)) (commandForms rawWords)
  combineGateDecisions (combineGateDecisions matched (inlineGate recurse norm.words))
    (splitStringGate recurse norm.words)

/-- The escalation by the commands of a script, given the gate for the scripts inside it. -/
def gateWith (recurse : Option (Text → Option GateDecision)) (cmd : Text) : Option GateDecision :=
  match commands cmd with
  | .unparsed => some .askFailClosed
  | .recovered projections eligible =>
    strongestOf GateDecision.rank
      (failClosedIf !(eligible && projections.all (bashWordsAllowed glob rules)))
      (evaluateCommandWords glob rules commands recurse) projections
  | .decomposed segments =>
    strongestOf GateDecision.rank none (evaluateCommandWords glob rules commands recurse) segments

/-- The escalation by the commands of a script, inner scripts to the given depth. -/
def evaluateBashCommandSegments : ℕ → Text → Option GateDecision
  | 0 => gateWith glob rules commands none
  | depth + 1 => gateWith glob rules commands (some (evaluateBashCommandSegments depth))

/-- The escalation by the policy on a shell command. -/
def evaluateBashCommandGate (cmd : Text) : Option GateDecision :=
  if hasBashCommandRestrictions rules then
    evaluateBashCommandSegments glob rules commands maxInlineShellDepth cmd
  else none

/-- The plain decision of the gate. -/
def evaluateBashCommandPolicy (cmd : Text) : Option Decision :=
  (evaluateBashCommandGate glob rules commands cmd).map GateDecision.intoDecision

end

end Ezer.Permission
