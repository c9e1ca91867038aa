import Ezer.Permission.Normalize
import Ezer.Lib.Utf8

/-!
# Parsed scripts

The shell grammar is outside this development: a parser turns a text into the
nodes that the permission checks read. This module gives the shape of its
result, the risk of the environment a script sets, and the recovery that reads
the commands of a script which did not decompose.
-/

namespace Ezer.Permission

open Ezer.Lib

/-- A command of plain words and the bytes of the script it covers. -/
structure PlainCommand where
  words : List Text
  spanStart : ℕ
  spanEnd : ℕ

/-- The text before the given byte, if that is a character boundary. -/
def sliceTo : Text → ℕ → Option Text
  | _, 0 => some []
  | [], _ + 1 => none
  | c :: t, n + 1 =>
    if c.utf8Size ≤ n + 1 then (sliceTo t (n + 1 - c.utf8Size)).map (c :: ·) else none

/-- The text from the given byte on, if that is a character boundary. -/
def sliceFrom (t : Text) (n : ℕ) : Option Text := (sliceTo t n).map fun before => t.drop before.length

/-- Whether a command is all of the script but the white space around it. -/
def PlainCommand.spansWholeScript (command : PlainCommand) (script : Text) : Bool :=
  match sliceTo script command.spanStart, sliceFrom script command.spanEnd with
  | some before, some after => (trim before).isEmpty && (trim after).isEmpty
  | _, _ => false

/-- The text of an argument, or that the shell computes it. -/
inductive ArgText where
  | literal (value : Text)
  | ambiguous

/-- The double-quoted single variable of an argument: its name and the quoted text. -/
structure QuotedVariable where
  name : Text
  content : Text

/-- An argument as the parser describes it. -/
structure WordNode where
  arg : Option ArgText
  spelling : Option Text
  splits : Bool
  quoted : Option QuotedVariable

/-- A part of a command as the parser describes it. -/
inductive CommandChild where
  | assignment
  | missingName
  | word (node : WordNode)

/-- A statement of a script in source order. -/
inductive ScriptStatement where
  | assignment (name : Option Text) (value : Option ArgText) (topLevel : Bool)
  | command (children : List CommandChild)

/-- The writes of a script. -/
structure ScriptWrites where
  unextractedWriteRedirect : Bool
  redirectPaths : List Text
  wordPaths : List Text
  creationPaths : List Text

/--
What the parser says of a script: the commands it decomposes into, and the
facts that hold whether it decomposes or not.
-/
structure ParsedShell where
  segments : Option (List PlainCommand)
  complete : Bool
  statements : List ScriptStatement
  writes : ScriptWrites
  hasCwdChange : Bool
  assignmentKeys : List Text
  opaqueShell : Bool

/-- The shell parser. -/
abbrev ShellParser := Text → Option ParsedShell

/-- The commands of a script that decomposes. -/
def allCommandsFromScript (parse : ShellParser) (script : Text) : Option (List PlainCommand) :=
  (parse script).bind ParsedShell.segments

/-- How an environment variable may change what runs. -/
inductive EnvRisk where
  | safe
  | unvetted
  | injection
  deriving DecidableEq

/-- The tier of a risk. -/
def EnvRisk.rank : EnvRisk → ℕ
  | .safe => 0
  | .unvetted => 1
  | .injection => 2

/-- The higher of two risks. -/
def EnvRisk.max (a b : EnvRisk) : EnvRisk := if a.rank < b.rank then b else a

/-- The environment variables that change only how output looks. -/
def safeEnvKeys : List Text :=
  ["CARGO_TERM_COLOR".toList, "CARGO_TERM_PROGRESS_WHEN".toList, "RUST_LOG".toList,
    "RUST_LOG_STYLE".toList, "RUST_BACKTRACE".toList, "RUST_TEST_THREADS".toList,
    "RUST_MIN_STACK".toList, "NO_COLOR".toList, "CLICOLOR".toList, "CLICOLOR_FORCE".toList,
    "FORCE_COLOR".toList, "COLORTERM".toList]

/-- The environment variables that change which code runs. -/
def injectionEnvKeys : List Text :=
  ["LD_PRELOAD".toList, "LD_AUDIT".toList, "BASH_ENV".toList, "ENV".toList, "IFS".toList,
    "PATH".toList, "GIT_EXTERNAL_DIFF".toList, "GIT_PROXY_COMMAND".toList,
    "PROMPT_COMMAND".toList]

/-- The risk of one environment variable. -/
def envKeyRisk (key : Text) : EnvRisk :=
  if key ∈ safeEnvKeys then .safe
  else if key ∈ injectionEnvKeys || startsWith key "DYLD_".toList ||
      startsWith key "GIT_CONFIG".toList then .injection
  else .unvetted

/-- The assignments of one `env`; none where it has an option. -/
def envArgsRisk (optionsDone : Bool) (risk : EnvRisk) : List Text → Option EnvRisk
  | [] => some risk
  | arg :: rest =>
    if arg = ['-', '-'] then envArgsRisk true risk rest
    else if optionsDone = false ∧ startsWith arg ['-'] = true then none
    else if arg.contains '=' then
      envArgsRisk optionsDone (risk.max (envKeyRisk (arg.takeWhile (· != '=')))) rest
    else some risk

/-- The risk of the environment set by at most the given number of wrappers. -/
def commandEnvRiskFrom : ℕ → EnvRisk → List Text → EnvRisk
  | 0, risk, _ => risk
  | n + 1, risk, words =>
    let noted := if headBasename words = some "env".toList then envArgsRisk false risk words.tail
      else some risk
    match noted with
    | none => .injection
    | some risk =>
      match stripWrapperCommand words with
      | some inner => commandEnvRiskFrom n risk inner
      | none => risk

/-- The risk of the environment set by the wrappers of a command. -/
def commandEnvRisk (words : List Text) : EnvRisk := commandEnvRiskFrom 8 .safe words

/-- The highest risk of the environment a script sets. -/
def scriptEnvRisk (parsed : ParsedShell) : EnvRisk :=
  (parsed.segments.getD []).foldl (fun risk command => risk.max (commandEnvRisk command.words))
    (parsed.assignmentKeys.foldl (fun risk key => risk.max (envKeyRisk key)) .safe)

/-- A word of a recovered command; an unresolved one keeps its spelling. -/
inductive PermissionWord where
  | literal (value : Text)
  | unresolvedArgument (spelling : Text)

/-- The text of a recovered word. -/
def PermissionWord.text : PermissionWord → Text
  | .literal value => value
  | .unresolvedArgument spelling => spelling

/-- The recovered commands of a script. -/
structure PermissionScript where
  commands : List (List PermissionWord)
  complete : Bool
  eligible : Bool
  unresolved : Bool

/-- The recovery with the variables assigned and used so far. -/
structure RecoveryState where
  script : PermissionScript
  assigned : List Text
  used : List Text

/-- Variables a recovered script must not assign. -/
def witnessDeniedKeys : List Text :=
  ["RIPGREP_CONFIG_PATH".toList, "GCONV_PATH".toList, "GETCONF_DIR".toList,
    "GLIBC_TUNABLES".toList, "HOSTALIASES".toList, "LOCALDOMAIN".toList, "LOCPATH".toList,
    "MALLOC_TRACE".toList, "NIS_PATH".toList, "NLSPATH".toList, "RESOLV_HOST_CONF".toList,
    "RES_OPTIONS".toList, "TZDIR".toList]

/-- Whether a text can only be a path. -/
def isPathStart (value : Text) : Bool := startsWith value ['/'] || startsWith value ['.', '/']

/-- Whether a recovered script may assign the variable. -/
def isWitnessKey (name : Text) : Bool :=
  !decide (name ∈ witnessDeniedKeys) && !startsWith name "LD_".toList &&
    envKeyRisk name != .injection

/-- The variable an assignment adds to the assigned ones, where it may. -/
def witnessName (state : RecoveryState) (name : Option Text) (value : Option ArgText)
    (topLevel : Bool) : Option Text :=
  match name, value with
  | some name, some (.literal value) =>
    if state.script.commands = [] ∧ topLevel = true ∧ isPathStart value = true ∧
        isWitnessKey name = true ∧ name ∉ state.assigned then some name
    else none
  | _, _ => none

/-- Reads an assignment. -/
def RecoveryState.assign (state : RecoveryState) (name : Option Text) (value : Option ArgText)
    (topLevel : Bool) : RecoveryState :=
  match witnessName state name value topLevel with
  | some name => { state with assigned := name :: state.assigned }
  | none => { state with script := { state.script with eligible := false } }

/-- Whether the operand of a quoted variable cannot be an option. -/
def quotedOperandSafe (assigned : List Text) (quoted : QuotedVariable) : Bool :=
  isPathStart quoted.content ||
    (startsWith quoted.content ['$'] && decide (quoted.name ∈ assigned))

/-- The words of one command as they are read. -/
structure RecoveredCommand where
  words : List PermissionWord
  operandsSafe : List Bool

/-- Whether an unquoted word may be expanded to several. -/
def hasPatternCharacter (spelling : Option Text) : Bool :=
  match spelling with
  | some spelling => spelling.any fun c => c ∈ ['*', '?', '[', '~']
  | none => false

/-- Reads one argument of a command. -/
def recoverWord (state : RecoveryState) (command : RecoveredCommand) (node : WordNode) :
    RecoveryState × RecoveredCommand :=
  match node.arg with
  | some (.literal value) =>
    let expands := node.splits && hasPatternCharacter node.spelling
    ({ state with script := { state.script with eligible := state.script.eligible && !expands } },
      { words := command.words ++ [.literal value]
        operandsSafe := command.operandsSafe ++ [true] })
  | some .ambiguous =>
    match node.spelling with
    | none => ({ state with script := { state.script with complete := false } }, command)
    | some spelling =>
      let script := { state.script with
        unresolved := true
        complete := state.script.complete && node.quoted.isSome }
      let used := match node.quoted with
        | some quoted => if quoted.name ∈ state.assigned then quoted.name :: state.used else state.used
        | none => state.used
      ({ state with script := script, used := used },
        { words := command.words ++ [.unresolvedArgument spelling]
          operandsSafe := command.operandsSafe ++
            [(node.quoted.map (quotedOperandSafe state.assigned)).getD false] })
  | none => ({ state with script := { state.script with eligible := false } }, command)

/-- Reads one part of a command. -/
def recoverChild (state : RecoveryState) (command : RecoveredCommand) :
    CommandChild → RecoveryState × RecoveredCommand
  | .assignment => ({ state with script := { state.script with eligible := false } }, command)
  | .missingName => ({ state with script := { state.script with complete := false } }, command)
  | .word node => recoverWord state command node

/-- Reads the parts of a command. -/
def recoverChildren (state : RecoveryState) (command : RecoveredCommand) :
    List CommandChild → RecoveryState × RecoveredCommand
  | [] => (state, command)
  | child :: rest =>
    let read := recoverChild state command child
    recoverChildren read.1 read.2 rest

/-- What the check of a reader's arguments has seen. -/
structure ReaderScan where
  boundary : Bool
  pattern : Bool
  value : Bool

/-- Whether every character of a text is a digit. -/
def isDigits (t : Text) : Bool := !t.isEmpty && t.all Char.isDigit

/-- An accepted option of a reader, with whether it takes the next word. -/
def readerOption (head arg : Text) : Option Bool :=
  if head = "ls".toList then
    if !(arg.drop 1).isEmpty && (arg.drop 1).all (· ∈ "alhdFRtSr1".toList) then some false else none
  else if head = "rg".toList then
    if arg ∈ [['-', 'n'], ['-', 'v']] then some false else none
  else if head = "head".toList ∨ head = "tail".toList then
    if arg ∈ [['-', 'n'], ['-', 'c']] then some true
    else if isDigits (arg.drop 1) then some false
    else none
  else if head = "echo".toList then
    if arg ∈ [['-', 'n'], ['-', 'e'], ['-', 'E']] then some false else none
  else none

/-- Checks one argument of a reader. -/
def readerStep (head : Text) (scan : ReaderScan) (word : PermissionWord) (safe : Bool) :
    Option ReaderScan :=
  match word with
  | .unresolvedArgument _ =>
    if scan.value = true ∨ scan.pattern = false ∨ head ∉ ["ls".toList, "rg".toList] ∨
        (scan.boundary = false ∧ safe = false) then none
    else some scan
  | .literal arg =>
    if scan.value = true then
      if isDigits arg then some { scan with value := false } else none
    else if scan.boundary = false ∧ arg = ['-', '-'] then some { scan with boundary := true }
    else if scan.boundary = false ∧ startsWith arg ['-'] = true ∧ arg ≠ ['-'] then
      (readerOption head arg).map fun value => { scan with value := value }
    else if scan.pattern = false then some { scan with pattern := true }
    else some scan

/-- Checks the arguments of a reader. -/
def readerScan (head : Text) : ReaderScan → List (PermissionWord × Bool) → Option ReaderScan
  | scan, [] => some scan
  | scan, (word, safe) :: rest =>
    match readerStep head scan word safe with
    | some scan => readerScan head scan rest
    | none => none

/-- The commands that only read files and print. -/
def readerCommands : List Text :=
  ["ls".toList, "rg".toList, "echo".toList, "head".toList, "tail".toList]

/-- Whether a recovered command is a reader with known operands. -/
def readersAllow (words : List PermissionWord) (safe : List Bool) : Bool :=
  match words.head? with
  | some (.literal head) =>
    if head ∈ readerCommands then
      match readerScan head
          { boundary := false, pattern := head != "rg".toList, value := false }
          (words.zip safe).tail with
      | some scan => scan.pattern && !scan.value
      | none => false
    else false
  | _ => false

/-- Whether a recovered command has a known program. -/
def hasLiteralHead (words : List PermissionWord) : Bool :=
  match words.head? with
  | some (.literal _) => true
  | _ => false

/-- Reads a statement. -/
def RecoveryState.read (state : RecoveryState) : ScriptStatement → RecoveryState
  | .assignment name value topLevel => state.assign name value topLevel
  | .command children =>
    let read := recoverChildren state { words := [], operandsSafe := [] } children
    let script := read.1.script
    { read.1 with script := { script with
        eligible := script.eligible && readersAllow read.2.words read.2.operandsSafe
        complete := script.complete && hasLiteralHead read.2.words
        commands := script.commands ++ [read.2.words] } }

/-- The recovered commands of a parsed script. -/
def PermissionScript.analyze (parsed : ParsedShell) : PermissionScript :=
  let read := parsed.statements.foldl RecoveryState.read
    { script :=
        { commands := [], complete := parsed.complete, eligible := true, unresolved := false }
      assigned := []
      used := [] }
  let script := read.script
  { script with eligible :=
      script.eligible && script.complete && script.unresolved && !script.commands.isEmpty &&
        read.assigned.all (· ∈ read.used) }

/-- Whether a complete script has arguments that only the shell knows. -/
def PermissionScript.hasUnresolved (script : PermissionScript) : Bool :=
  script.complete && script.unresolved

/-- The commands of a recovered script as plain words. -/
def PermissionScript.projections (script : PermissionScript) : List (List Text) :=
  (script.commands.filter hasLiteralHead).map fun words => words.map PermissionWord.text

end Ezer.Permission
