import Ezer.Lib.Trim
import Ezer.Lib.Peel

/-!
# Wrapper commands

A segment of a shell script is a list of words. `timeout`, `env`, `nice` and
their like run the command that follows them, so the permission checks look
past them. This module follows the peeling code: the option scan of `env`, one
layer of wrapper, and the bounded peel that reports what it could not see
through.
-/

namespace Ezer.Permission

open Ezer.Lib

/-- Whether a text begins with the given one. -/
def startsWith (t start : Text) : Bool := start.isPrefixOf t

/-- The path separators of a program name. -/
def isSeparator (c : Char) : Bool := c == '/' || c == '\\'

/-- A program without its directories. -/
def basename (program : Text) : Text :=
  (program.reverse.takeWhile fun c => !isSeparator c).reverse

/-- Whether the character is an ASCII letter. -/
def isAsciiAlphabetic (c : Char) : Bool := c.isAlpha

/-- Whether the character is an ASCII letter or digit. -/
def isAsciiAlphanumeric (c : Char) : Bool := c.isAlphanum

/-- A `NAME=VALUE` operand of `env`. -/
def isEnvAssignment (tok : Text) : Bool :=
  let name := tok.takeWhile (· != '=')
  tok.contains '=' &&
    (match name.head? with
    | some c => isAsciiAlphabetic c || c == '_'
    | none => false) &&
    name.all fun c => isAsciiAlphanumeric c || c == '_'

/-- The literal meaning of a word spelled with shell quotes, given the open quote. -/
def decodeSpelling : Option Char → Text → Option Text
  | none, [] => some []
  | some _, [] => none
  | quote, c :: rest =>
    if quote = none ∧ (c = '\'' ∨ c = '"') then decodeSpelling (some c) rest
    else if quote = some c then decodeSpelling none rest
    else if quote = none ∧ c = '\\' then
      match rest with
      | [] => none
      | next :: rest => (decodeSpelling quote rest).map (next :: ·)
    else if quote = some '"' ∧ c = '\\' then
      match rest with
      | [] => none
      | next :: rest =>
        if next ∈ ['$', '`', '"', '\\', '\n'] then (decodeSpelling quote rest).map (next :: ·)
        else (decodeSpelling quote rest).map ('\\' :: next :: ·)
    else (decodeSpelling quote rest).map (c :: ·)

/-- The literal meaning of a word spelled with shell quotes; none with a quote left open. -/
def decodeShellLiteralSpelling (raw : Text) : Option Text := decodeSpelling none raw

/-- An option of `env` with the quotes of its spelling removed. -/
def decodeEnvOptionToken (raw : Text) : Text :=
  if raw.any fun c => c == '\'' || c == '"' then (decodeShellLiteralSpelling raw).getD raw
  else raw

/-- Whether a packed operand of `env -S` means the same to `env` and to the shell. -/
def isHighConfidenceEnvSPayload (payload : Text) : Bool :=
  !payload.isEmpty && !payload.contains '\x00' &&
    !payload.any fun c => c ∈ ['\'', '"', '\\', '#', '`', '$', '\n', '\r']

/-- A packed operand that can be read as a script. -/
def takeHighConfidencePayload (raw : Text) : Option Text :=
  if isHighConfidenceEnvSPayload raw then some raw else none

/-- One short option token of `env`. -/
inductive EnvShort where
  | splitStringNext
  | splitStringGlued (payload : Text)
  | splitStringDetect
  | noArg
  | argNeedNext (kind : Char)
  | argGlued (kind : Char)
  | uncertain

/-- The letters of a cluster of short options. -/
def classifyEnvCluster : Text → EnvShort
  | [] => .noArg
  | c :: rest =>
    if c ∈ ['i', 'v', '0'] then classifyEnvCluster rest
    else if c = 'S' then .splitStringDetect
    else if c ∈ ['u', 'C', 'P', 'a'] then
      if rest = [] then .argNeedNext c else .argGlued c
    else .uncertain

/-- What one short option token of `env` is. -/
def classifyEnvShort (tok : Text) : EnvShort :=
  match tok with
  | '-' :: '-' :: _ => .uncertain
  | '-' :: [] => .uncertain
  | '-' :: 'S' :: [] => .splitStringNext
  | '-' :: 'S' :: payload => .splitStringGlued payload
  | '-' :: body => classifyEnvCluster body
  | _ => .uncertain

/-- What the option scan of `env` does with one word. -/
inductive EnvStep where
  | skip
  | chdir (dir : Text)
  | operand (isChdir : Bool)
  | splitString (script : Option Text)
  | splitStringNext
  | endOptions
  | command
  | uncertain

/-- The long options of `env`. -/
def envLongStep (tok : Text) : EnvStep :=
  if tok = "--chdir".toList then .operand true
  else if startsWith tok "--chdir=".toList then .chdir (tok.drop 8)
  else if tok ∈ ["--unset".toList, "--path".toList, "--argv0".toList] then .operand false
  else if startsWith tok "--unset=".toList || startsWith tok "--path=".toList ||
      startsWith tok "--argv0=".toList then .skip
  else if tok ∈ ["--ignore-environment".toList, "--null".toList, "--debug".toList,
      "--version".toList, "--help".toList] then .skip
  else if tok = "--split-string".toList then .splitStringNext
  else
    match stripStart "--split-string=".toList tok with
    | some payload =>
      .splitString (takeHighConfidencePayload
        ((stripStart "--split-string=".toList (decodeEnvOptionToken tok)).getD payload))
    | none => .uncertain

/-- The short options of `env`. -/
def envShortStep (tok : Text) : EnvStep :=
  match classifyEnvShort (decodeEnvOptionToken tok) with
  | .splitStringNext => .splitStringNext
  | .splitStringGlued payload => .splitString (takeHighConfidencePayload payload)
  | .splitStringDetect => .splitString none
  | .noArg => .skip
  | .argNeedNext kind => .operand (kind == 'C')
  | .argGlued kind =>
    if kind = 'C' then .chdir ((stripStart ['-', 'C'] tok).getD []) else .skip
  | .uncertain => .uncertain

/-- What the option scan of `env` does with one word. -/
def envStep (tok : Text) : EnvStep :=
  if tok = ['-', '-'] then .endOptions
  else if tok = ['-'] then .skip
  else if startsWith tok ['-'] = false then
    if isEnvAssignment tok then .skip else .command
  else if startsWith tok ['-', '-'] then envLongStep tok
  else envShortStep tok

/-- What the option scan of a leading `env` found. -/
structure EnvScan where
  chdir : Option Text
  hasSplitString : Bool
  optionsUncertain : Bool
  splitStringScript : Option Text
  commandStart : ℕ

/-- The option scan over the words that remain. -/
def envScanFrom (scan : EnvScan) : List Text → EnvScan
  | [] => scan
  | tok :: rest =>
    match envStep tok with
    | .skip => envScanFrom { scan with commandStart := scan.commandStart + 1 } rest
    | .chdir dir =>
      envScanFrom { scan with chdir := some dir, commandStart := scan.commandStart + 1 } rest
    | .operand isChdir =>
      match rest with
      | [] => { scan with optionsUncertain := true }
      | operand :: rest =>
        envScanFrom { scan with
          chdir := if isChdir then some operand else scan.chdir
          commandStart := scan.commandStart + 2 } rest
    | .splitString script => { scan with hasSplitString := true, splitStringScript := script }
    | .splitStringNext =>
      { scan with
        hasSplitString := true
        splitStringScript := rest.head?.bind takeHighConfidencePayload }
    | .endOptions => { scan with commandStart := scan.commandStart + 1 }
    | .command => scan
    | .uncertain => { scan with optionsUncertain := true }

/-- The options and assignments of a leading `env`. -/
def envScan (cmd : List Text) : EnvScan :=
  envScanFrom
    { chdir := none, hasSplitString := false, optionsUncertain := false,
      splitStringScript := none, commandStart := 1 } cmd.tail

/-- The program of a segment without its directories. -/
def headBasename (words : List Text) : Option Text := words.head?.map basename

/-- The packed operand of `env -S` where it can be read as a script. -/
def envSplitStringScript (words : List Text) : Option Text :=
  if headBasename words = some "env".toList then
    let scan := envScan words
    if scan.hasSplitString then scan.splitStringScript else none
  else none

/-- The commands that run the command behind them. -/
inductive Wrapper where
  | timeout
  | nice
  | ionice
  | chrt
  | stdbuf
  | env

/-- The wrapper a program name stands for. -/
def wrapperOf (program : Text) : Option Wrapper :=
  if program = "timeout".toList then some .timeout
  else if program = "nice".toList then some .nice
  else if program = "ionice".toList then some .ionice
  else if program = "chrt".toList then some .chrt
  else if program = "stdbuf".toList then some .stdbuf
  else if program = "env".toList then some .env
  else none

/-- The wrapper a segment starts with. -/
def headWrapper (words : List Text) : Option Wrapper := (headBasename words).bind wrapperOf

/-- Drops leading options, some of which take the word after them. -/
def skipOptions (takesValue : List Text) : List Text → List Text
  | [] => []
  | tok :: rest =>
    if startsWith tok ['-'] then
      if tok ∈ takesValue then
        match rest with
        | [] => []
        | _ :: rest => skipOptions takesValue rest
      else skipOptions takesValue rest
    else tok :: rest

/-- The options of a wrapper that take the word after them. -/
def Wrapper.takesValue : Wrapper → List Text
  | .timeout => ["-k".toList, "-s".toList, "--kill-after".toList, "--signal".toList]
  | .nice => ["-n".toList, "--adjustment".toList]
  | .ionice =>
    ["-c".toList, "-n".toList, "-p".toList, "-P".toList, "-u".toList, "--class".toList,
      "--classdata".toList, "--pid".toList, "--pgid".toList, "--uid".toList]
  | .chrt => []
  | .stdbuf => ["-i".toList, "-o".toList, "-e".toList]
  | .env => []

/-- Whether a wrapper takes an operand before the command. -/
def Wrapper.hasOperand : Wrapper → Bool
  | .timeout => true
  | .chrt => true
  | _ => false

/-- What follows a wrapper, its options and its operand. -/
def Wrapper.inner (wrapper : Wrapper) (cmd : List Text) : List Text :=
  match wrapper with
  | .env =>
    let scan := envScan cmd
    if scan.hasSplitString || scan.optionsUncertain then [] else cmd.drop scan.commandStart
  | _ =>
    let rest := skipOptions wrapper.takesValue cmd.tail
    if wrapper.hasOperand then rest.tail else rest

/-- The command behind a leading wrapper, where there is one. -/
def stripWrapperCommand (cmd : List Text) : Option (List Text) :=
  match headWrapper cmd with
  | some wrapper => if wrapper.inner cmd = [] then none else some (wrapper.inner cmd)
  | none => none

/-- Whether a segment starts with a wrapper. -/
def isWrapperCommand (words : List Text) : Bool := (headWrapper words).isSome

/-- The layers of wrappers that are peeled. -/
def maxWrapperDepth : ℕ := 8

/-- A peeled segment with what the peeling saw. -/
structure CheckedWrapperPeel where
  words : List Text
  hasChdir : Bool
  hasSplitString : Bool
  envOptionsUncertain : Bool
  exhausted : Bool

/-- Words of which no wrapper was peeled yet. -/
def CheckedWrapperPeel.start (words : List Text) : CheckedWrapperPeel where
  words := words
  hasChdir := false
  hasSplitString := false
  envOptionsUncertain := false
  exhausted := false

/-- Notes the options of a leading `env`. -/
def CheckedWrapperPeel.noteEnv (peel : CheckedWrapperPeel) : CheckedWrapperPeel :=
  if headBasename peel.words = some "env".toList then
    let scan := envScan peel.words
    { peel with
      hasChdir := peel.hasChdir || scan.chdir.isSome
      hasSplitString := peel.hasSplitString || scan.hasSplitString
      envOptionsUncertain := peel.envOptionsUncertain || scan.optionsUncertain }
  else peel

/-- Peels at most the given number of wrappers. -/
def unwrapWrappersFrom : ℕ → CheckedWrapperPeel → CheckedWrapperPeel
  | 0, peel =>
    { peel with
      exhausted := isWrapperCommand peel.words && (stripWrapperCommand peel.words).isSome }
  | n + 1, peel =>
    match stripWrapperCommand peel.words with
    | some inner => unwrapWrappersFrom n { peel.noteEnv with words := inner }
    | none => { peel.noteEnv with exhausted := false }

/-- Peels the wrappers of a segment up to the depth bound. -/
def unwrapWrappersChecked (words : List Text) : CheckedWrapperPeel :=
  unwrapWrappersFrom maxWrapperDepth (.start words)

/-- The words of a segment behind its wrappers. -/
def unwrapWrappers (words : List Text) : List Text := (unwrapWrappersChecked words).words

end Ezer.Permission
