import Ezer.Permission.Wrappers

/-!
# Normalized command words

`exec`, `command` and `builtin` run the command behind them without being
wrappers of their own. The policy gate alternates the two peels to a bounded
fixed point and reports whatever it could not see through.
-/

namespace Ezer.Permission

open Ezer.Lib

/-- What is left of the words behind a shell-transparent prefix. -/
inductive TransparentStrip where
  | notPrefix
  | peeled (inner : List Text)
  | ambiguous
  deriving DecidableEq

/-- A prefix with no command behind it is no prefix. -/
def TransparentStrip.ofRest : List Text → TransparentStrip
  | [] => .notPrefix
  | tok :: rest => .peeled (tok :: rest)

/-- `exec [-cl] [-a name] [command [arguments]]`, after the program. -/
def stripExecPrefix : List Text → TransparentStrip
  | [] => .notPrefix
  | tok :: rest =>
    if tok = ['-', '-'] then .ofRest rest
    else if tok = ['-'] || startsWith tok ['-'] = false then .ofRest (tok :: rest)
    else if tok ∈ [['-', 'c'], ['-', 'l'], ['-', 'c', 'l'], ['-', 'l', 'c']] then
      stripExecPrefix rest
    else if tok = ['-', 'a'] then
      match rest with
      | [] => .ambiguous
      | name :: rest => if name = ['\x00'] ∨ name = [] then .ambiguous else stripExecPrefix rest
    else if startsWith tok ['-', 'a'] then
      if tok = ['-', 'a', '\x00'] then .ambiguous else stripExecPrefix rest
    else if startsWith tok ['-', '-'] = false && (tok.drop 1).all (· ∈ ['c', 'l']) then
      stripExecPrefix rest
    else .ambiguous

/-- `command [-p] command [arguments]`, after the program. -/
def stripCommandPrefix : List Text → TransparentStrip
  | [] => .notPrefix
  | tok :: rest =>
    if tok = ['-', '-'] then .ofRest rest
    else if tok = ['-'] || startsWith tok ['-'] = false then .ofRest (tok :: rest)
    else if tok = "--help".toList || tok = "--version".toList ||
        (startsWith tok ['-', '-'] = false && (tok.drop 1).any (· ∈ ['v', 'V'])) then .notPrefix
    else if startsWith tok ['-', '-'] = false && (tok.drop 1).all (· ∈ ['p']) then
      stripCommandPrefix rest
    else .ambiguous

/-- `builtin [shell-builtin [arguments]]`, after the program. -/
def stripBuiltinPrefix : List Text → TransparentStrip
  | [] => .notPrefix
  | tok :: rest =>
    if startsWith tok ['-'] && tok != ['-'] then .ambiguous else .peeled (tok :: rest)

/-- The command behind a leading shell-transparent prefix. -/
def stripTransparentPrefix : List Text → TransparentStrip
  | [] => .notPrefix
  | program :: args =>
    if program = [] ∨ program = ['\x00'] then .notPrefix
    else if basename program = "exec".toList then stripExecPrefix args
    else if basename program = "command".toList then stripCommandPrefix args
    else if basename program = "builtin".toList then stripBuiltinPrefix args
    else .notPrefix

/-- The result of peeling shell-transparent prefixes. -/
inductive TransparentPrefixPeel where
  | ready (words : List Text)
  | ambiguous

/-- The shell-transparent prefixes that are peeled. -/
def maxTransparentPrefixDepth : ℕ := 8

/-- Peels at most the given number of shell-transparent prefixes. -/
def peelTransparentPrefixesFrom : ℕ → List Text → TransparentPrefixPeel
  | 0, words =>
    match stripTransparentPrefix words with
    | .notPrefix => .ready words
    | _ => .ambiguous
  | n + 1, words =>
    match stripTransparentPrefix words with
    | .notPrefix => .ready words
    | .peeled inner => peelTransparentPrefixesFrom n inner
    | .ambiguous => .ambiguous

/-- Peels shell-transparent prefixes up to the depth bound. -/
def peelTransparentPrefixes : List Text → TransparentPrefixPeel :=
  peelTransparentPrefixesFrom maxTransparentPrefixDepth

/-- The rounds of alternating wrapper and prefix peels. -/
def maxNormalizeRounds : ℕ := maxWrapperDepth + maxTransparentPrefixDepth

/-- Normalized words with what the peeling saw. -/
structure NormalizedCommandPeel where
  words : List Text
  hasChdir : Bool
  hasSplitString : Bool
  envOptionsUncertain : Bool
  exhausted : Bool
  ambiguous : Bool

/-- Words of which nothing was peeled yet. -/
def NormalizedCommandPeel.start (words : List Text) : NormalizedCommandPeel where
  words := words
  hasChdir := false
  hasSplitString := false
  envOptionsUncertain := false
  exhausted := false
  ambiguous := false

/-- Peels the wrappers and notes what that saw. -/
def NormalizedCommandPeel.unwrap (peel : NormalizedCommandPeel) : NormalizedCommandPeel :=
  let wrapped := unwrapWrappersChecked peel.words
  { peel with
    words := wrapped.words
    hasChdir := peel.hasChdir || wrapped.hasChdir
    hasSplitString := peel.hasSplitString || wrapped.hasSplitString
    envOptionsUncertain := peel.envOptionsUncertain || wrapped.envOptionsUncertain
    exhausted := peel.exhausted || wrapped.exhausted }

/--
Alternates the two peels. The words are suffixes of one list, so a round that
keeps their number keeps the words.
-/
def normalizeRounds : ℕ → NormalizedCommandPeel → NormalizedCommandPeel
  | 0, peel => peel
  | n + 1, peel =>
    let wrapped := peel.unwrap
    if wrapped.hasSplitString || wrapped.envOptionsUncertain then wrapped
    else
      match peelTransparentPrefixes wrapped.words with
      | .ambiguous => { wrapped with ambiguous := true }
      | .ready inner =>
        if inner.length = peel.words.length then { wrapped with words := inner }
        else normalizeRounds n { wrapped with words := inner }

/-- The words of a segment behind its wrappers and shell-transparent prefixes. -/
def normalizeCommandWords (words : List Text) : NormalizedCommandPeel :=
  let peel := normalizeRounds maxNormalizeRounds (.start words)
  if !peel.ambiguous && !peel.hasSplitString && !peel.envOptionsUncertain &&
      ((isWrapperCommand peel.words && (stripWrapperCommand peel.words).isSome) ||
        stripTransparentPrefix peel.words != .notPrefix) then
    { peel with exhausted := true }
  else peel

/-- The commands that only prepare for another. -/
def setupCommands : List Text :=
  ["cd".toList, "pushd".toList, "popd".toList, "export".toList, "unset".toList, "set".toList,
    "sleep".toList, "timeout".toList]

/-- Whether a segment only prepares for another. -/
def isSetupCommand (cmd : List Text) : Bool :=
  match cmd with
  | [] => true
  | program :: _ => program ∈ setupCommands

end Ezer.Permission
