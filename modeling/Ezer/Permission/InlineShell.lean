import Ezer.Permission.Wrappers

/-!
# Inline shell scripts

`sh -c SCRIPT` runs its operand as another script. The scan of the shell's
options decides whether a segment has that shape, and whether the operand is
known well enough to be read.
-/

namespace Ezer.Permission

open Ezer.Lib

/-- A word of a command, or one whose value is not known. -/
inductive ShellWord where
  | literal (word : Text)
  | untrusted

/-- How a segment hands a script to a shell. -/
inductive InlineShellScript where
  | notInline
  | literal (index : ℕ)
  | untrusted
  | unrecognized
  deriving DecidableEq

/-- Whether the segment runs, or may run, its operand as a script. -/
def InlineShellScript.isPotentialInline : InlineShellScript → Bool
  | .literal _ => true
  | .untrusted => true
  | _ => false

/-- What the option scan of a shell has seen so far. -/
structure ShellScan where
  dynamicHead : Bool
  index : ℕ
  sawC : Bool
  unrecognized : Bool

/-- The scan stops at options it cannot read. -/
def ShellScan.ambiguous (scan : ShellScan) : InlineShellScript :=
  if scan.sawC then .untrusted else .unrecognized

/-- The scan found the script at the given word. -/
def ShellScan.finishLiteral (scan : ShellScan) (index : ℕ) : InlineShellScript :=
  if scan.dynamicHead then .untrusted else .literal index

/-- The scan ends without a script. -/
def ShellScan.finishPlain (scan : ShellScan) : InlineShellScript :=
  if scan.unrecognized then .unrecognized else .notInline

/-- The scan goes on behind the given number of words. -/
def ShellScan.advance (scan : ShellScan) (n : ℕ) : ShellScan :=
  { scan with index := scan.index + n }

/-- The option scan over the words that remain. -/
def shellScanFrom (scan : ShellScan) : List ShellWord → InlineShellScript
  | [] => if scan.sawC then .untrusted else scan.finishPlain
  | .untrusted :: _ => scan.ambiguous
  | .literal word :: rest =>
    if word = ['-', '-'] ∨ word = ['-'] then
      if scan.sawC = false then scan.finishPlain
      else
        match rest with
        | .literal _ :: _ => scan.finishLiteral (scan.index + 1)
        | _ => .untrusted
    else if startsWith word ['-'] = false && startsWith word ['+'] = false then
      if scan.sawC then scan.finishLiteral scan.index else scan.finishPlain
    else if word = "--init-file".toList ∨ word = "--rcfile".toList then
      match rest with
      | .literal _ :: rest => shellScanFrom (scan.advance 2) rest
      | _ => scan.ambiguous
    else if startsWith word ['-', '-'] then
      if word ∈ ["--noprofile".toList, "--norc".toList, "--posix".toList] then
        shellScanFrom (scan.advance 1) rest
      else if scan.sawC then .untrusted
      else shellScanFrom { scan.advance 1 with unrecognized := true } rest
    else if word ∈ [['-', 'o'], ['+', 'o'], ['-', 'O'], ['+', 'O']] then
      match rest with
      | .literal value :: rest =>
        if startsWith value ['-'] then scan.ambiguous else shellScanFrom (scan.advance 2) rest
      | _ => scan.ambiguous
    else if startsWith word ['-', 'O'] then shellScanFrom (scan.advance 1) rest
    else if startsWith word ['+', 'O'] || startsWith word ['+', 'o'] then
      shellScanFrom (scan.advance 1) rest
    else if startsWith word ['-', 'o'] then scan.ambiguous
    else if startsWith word ['+'] then shellScanFrom (scan.advance 1) rest
    else if (word.drop 1).contains 'o' || (word.drop 1).contains 'O' then scan.ambiguous
    else
      shellScanFrom { scan.advance 1 with sawC := scan.sawC || (word.drop 1).contains 'c' } rest

/-- The shells whose `-c` is known. -/
def isKnownShell (program : Text) : Bool :=
  program ∈ ["bash".toList, "sh".toList, "dash".toList, "zsh".toList, "ksh".toList]

/-- The inline script of a segment, if its options can be read. -/
def shellDashCScript : List ShellWord → InlineShellScript
  | [] => .notInline
  | .literal program :: rest =>
    if isKnownShell (basename program) then
      shellScanFrom { dynamicHead := false, index := 1, sawC := false, unrecognized := false } rest
    else .notInline
  | .untrusted :: rest =>
    shellScanFrom { dynamicHead := true, index := 1, sawC := false, unrecognized := false } rest

/-- Whether a segment runs text that only the shell knows. -/
def wordsAreOpaqueShell (words : List ShellWord) : Bool :=
  (shellDashCScript words).isPotentialInline ||
    (match words.head? with
    | some (.literal program) => basename program = "eval".toList
    | _ => false)

end Ezer.Permission
