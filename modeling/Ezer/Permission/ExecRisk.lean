import Ezer.Permission.Normalize

/-!
# Execution risk of a segment

Some arguments make `sort` or `git` run another program. A segment whose
wrappers cannot be peeled completely is treated as if it carried one of them.
The read-only queries of `git` are decided by the same tables.
-/

namespace Ezer.Permission

open Ezer.Lib

/-- Words ready to be inspected, or not normalized completely. -/
inductive NormalizedArgv where
  | ready (words : List Text)
  | failClosed

/-- Alternates wrappers and shell-transparent prefixes for the given number of rounds. -/
def normalizeForExecRiskFrom : ℕ → List Text → NormalizedArgv
  | 0, _ => .failClosed
  | n + 1, before =>
    let checked := unwrapWrappersChecked before
    if checked.exhausted || checked.hasSplitString || checked.hasChdir then .failClosed
    else
      match peelTransparentPrefixes checked.words with
      | .ambiguous => .failClosed
      | .ready inner =>
        if inner.length = before.length ∨ inner.length = checked.words.length then .ready inner
        else normalizeForExecRiskFrom n inner

/-- Alternates wrappers and shell-transparent prefixes to a fixed point. -/
def normalizeForExecRisk : List Text → NormalizedArgv :=
  normalizeForExecRiskFrom maxNormalizeRounds

/-- Whether the flag is an accepted abbreviation of a long option. -/
def isAcceptedLongOptionPrefix (flag full : Text) (minLen : ℕ) : Bool :=
  startsWith flag ['-', '-'] && minLen ≤ flag.length && startsWith full flag &&
    flag.all fun c => isAsciiAlphanumeric c || c == '-'

/-- The part of an option before its value. -/
def optionName (tok : Text) : Text := tok.takeWhile (· != '=')

/-- A program name without the ending of an executable. -/
def stripExe (name : Text) : Text :=
  if ".exe".toList.isSuffixOf name then name.take (name.length - 4) else name

/-- A token without its directories, in lower case and without `.exe`. -/
def normalizedTokenBasename (token : Text) : Text := stripExe ((basename token).map Char.toLower)

/-- The program of a segment, normalized. -/
def normalizedProgramName (words : List Text) : Option Text :=
  match words with
  | [] => none
  | program :: _ =>
    if basename program = [] then none else some (normalizedTokenBasename program)

/-- Whether a segment runs `git`. -/
def isGitProgram (words : List Text) : Bool := normalizedProgramName words == some "git".toList

/-- Whether a segment runs `sort`. -/
def isSortProgram (words : List Text) : Bool := normalizedProgramName words == some "sort".toList

/-- Whether a word is `sort --compress-program` or an abbreviation of it. -/
def isCompressProgramFlag (tok : Text) : Bool :=
  tok == "--compress-program".toList || startsWith tok "--compress-program=".toList ||
    isAcceptedLongOptionPrefix (optionName tok) "--compress-program".toList 4

/-- Whether `sort` is given a program to run. -/
def sortHasCompressProgramFlag (words : List Text) : Bool :=
  (words.tail.takeWhile (· != ['-', '-'])).any isCompressProgramFlag

/-- Whether a word is `git --config-env` or an abbreviation of it. -/
def isGitConfigEnvFlag (tok : Text) : Bool :=
  tok == "--config-env".toList || startsWith tok "--config-env=".toList ||
    isAcceptedLongOptionPrefix (optionName tok) "--config-env".toList 4

/-- Whether a word retargets the configuration that `git` reads. -/
def isGitRepoRetargetFlag (tok : Text) : Bool :=
  tok == "--git-dir".toList || startsWith tok "--git-dir=".toList ||
    tok == "--work-tree".toList || startsWith tok "--work-tree=".toList ||
    isAcceptedLongOptionPrefix (optionName tok) "--git-dir".toList 4 ||
    isAcceptedLongOptionPrefix (optionName tok) "--work-tree".toList 4

/-- Whether a word is `-c` with its setting attached. -/
def isAttachedGitConfigC (tok : Text) : Bool :=
  startsWith tok ['-', 'c'] && 2 < tok.length && !startsWith tok ['-', '-']

/-- Whether a word is `-C` with its directory attached. -/
def isAttachedGitCPath (tok : Text) : Bool := startsWith tok ['-', 'C'] && 2 < tok.length

/-- Whether a global option of `git` takes the word after it. -/
def gitGlobalOptionTakesValue (tok : Text) : Bool :=
  tok ∈ ["-C".toList, "-c".toList, "--git-dir".toList, "--work-tree".toList,
      "--namespace".toList, "--super-prefix".toList, "--exec-path".toList, "--list-cmds".toList,
      "--attr-source".toList, "--config-env".toList] ||
    isAcceptedLongOptionPrefix tok "--config-env".toList 4 ||
    isAcceptedLongOptionPrefix tok "--git-dir".toList 4 ||
    isAcceptedLongOptionPrefix tok "--work-tree".toList 4 ||
    isAcceptedLongOptionPrefix tok "--namespace".toList 7 ||
    isAcceptedLongOptionPrefix tok "--super-prefix".toList 8 ||
    isAcceptedLongOptionPrefix tok "--exec-path".toList 7 ||
    isAcceptedLongOptionPrefix tok "--list-cmds".toList 7 ||
    isAcceptedLongOptionPrefix tok "--attr-source".toList 8

/-- Whether a word can be the value of the option before it. -/
def isOptionValue (tok : Text) : Bool := !startsWith tok ['-'] || tok == ['-']

/-- The scan of the global options of `git` over the words that remain. -/
def gitExecRiskGlobalFrom : List Text → Bool
  | [] => false
  | tok :: rest =>
    if tok = ['-', '-'] then false
    else if startsWith tok ['-'] = false || tok = ['-'] then false
    else if tok == ['-', 'c'] || isAttachedGitConfigC tok || isGitConfigEnvFlag tok ||
        isGitRepoRetargetFlag tok then true
    else if isAttachedGitCPath tok then gitExecRiskGlobalFrom rest
    else if !tok.contains '=' && gitGlobalOptionTakesValue tok then
      match rest with
      | [] => false
      | next :: rest =>
        if isOptionValue next then gitExecRiskGlobalFrom rest
        else gitExecRiskGlobalFrom (next :: rest)
    else gitExecRiskGlobalFrom rest

/-- Whether a global option makes `git` run another program. -/
def gitHasExecRiskGlobal (words : List Text) : Bool := gitExecRiskGlobalFrom words.tail

/-- Whether the arguments of a segment make it run another program. -/
def segmentHasExecRiskFlag (words : List Text) : Bool :=
  if isSortProgram words then sortHasCompressProgramFlag words
  else if isGitProgram words then gitHasExecRiskGlobal words
  else false

/-- The execution facts of one segment. -/
structure SegmentExecFacts where
  execRisk : Bool
  hasGit : Bool

/-- Normalizes a segment and inspects it; what cannot be peeled fails closed. -/
def segmentExecFacts (words : List Text) : SegmentExecFacts :=
  match normalizeForExecRisk words with
  | .failClosed => { execRisk := true, hasGit := false }
  | .ready inner => { execRisk := segmentHasExecRiskFlag inner, hasGit := isGitProgram inner }

/-- The read-only queries of `git`. -/
def safeGitSubcommands : List Text :=
  ["status".toList, "branch".toList, "log".toList, "diff".toList, "ls-files".toList,
    "show".toList, "rev-parse".toList, "blame".toList, "grep".toList, "describe".toList,
    "merge-base".toList, "check-ignore".toList, "check-attr".toList, "cat-file".toList,
    "ls-tree".toList, "show-ref".toList, "for-each-ref".toList, "rev-list".toList,
    "name-rev".toList, "count-objects".toList, "shortlog".toList]

/-- Options that make a query run drivers or write files. -/
def gitQueryUnsafeOptions : List Text :=
  ["--filters".toList, "--textconv".toList, "--output".toList, "--ext-diff".toList,
    "--open-files-in-pager".toList]

/-- Whether a word abbreviates an option that makes a query unsafe. -/
def gitQueryOptionIsUnsafe (word : Text) : Bool :=
  2 < (optionName word).length &&
    gitQueryUnsafeOptions.any fun full => startsWith full (optionName word)

/-- The position of the query behind global options that change nothing. -/
def gitSafeQueryVerbFrom (i : ℕ) : List Text → Option ℕ
  | [] => none
  | tok :: rest =>
    if tok = ['-'] ∨ tok = ['-', '-'] then none
    else if startsWith tok ['-'] = false then some i
    else if tok = ['-', 'C'] then
      match rest with
      | [] => none
      | _ :: rest => gitSafeQueryVerbFrom (i + 2) rest
    else if isAttachedGitCPath tok || tok == "--no-pager".toList || tok == ['-', 'P'] then
      gitSafeQueryVerbFrom (i + 1) rest
    else none

/-- The position of the query in the words of a segment. -/
def gitSafeQueryVerbIndex (words : List Text) : Option ℕ := gitSafeQueryVerbFrom 1 words.tail

/-- The query of a `git` segment. -/
def gitSafeQueryVerb (words : List Text) : Option Text :=
  (gitSafeQueryVerbIndex words).bind fun i => words[i]?

/-- Whether a `git` segment carries an option that makes a query unsafe. -/
def gitWordsHaveUnsafeQueryOption (words : List Text) : Bool :=
  words.head? == some "git".toList &&
    (words.tail.any gitQueryOptionIsUnsafe ||
      (gitSafeQueryVerb words == some "grep".toList &&
        words.tail.any fun word => startsWith word ['-', 'O']))

/-- Whether a segment is a read-only `git` query. -/
def gitWordsAreReadOnlyQuery (words : List Text) : Bool :=
  words.head? == some "git".toList && !gitHasExecRiskGlobal words &&
    (match gitSafeQueryVerb words with
    | some verb => verb ∈ safeGitSubcommands
    | none => false) &&
    !gitWordsHaveUnsafeQueryOption words

/-- The characters at which an undecomposed script is cut into tokens. -/
def isScriptBoundary (c : Char) : Bool :=
  isWhitespace c || c ∈ ['|', '&', ';', '(', ')', '`', '\n', '<', '>']

/-- The quotes a token may be wrapped in. -/
def isQuote (c : Char) : Bool := c ∈ ['\'', '"', '`']

/-- A token without the quotes around it. -/
def trimQuotes (token : Text) : Text :=
  ((token.dropWhile isQuote).reverse.dropWhile isQuote).reverse

/-- Whether a script that was not decomposed may still run `git`. -/
def scriptMayInvokeGit (cmd : Text) : Bool :=
  (cmd.splitOnP isScriptBoundary).any fun token =>
    !(trimQuotes token).isEmpty && normalizedTokenBasename (trimQuotes token) == "git".toList

end Ezer.Permission
