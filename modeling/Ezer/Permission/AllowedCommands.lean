import Ezer.Permission.Precedence

/-!
# Commands the policy allows

The policy allows a script only if an allow rule matches every one of its
commands and of the commands handed to inner shells, as normalized, and nothing
about the normalization of any of them is unknown.
-/

namespace Ezer.Permission

open Ezer.Lib

/-- The words of the commands of a script. -/
def ScriptCommands.words : ScriptCommands → List (List Text)
  | .unparsed => []
  | .recovered projections _ => projections
  | .decomposed segments => segments

/-- A script, or one that its commands hand to inner shells, to any depth. -/
inductive InnerScript (commands : Text → ScriptCommands) : Text → Text → Prop where
  | self (cmd : Text) : InnerScript commands cmd cmd
  | inner {cmd inner script : Text} {words : List Text} {index : ℕ}
      (hmem : words ∈ (commands cmd).words)
      (hscript : inlineShellScript (normalizeCommandWords words).words = .literal index)
      (hinner : (normalizeCommandWords words).words[index]? = some inner)
      (h : InnerScript commands inner script) : InnerScript commands cmd script

section Readers

theorem reader_plain : ∀ head ∈ readerCommands,
    wrapperOf (basename head) = none ∧ (∀ args, stripTransparentPrefix (head :: args) = .notPrefix) ∧
      isKnownShell (basename head) = false := by
  have hnames : ∀ head ∈ readerCommands, wrapperOf (basename head) = none ∧
      ¬(head = [] ∨ head = ['\x00']) ∧ basename head ≠ "exec".toList ∧
        basename head ≠ "command".toList ∧ basename head ≠ "builtin".toList ∧
          isKnownShell (basename head) = false := by
    decide +kernel
  intro head hmem
  obtain ⟨hwrapper, hempty, hexec, hcommand, hbuiltin, hshell⟩ := hnames head hmem
  refine ⟨hwrapper, fun args => ?_, hshell⟩
  rw [stripTransparentPrefix, if_neg hempty, if_neg hexec, if_neg hcommand, if_neg hbuiltin]

theorem strip_eq_none_of_headWrapper {words : List Text} (h : headWrapper words = none) :
    stripWrapperCommand words = none := by
  unfold stripWrapperCommand
  rw [h]

theorem noteEnv_of_headWrapper {peel : CheckedWrapperPeel} (h : headWrapper peel.words = none) :
    peel.noteEnv = peel := by
  unfold CheckedWrapperPeel.noteEnv
  rw [if_neg]
  intro henv
  unfold headWrapper at h
  rw [henv, Option.bind_some] at h
  exact absurd h (by decide +kernel)

theorem unwrapWrappersChecked_of_headWrapper {words : List Text} (h : headWrapper words = none) :
    unwrapWrappersChecked words = .start words := by
  have hnote : (CheckedWrapperPeel.start words).noteEnv = .start words := noteEnv_of_headWrapper h
  change unwrapWrappersFrom (7 + 1) (.start words) = .start words
  unfold unwrapWrappersFrom
  rw [hnote, show stripWrapperCommand (CheckedWrapperPeel.start words).words = none from
    strip_eq_none_of_headWrapper h]
  rfl

theorem peelTransparentPrefixes_of_notPrefix {words : List Text}
    (h : stripTransparentPrefix words = .notPrefix) :
    peelTransparentPrefixes words = .ready words := by
  change peelTransparentPrefixesFrom (7 + 1) words = .ready words
  unfold peelTransparentPrefixesFrom
  rw [h]

theorem unwrap_start_of_headWrapper {words : List Text} (h : headWrapper words = none) :
    (NormalizedCommandPeel.start words).unwrap = .start words := by
  unfold NormalizedCommandPeel.unwrap
  change NormalizedCommandPeel.mk (unwrapWrappersChecked words).words
    (false || (unwrapWrappersChecked words).hasChdir)
    (false || (unwrapWrappersChecked words).hasSplitString)
    (false || (unwrapWrappersChecked words).envOptionsUncertain)
    (false || (unwrapWrappersChecked words).exhausted) false = _
  rw [unwrapWrappersChecked_of_headWrapper h]
  rfl

theorem normalizeCommandWords_of_plain {words : List Text} (hwrapper : headWrapper words = none)
    (htransparent : stripTransparentPrefix words = .notPrefix) :
    normalizeCommandWords words = .start words := by
  have hrounds : normalizeRounds maxNormalizeRounds (.start words) = .start words := by
    change normalizeRounds (15 + 1) (.start words) = .start words
    unfold normalizeRounds
    rw [unwrap_start_of_headWrapper hwrapper]
    have hplain : ¬ ((NormalizedCommandPeel.start words).hasSplitString ||
        (NormalizedCommandPeel.start words).envOptionsUncertain) = true := Bool.false_ne_true
    dsimp only
    rw [if_neg hplain, show peelTransparentPrefixes (NormalizedCommandPeel.start words).words =
      .ready words from peelTransparentPrefixes_of_notPrefix htransparent]
    exact if_pos rfl
  unfold normalizeCommandWords
  rw [hrounds]
  apply if_neg
  simp [NormalizedCommandPeel.start, strip_eq_none_of_headWrapper hwrapper, htransparent]

theorem recoverWord_script (state : RecoveryState) (command : RecoveredCommand) (node : WordNode) :
    (recoverWord state command node).1.script.commands = state.script.commands ∧
      ((recoverWord state command node).1.script.eligible = true →
        state.script.eligible = true) := by
  unfold recoverWord
  split
  · exact ⟨rfl, fun h => (Bool.and_eq_true_iff.mp h).1⟩
  · split
    · exact ⟨rfl, id⟩
    · exact ⟨rfl, id⟩
  · exact ⟨rfl, fun h => absurd h Bool.false_ne_true⟩

theorem recoverChild_script (state : RecoveryState) (command : RecoveredCommand)
    (child : CommandChild) :
    (recoverChild state command child).1.script.commands = state.script.commands ∧
      ((recoverChild state command child).1.script.eligible = true →
        state.script.eligible = true) := by
  cases child with
  | assignment => exact ⟨rfl, fun h => absurd h Bool.false_ne_true⟩
  | missingName => exact ⟨rfl, id⟩
  | word node => exact recoverWord_script state command node

theorem recoverChildren_script (state : RecoveryState) (command : RecoveredCommand)
    (children : List CommandChild) :
    (recoverChildren state command children).1.script.commands = state.script.commands ∧
      ((recoverChildren state command children).1.script.eligible = true →
        state.script.eligible = true) := by
  induction children generalizing state command with
  | nil => exact ⟨rfl, id⟩
  | cons child rest ih =>
    obtain ⟨hcommands, heligible⟩ := recoverChild_script state command child
    obtain ⟨hcommands', heligible'⟩ :=
      ih (recoverChild state command child).1 (recoverChild state command child).2
    exact ⟨hcommands'.trans hcommands, fun h => heligible (heligible' h)⟩

/-- A recovered command whose program is a reader. -/
def IsReader (words : List PermissionWord) : Prop :=
  ∃ head, words.head? = some (.literal head) ∧ head ∈ readerCommands

theorem isReader_of_readersAllow {words : List PermissionWord} {safe : List Bool}
    (h : readersAllow words safe = true) : IsReader words := by
  unfold readersAllow at h
  split at h
  · rename_i head hhead
    by_cases hmem : head ∈ readerCommands
    · exact ⟨head, hhead, hmem⟩
    · rw [if_neg hmem] at h
      contradiction
  · contradiction

/-- As long as a script is eligible its commands are readers. -/
def RecoveryState.Readers (state : RecoveryState) : Prop :=
  state.script.eligible = true → ∀ words ∈ state.script.commands, IsReader words

theorem RecoveryState.Readers.read {state : RecoveryState} (h : state.Readers)
    (statement : ScriptStatement) : (state.read statement).Readers := by
  cases statement with
  | assignment name value topLevel =>
    unfold RecoveryState.read RecoveryState.assign
    dsimp only
    split
    · exact h
    · exact fun heligible => absurd heligible Bool.false_ne_true
  | command children =>
    obtain ⟨hcommands, heligible⟩ :=
      recoverChildren_script state { words := [], operandsSafe := [] } children
    intro hnow words hmem
    obtain ⟨hbefore, hreaders⟩ := Bool.and_eq_true_iff.mp hnow
    change words ∈ _ ++ [_] at hmem
    rw [List.mem_append, List.mem_singleton, hcommands] at hmem
    cases hmem with
    | inl hmem => exact h (heligible hbefore) words hmem
    | inr heq =>
      rw [heq]
      exact isReader_of_readersAllow hreaders

theorem RecoveryState.Readers.foldl {state : RecoveryState} (h : state.Readers)
    (statements : List ScriptStatement) : (statements.foldl RecoveryState.read state).Readers := by
  induction statements generalizing state with
  | nil => exact h
  | cons statement rest ih => exact ih (h.read statement)

theorem readers_of_eligible {parsed : ParsedShell}
    (h : (PermissionScript.analyze parsed).eligible = true) {words : List Text}
    (hmem : words ∈ (PermissionScript.analyze parsed).projections) :
    ∃ head args, words = head :: args ∧ head ∈ readerCommands := by
  unfold PermissionScript.projections at hmem
  obtain ⟨command, hcommand, rfl⟩ := List.mem_map.mp hmem
  have hstart : RecoveryState.Readers
      { script :=
          { commands := [], complete := parsed.complete, eligible := true, unresolved := false }
        assigned := []
        used := [] } := fun _ words hwords => absurd hwords List.not_mem_nil
  have hreaders := hstart.foldl parsed.statements
  unfold PermissionScript.analyze at h hcommand
  simp only [Bool.and_eq_true] at h
  obtain ⟨head, hhead, hreader⟩ := hreaders h.1.1.1.1 command (List.mem_filter.mp hcommand).1
  obtain ⟨args, rfl⟩ := List.head?_eq_some_iff.mp hhead
  exact ⟨head, args.map PermissionWord.text, rfl, hreader⟩

theorem normalize_reader {head : Text} (h : head ∈ readerCommands) (args : List Text) :
    normalizeCommandWords (head :: args) = .start (head :: args) ∧
      inlineShellScript (head :: args) = .notInline := by
  obtain ⟨hwrapper, htransparent, hshell⟩ := reader_plain head h
  refine ⟨normalizeCommandWords_of_plain hwrapper (htransparent args), ?_⟩
  unfold inlineShellScript
  rw [List.map_cons, shellDashCScript, hshell]
  rfl

end Readers

section Allowed

variable {glob : GlobCompiler} {rules : List PermissionRule} {parse : ShellParser}

/-- A command whose normal form is known and allowed by some rule. -/
def CommandAllowed (glob : GlobCompiler) (rules : List PermissionRule) (words : List Text) : Prop :=
  (normalizeCommandWords words).isUnclear = false ∧
    ∃ rule ∈ rules, rule.allowsBash glob (joinWords (normalizeCommandWords words).words) = true

theorem exists_allowsBash {words : List Text} (h : bashWordsAllowed glob rules words = true) :
    ∃ rule ∈ rules, rule.allowsBash glob (joinWords words) = true := by
  unfold bashWordsAllowed at h
  exact List.any_eq_true.mp (Bool.and_eq_true_iff.mp h).2

theorem commandAllowed_of_segment {recurse : Option (Text → Bool)} {words : List Text}
    (h : segmentFullyAllowed glob rules recurse words = true) : CommandAllowed glob rules words := by
  unfold segmentFullyAllowed at h
  simp only [Bool.and_eq_true, Bool.not_eq_true'] at h
  exact ⟨h.1.1, exists_allowsBash h.1.2⟩

/-- An inline script of an allowed segment is allowed one level deeper. -/
theorem inner_allowed_of_segment {recurse : Option (Text → Bool)} {words : List Text} {index : ℕ}
    {inner : Text} (h : segmentFullyAllowed glob rules recurse words = true)
    (hscript : inlineShellScript (normalizeCommandWords words).words = .literal index)
    (hinner : (normalizeCommandWords words).words[index]? = some inner) :
    ∃ allowed, recurse = some allowed ∧ allowed inner = true := by
  unfold segmentFullyAllowed at h
  obtain ⟨_, hshell⟩ := Bool.and_eq_true_iff.mp h
  rw [hscript] at hshell
  cases recurse with
  | none => contradiction
  | some allowed =>
    dsimp only at hshell
    rw [hinner] at hshell
    exact ⟨allowed, rfl, hshell⟩

theorem segmentFullyAllowed_of_reader {head : Text} (hhead : head ∈ readerCommands)
    (args : List Text) (recurse : Option (Text → Bool))
    (h : bashWordsAllowed glob rules (head :: args) = true) :
    segmentFullyAllowed glob rules recurse (head :: args) = true := by
  obtain ⟨hnormal, hinline⟩ := normalize_reader hhead args
  have hwords : (NormalizedCommandPeel.start (head :: args)).words = head :: args := rfl
  have hunclear : (NormalizedCommandPeel.start (head :: args)).isUnclear = false := rfl
  unfold segmentFullyAllowed
  rw [hnormal]
  dsimp only
  rw [hwords, hunclear, h, hinline]
  cases recurse <;> rfl

/-- What is known of an allowed script and of its segments. -/
theorem chainAllowedWith_cases {recurse : Option (Text → Bool)} {cmd : Text}
    (h : chainAllowedWith glob rules (scriptCommands parse) recurse cmd = true) :
    scriptCommands parse cmd ≠ .unparsed ∧ ∀ words ∈ (scriptCommands parse cmd).words,
      segmentFullyAllowed glob rules recurse words = true := by
  unfold chainAllowedWith at h
  cases hcommands : scriptCommands parse cmd with
  | unparsed =>
    rw [hcommands] at h
    contradiction
  | decomposed segments =>
    rw [hcommands] at h
    refine ⟨by simp, List.all_eq_true.mp (Bool.and_eq_true_iff.mp h).2⟩
  | recovered projections eligible =>
    rw [hcommands] at h
    obtain ⟨heligible, hall⟩ := Bool.and_eq_true_iff.mp h
    refine ⟨by simp, fun words hmem => ?_⟩
    have hreader : ∃ head args, words = head :: args ∧ head ∈ readerCommands := by
      unfold scriptCommands at hcommands
      split at hcommands
      · contradiction
      · split at hcommands
        · contradiction
        · cases hcommands
          exact readers_of_eligible heligible hmem
    obtain ⟨head, args, rfl, hhead⟩ := hreader
    exact segmentFullyAllowed_of_reader hhead args recurse (List.all_eq_true.mp hall _ hmem)

theorem commandAllowed_of_chain {depth : ℕ} {cmd script : Text}
    (h : bashChainFullyAllowed glob rules (scriptCommands parse) depth cmd = true)
    (hinner : InnerScript (scriptCommands parse) cmd script) :
    scriptCommands parse script ≠ .unparsed ∧
      ∀ words ∈ (scriptCommands parse script).words, CommandAllowed glob rules words := by
  induction hinner generalizing depth with
  | self cmd =>
    have hcases : ∃ recurse, chainAllowedWith glob rules (scriptCommands parse) recurse cmd = true := by
      cases depth with
      | zero => exact ⟨none, h⟩
      | succ depth => exact ⟨_, h⟩
    obtain ⟨recurse, hchain⟩ := hcases
    obtain ⟨hparsed, hwords⟩ := chainAllowedWith_cases hchain
    exact ⟨hparsed, fun words hmem => commandAllowed_of_segment (hwords words hmem)⟩
  | inner hmem hscript hword _ ih =>
    cases depth with
    | zero =>
      obtain ⟨_, hrecurse, _⟩ :=
        inner_allowed_of_segment ((chainAllowedWith_cases h).2 _ hmem) hscript hword
      contradiction
    | succ depth =>
      obtain ⟨allowed, hrecurse, hallowed⟩ :=
        inner_allowed_of_segment ((chainAllowedWith_cases h).2 _ hmem) hscript hword
      rw [Option.some.injEq] at hrecurse
      rw [← hrecurse] at hallowed
      exact ih hallowed

theorem chain_of_allow {commands : Text → ScriptCommands} {cmd : Text}
    (h : evaluate glob rules commands cmd = some .allow) :
    bashChainFullyAllowed glob rules commands maxInlineShellDepth cmd = true := by
  unfold evaluate at h
  split at h
  · simp at h
  · split at h
    · simp at h
    · split at h
      · rename_i hallow
        exact (Bool.and_eq_true_iff.mp hallow).2
      · contradiction

end Allowed

section Unclear

variable {glob : GlobCompiler} {rules : List PermissionRule} {commands : Text → ScriptCommands}
variable {recurse : Option (Text → Option GateDecision)} {words : List Text}

theorem one_le_gateRank_of_unclear (h : (normalizeCommandWords words).isUnclear = true) :
    1 ≤ gateRank (evaluateCommandWords glob rules commands recurse words) := by
  have hflagged : 1 ≤ gateRank (combineGateDecisions
      (failClosedIf ((normalizeCommandWords words).exhausted ||
        (normalizeCommandWords words).ambiguous || (normalizeCommandWords words).envOptionsUncertain))
      (failClosedIf (normalizeCommandWords words).hasSplitString)) := by
    rw [gateRank_combine]
    unfold NormalizedCommandPeel.isUnclear at h
    cases hsplit : (normalizeCommandWords words).hasSplitString with
    | true => exact le_max_right _ _
    | false =>
      rw [hsplit, Bool.or_false] at h
      rw [h]
      exact le_max_left _ _
  unfold evaluateCommandWords
  dsimp only
  generalize combineGateDecisions (failClosedIf _) (failClosedIf _) = flagged at hflagged ⊢
  rw [gateRank_combine, gateRank_combine]
  apply hflagged.trans
  exact (first_le_optionRank_strongestOf _ _ _).trans ((le_max_left _ _).trans (le_max_left _ _))

theorem inlineGate_le (rules : List PermissionRule) (commands : Text → ScriptCommands) :
    gateRank (inlineGate recurse (normalizeCommandWords words).words) ≤
      gateRank (evaluateCommandWords glob rules commands recurse words) := by
  unfold evaluateCommandWords
  dsimp only
  rw [gateRank_combine, gateRank_combine]
  exact (le_max_right _ _).trans (le_max_left _ _)

/-- A script escalates as each of its commands does. -/
theorem evaluateCommandWords_le {cmd : Text} (hmem : words ∈ (commands cmd).words) :
    gateRank (evaluateCommandWords glob rules commands recurse words) ≤
      gateRank (gateWith glob rules commands recurse cmd) := by
  unfold gateWith
  cases hcommands : commands cmd with
  | unparsed =>
    rw [hcommands] at hmem
    exact absurd hmem List.not_mem_nil
  | recovered | decomposed =>
    rw [hcommands] at hmem
    exact le_optionRank_strongestOf hmem

theorem one_le_gateRank_of_inner {cmd script : Text} (hinner : InnerScript commands cmd script)
    (hmem : words ∈ (commands script).words)
    (hunclear : (normalizeCommandWords words).isUnclear = true) (depth : ℕ) :
    1 ≤ gateRank (evaluateBashCommandSegments glob rules commands depth cmd) := by
  have hgate : ∀ cmd depth, ∃ recurse,
      evaluateBashCommandSegments glob rules commands depth cmd =
        gateWith glob rules commands recurse cmd := by
    intro cmd depth
    cases depth with
    | zero => exact ⟨none, rfl⟩
    | succ depth => exact ⟨_, rfl⟩
  induction hinner generalizing depth with
  | self cmd =>
    obtain ⟨recurse, hrecurse⟩ := hgate cmd depth
    rw [hrecurse]
    exact (one_le_gateRank_of_unclear hunclear).trans (evaluateCommandWords_le hmem)
  | @inner cmd inner script outer index houter hscript hword _ ih =>
    have hinline : ∀ recurse : Option (Text → Option GateDecision),
        1 ≤ gateRank (inlineGate recurse (normalizeCommandWords outer).words) →
          1 ≤ gateRank (gateWith glob rules commands recurse cmd) := by
      intro recurse h
      exact (h.trans (inlineGate_le rules commands)).trans (evaluateCommandWords_le houter)
    cases depth with
    | zero =>
      apply hinline none
      unfold inlineGate
      rw [hscript]
      exact le_rfl
    | succ depth =>
      apply hinline (some (evaluateBashCommandSegments glob rules commands depth))
      unfold inlineGate
      rw [hscript]
      dsimp only
      rw [hword]
      exact ih hmem depth

end Unclear

/--
The decision on a shell command depends neither on the order of the rules nor on
the order of the commands; a further rule that denies or asks makes it no
weaker; the gate never allows, and the rules allow only if every command, also
of the scripts handed to inner shells to any depth, is known and matched by an
allow rule, while a command that is not known escalates.
-/
theorem bash_policy_precedence (glob : GlobCompiler) (parse : ShellParser)
    (rules : List PermissionRule) (cmd : Text) :
    (∀ (rules' : List PermissionRule) (parse' : ShellParser), rules.Perm rules' →
      (∀ script, (scriptCommands parse script).Same (scriptCommands parse' script)) →
        gateRank (evaluateBashCommandGate glob rules (scriptCommands parse) cmd) =
            gateRank (evaluateBashCommandGate glob rules' (scriptCommands parse') cmd) ∧
          ruleRank (evaluate glob rules (scriptCommands parse) cmd) =
            ruleRank (evaluate glob rules' (scriptCommands parse') cmd)) ∧
    (∀ (rule : PermissionRule) (rules' : List PermissionRule), rule.action ≠ .allow →
      rules'.Perm (rule :: rules) →
        gateRank (evaluateBashCommandGate glob rules (scriptCommands parse) cmd) ≤
            gateRank (evaluateBashCommandGate glob rules' (scriptCommands parse) cmd) ∧
          ruleRank (evaluate glob rules (scriptCommands parse) cmd) ≤
            ruleRank (evaluate glob rules' (scriptCommands parse) cmd)) ∧
    evaluateBashCommandPolicy glob rules (scriptCommands parse) cmd ≠ some .allow ∧
    (evaluate glob rules (scriptCommands parse) cmd = some .allow →
      ∀ script, InnerScript (scriptCommands parse) cmd script →
        scriptCommands parse script ≠ .unparsed ∧
          ∀ words ∈ (scriptCommands parse script).words, CommandAllowed glob rules words) ∧
    (hasBashCommandRestrictions rules = true →
      ∀ script, InnerScript (scriptCommands parse) cmd script →
        ∀ words ∈ (scriptCommands parse script).words,
          (normalizeCommandWords words).isUnclear = true →
            1 ≤ gateRank (evaluateBashCommandGate glob rules (scriptCommands parse) cmd)) := by
  refine ⟨?_, ?_, ?_, ?_, ?_⟩
  · intro rules' parse' hperm hsame
    have hback : ∀ script, (scriptCommands parse' script).Same (scriptCommands parse script) :=
      fun script => (hsame script).symm
    constructor
    · apply le_antisymm
      · exact gateRank_gate_mono (.of_perm hperm) hsame cmd
      · exact gateRank_gate_mono (.of_perm hperm.symm) hback cmd
    · apply le_antisymm
      · exact ruleRank_evaluate_mono (.of_perm hperm) hsame cmd
      · exact ruleRank_evaluate_mono (.of_perm hperm.symm) hback cmd
  · intro rule rules' hrule hperm
    have hle : RulesLe rules rules' := .of_perm_cons hrule hperm
    constructor
    · exact gateRank_gate_mono hle (fun _ => .refl _) cmd
    · exact ruleRank_evaluate_mono hle (fun _ => .refl _) cmd
  · unfold evaluateBashCommandPolicy
    intro hallow
    obtain ⟨decision, _, hdecision⟩ := Option.map_eq_some_iff.mp hallow
    cases decision <;> contradiction
  · intro hallow script hinner
    exact commandAllowed_of_chain (chain_of_allow hallow) hinner
  · intro hrestrictions script hinner words hmem hunclear
    unfold evaluateBashCommandGate
    rw [if_pos hrestrictions]
    exact one_le_gateRank_of_inner hinner hmem hunclear maxInlineShellDepth

/-- The parse of a script with one command and nothing else. -/
def parsedCommand (words : List Text) : ParsedShell where
  segments := some [{ words := words, spanStart := 0, spanEnd := 0 }]
  complete := true
  statements := []
  writes :=
    { unextractedWriteRedirect := false, redirectPaths := [], wordPaths := [],
      creationPaths := [] }
  hasCwdChange := false
  assignmentKeys := []
  opaqueShell := false

/-- The parse of `sh -c 'npm test'` and of the script inside it. -/
def parseInnerTest (script : Text) : Option ParsedShell :=
  if script = "npm test".toList then some (parsedCommand ["npm".toList, "test".toList])
  else if script = "sh -c 'npm test'".toList then
    some (parsedCommand ["sh".toList, "-c".toList, "npm test".toList])
  else none

/-- Rules that allow a shell and `npm`, and ask about `rm`. -/
def innerTestRules : List PermissionRule :=
  [{ action := .ask, tool := .bash, pattern := some "rm".toList },
    { action := .allow, tool := .bash, pattern := some "sh".toList },
    { action := .allow, tool := .any, pattern := some "npm".toList }]

theorem innerTest_allowed :
    CommandAllowed (fun _ => none) innerTestRules ["npm".toList, "test".toList] := by
  have hinner : InnerScript (scriptCommands parseInnerTest) "sh -c 'npm test'".toList
      "npm test".toList := by
    have hmem : ["sh".toList, "-c".toList, "npm test".toList] ∈
        (scriptCommands parseInnerTest "sh -c 'npm test'".toList).words := by
      decide +kernel
    have hscript : inlineShellScript (normalizeCommandWords
        ["sh".toList, "-c".toList, "npm test".toList]).words = .literal 2 := by
      decide +kernel
    exact .inner hmem hscript (by decide +kernel) (.self _)
  exact ((bash_policy_precedence (fun _ => none) parseInnerTest innerTestRules
    "sh -c 'npm test'".toList).2.2.2.1 (by decide +kernel) _ hinner).2 _ (by decide +kernel)

end Ezer.Permission
