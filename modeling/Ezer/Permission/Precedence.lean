import Ezer.Permission.Policy

/-!
# Precedence of the rules

The strength of a decision of the policy depends on which rules there are and
which commands a script has, not on their order. A further rule that denies or
asks makes no decision weaker.
-/

namespace Ezer.Permission

open Ezer.Lib

/-- The strength of what the gate says. -/
abbrev gateRank : Option GateDecision → ℕ := optionRank GateDecision.rank

/-- The strength of what the rules say. -/
abbrev ruleRank : Option Decision → ℕ := optionRank decisionRank

@[simp] theorem gateRank_combine (a b : Option GateDecision) :
    gateRank (combineGateDecisions a b) = max (gateRank a) (gateRank b) :=
  optionRank_stronger a b

/-- The same commands in some order. -/
inductive ScriptCommands.Same : ScriptCommands → ScriptCommands → Prop where
  | unparsed : Same .unparsed .unparsed
  | recovered {projections projections' : List (List Text)} (eligible : Bool)
      (h : ∀ words, words ∈ projections ↔ words ∈ projections') :
      Same (.recovered projections eligible) (.recovered projections' eligible)
  | decomposed {segments segments' : List (List Text)}
      (h : ∀ words, words ∈ segments ↔ words ∈ segments') :
      Same (.decomposed segments) (.decomposed segments')

/-- The same allow rules, and all the others among more. -/
structure RulesLe (less more : List PermissionRule) : Prop where
  restrictions : ∀ rule ∈ less, rule.action ≠ .allow → rule ∈ more
  allows : ∀ rule, rule.action = .allow → (rule ∈ less ↔ rule ∈ more)

theorem RulesLe.of_perm {rules rules' : List PermissionRule} (h : rules.Perm rules') :
    RulesLe rules rules' where
  restrictions := fun _ hmem _ => h.mem_iff.mp hmem
  allows := fun _ _ => h.mem_iff

theorem RulesLe.of_perm_cons {rule : PermissionRule} {rules rules' : List PermissionRule}
    (hrule : rule.action ≠ .allow) (h : rules'.Perm (rule :: rules)) : RulesLe rules rules' where
  restrictions := fun _ hmem _ => h.mem_iff.mpr (List.mem_cons_of_mem _ hmem)
  allows := by
    intro other hallow
    rw [h.mem_iff, List.mem_cons]
    constructor
    · exact Or.inr
    · rintro (rfl | hmem)
      · exact absurd hallow hrule
      · exact hmem

theorem ScriptCommands.Same.symm {first second : ScriptCommands} (h : first.Same second) :
    second.Same first := by
  cases h with
  | unparsed => exact .unparsed
  | recovered eligible h => exact .recovered eligible fun words => (h words).symm
  | decomposed h => exact .decomposed fun words => (h words).symm

theorem ScriptCommands.Same.refl (commands : ScriptCommands) : commands.Same commands := by
  cases commands with
  | unparsed => exact .unparsed
  | recovered projections eligible => exact .recovered eligible fun _ => Iff.rfl
  | decomposed segments => exact .decomposed fun _ => Iff.rfl

section

variable {glob : GlobCompiler} {less more : List PermissionRule}
variable {commands commands' : Text → ScriptCommands}

theorem any_eq_of_mem_iff {α : Type*} {test : α → Bool} {xs ys : List α}
    (h : ∀ x, test x = true → (x ∈ xs ↔ x ∈ ys)) : xs.any test = ys.any test := by
  rw [Bool.eq_iff_iff, List.any_eq_true, List.any_eq_true]
  constructor
  · rintro ⟨x, hmem, htest⟩
    exact ⟨x, (h x htest).mp hmem, htest⟩
  · rintro ⟨x, hmem, htest⟩
    exact ⟨x, (h x htest).mpr hmem, htest⟩

theorem all_eq_of_mem_iff {α : Type*} (test : α → Bool) {xs ys : List α}
    (h : ∀ x, x ∈ xs ↔ x ∈ ys) : xs.all test = ys.all test := by
  rw [Bool.eq_iff_iff, List.all_eq_true, List.all_eq_true]
  simp only [h]

theorem isEmpty_eq_of_mem_iff {α : Type*} {xs ys : List α} (h : ∀ x, x ∈ xs ↔ x ∈ ys) :
    xs.isEmpty = ys.isEmpty := by
  rw [Bool.eq_iff_iff, List.isEmpty_iff, List.isEmpty_iff, List.eq_nil_iff_forall_not_mem,
    List.eq_nil_iff_forall_not_mem]
  simp only [h]

theorem RulesLe.bashWordsAllowed_eq (h : RulesLe less more) :
    bashWordsAllowed glob less = bashWordsAllowed glob more := by
  funext words
  unfold bashWordsAllowed
  rw [any_eq_of_mem_iff]
  intro rule hrule
  unfold PermissionRule.allowsBash at hrule
  simp only [Bool.and_eq_true, beq_iff_eq] at hrule
  exact h.allows rule hrule.1.1

theorem RulesLe.hasBashAllowRules_eq (h : RulesLe less more) :
    hasBashAllowRules less = hasBashAllowRules more := by
  unfold hasBashAllowRules
  apply any_eq_of_mem_iff
  intro rule hrule
  simp only [Bool.and_eq_true, beq_iff_eq] at hrule
  exact h.allows rule hrule.1

theorem RulesLe.hasBashCommandRestrictions (h : RulesLe less more)
    (hless : hasBashCommandRestrictions less = true) : hasBashCommandRestrictions more = true := by
  unfold Permission.hasBashCommandRestrictions at hless ⊢
  obtain ⟨rule, hmem, hrule⟩ := List.any_eq_true.mp hless
  have haction : rule.action ≠ .allow := by
    simpa using (Bool.and_eq_true_iff.mp hrule).1
  exact List.any_eq_true.mpr ⟨rule, h.restrictions rule hmem haction, hrule⟩

/-- A rule of the smaller policy that restricts still restricts in the larger one. -/
theorem RulesLe.any_matches (h : RulesLe less more) {action : RuleAction}
    (haction : action ≠ .allow) {cmd : Text}
    (hless : less.any (PermissionRule.matchesBash glob action cmd) = true) :
    more.any (PermissionRule.matchesBash glob action cmd) = true := by
  obtain ⟨rule, hmem, hrule⟩ := List.any_eq_true.mp hless
  have hsame : rule.action = action := by
    unfold PermissionRule.matchesBash at hrule
    simp only [Bool.and_eq_true, beq_iff_eq] at hrule
    exact hrule.1.1
  exact List.any_eq_true.mpr ⟨rule, h.restrictions rule hmem (hsame ▸ haction), hrule⟩

theorem chainAllowedWith_eq (h : RulesLe less more)
    (hcommands : ∀ script, (commands script).Same (commands' script))
    (recurse : Option (Text → Bool)) (cmd : Text) :
    chainAllowedWith glob less commands recurse cmd =
      chainAllowedWith glob more commands' recurse cmd := by
  have hsegment : segmentFullyAllowed glob less recurse = segmentFullyAllowed glob more recurse := by
    funext words
    unfold segmentFullyAllowed
    rw [h.bashWordsAllowed_eq]
  have hsame := hcommands cmd
  unfold chainAllowedWith
  generalize commands cmd = first at hsame ⊢
  generalize commands' cmd = second at hsame ⊢
  cases hsame with
  | unparsed => rfl
  | recovered eligible hmem =>
    dsimp only
    rw [h.bashWordsAllowed_eq, all_eq_of_mem_iff _ hmem]
  | decomposed hmem =>
    dsimp only
    rw [hsegment, all_eq_of_mem_iff _ hmem, isEmpty_eq_of_mem_iff hmem]

theorem bashChainFullyAllowed_eq (h : RulesLe less more)
    (hcommands : ∀ script, (commands script).Same (commands' script)) (depth : ℕ) :
    bashChainFullyAllowed glob less commands depth =
      bashChainFullyAllowed glob more commands' depth := by
  induction depth with
  | zero =>
    funext cmd
    exact chainAllowedWith_eq h hcommands none cmd
  | succ depth ih =>
    funext cmd
    unfold bashChainFullyAllowed
    rw [ih]
    exact chainAllowedWith_eq h hcommands _ cmd

/-- The strength of the decision of the rules. -/
theorem ruleRank_evaluate (rules : List PermissionRule) (commands : Text → ScriptCommands)
    (cmd : Text) :
    ruleRank (evaluate glob rules commands cmd) =
      if rules.any (PermissionRule.matchesBash glob .deny cmd) then 3
      else if rules.any (PermissionRule.matchesBash glob .ask cmd) then 2
      else if hasBashAllowRules rules &&
        bashChainFullyAllowed glob rules commands maxInlineShellDepth cmd then 1
      else 0 := by
  unfold evaluate
  cases hfind : rules.find? (PermissionRule.matchesBash glob .deny cmd) with
  | some rule =>
    have hdeny : rules.any (PermissionRule.matchesBash glob .deny cmd) = true :=
      List.any_eq_true.mpr ⟨rule, List.mem_of_find?_eq_some hfind, List.find?_some hfind⟩
    rw [hdeny]
    rfl
  | none =>
    have hdeny : rules.any (PermissionRule.matchesBash glob .deny cmd) = false :=
      List.any_eq_false.mpr (List.find?_eq_none.mp hfind)
    rw [hdeny]
    dsimp only
    split
    · rfl
    · split <;> rfl

/-- Further rules that deny or ask make no decision of the rules weaker. -/
theorem ruleRank_evaluate_mono (h : RulesLe less more)
    (hcommands : ∀ script, (commands script).Same (commands' script)) (cmd : Text) :
    ruleRank (evaluate glob less commands cmd) ≤ ruleRank (evaluate glob more commands' cmd) := by
  rw [ruleRank_evaluate, ruleRank_evaluate, h.hasBashAllowRules_eq,
    bashChainFullyAllowed_eq h hcommands]
  by_cases hdeny : less.any (PermissionRule.matchesBash glob .deny cmd) = true
  · rw [if_pos hdeny, if_pos (h.any_matches (by decide) hdeny)]
  rw [if_neg hdeny]
  by_cases hask : less.any (PermissionRule.matchesBash glob .ask cmd) = true
  · rw [if_pos hask, if_pos (h.any_matches (by decide) hask)]
    split <;> omega
  rw [if_neg hask]
  split_ifs <;> omega

/-- The rules escalate by what they deny and ask. -/
theorem gateRank_escalate (rules : List PermissionRule) (commands : Text → ScriptCommands)
    (segment : Text) :
    gateRank (escalate glob rules commands segment) =
      if ruleRank (evaluate glob rules commands segment) = 1 then 0
      else ruleRank (evaluate glob rules commands segment) := by
  unfold escalate evaluate
  split
  · rename_i h
    rw [h]
    rfl
  · rename_i h
    rw [h]
    rfl
  · rename_i hreject hask
    cases hfind : rules.find? (PermissionRule.matchesBash glob .deny segment) with
    | some rule =>
      simp only [hfind] at hreject
      exact absurd rfl (hreject _)
    | none =>
      simp only [hfind] at hask ⊢
      split
      · rename_i hany
        rw [if_pos hany] at hask
        exact absurd rfl hask
      · split <;> rfl

theorem gateRank_escalate_mono (h : RulesLe less more)
    (hcommands : ∀ script, (commands script).Same (commands' script)) (segment : Text) :
    gateRank (escalate glob less commands segment) ≤
      gateRank (escalate glob more commands' segment) := by
  have hmono : ruleRank (evaluate glob less commands segment) ≤
      ruleRank (evaluate glob more commands' segment) := ruleRank_evaluate_mono h hcommands segment
  rw [gateRank_escalate, gateRank_escalate]
  split_ifs <;> omega

/-- The gate for inner scripts says nothing weaker. -/
def GateLe (recurse recurse' : Option (Text → Option GateDecision)) : Prop :=
  Option.Rel (fun gate gate' => ∀ script, gateRank (gate script) ≤ gateRank (gate' script))
    recurse recurse'

variable {recurse recurse' : Option (Text → Option GateDecision)}

theorem gateRank_inlineGate_mono (h : GateLe recurse recurse') (words : List Text) :
    gateRank (inlineGate recurse words) ≤ gateRank (inlineGate recurse' words) := by
  unfold inlineGate
  cases h with
  | none => exact le_rfl
  | some hgate =>
    cases inlineShellScript words with
    | notInline | untrusted | unrecognized => exact le_rfl
    | literal index =>
      dsimp only
      cases words[index]? with
      | none => exact le_rfl
      | some inner => exact hgate inner

theorem gateRank_splitStringGate_mono (h : GateLe recurse recurse') (words : List Text) :
    gateRank (splitStringGate recurse words) ≤ gateRank (splitStringGate recurse' words) := by
  unfold splitStringGate
  cases h with
  | none => exact le_rfl
  | some hgate =>
    cases envSplitStringScript words with
    | none => exact le_rfl
    | some script => exact hgate script

theorem gateRank_evaluateCommandWords_mono (h : RulesLe less more)
    (hcommands : ∀ script, (commands script).Same (commands' script))
    (hrecurse : GateLe recurse recurse')
    (rawWords : List Text) :
    gateRank (evaluateCommandWords glob less commands recurse rawWords) ≤
      gateRank (evaluateCommandWords glob more commands' recurse' rawWords) := by
  unfold evaluateCommandWords
  dsimp only
  rw [gateRank_combine, gateRank_combine, gateRank_combine, gateRank_combine]
  apply max_le_max
  · apply max_le_max
    · apply optionRank_strongestOf_mono le_rfl (List.Subset.refl _)
      intro words _
      exact gateRank_escalate_mono h hcommands _
    · exact gateRank_inlineGate_mono hrecurse _
  · exact gateRank_splitStringGate_mono hrecurse _

theorem gateRank_gateWith_mono (h : RulesLe less more)
    (hcommands : ∀ script, (commands script).Same (commands' script))
    (hrecurse : GateLe recurse recurse')
    (cmd : Text) :
    gateRank (gateWith glob less commands recurse cmd) ≤
      gateRank (gateWith glob more commands' recurse' cmd) := by
  have hsame := hcommands cmd
  unfold gateWith
  generalize commands cmd = first at hsame ⊢
  generalize commands' cmd = second at hsame ⊢
  cases hsame with
  | unparsed => exact le_rfl
  | recovered eligible hmem =>
    dsimp only
    rw [h.bashWordsAllowed_eq, all_eq_of_mem_iff _ hmem]
    apply optionRank_strongestOf_mono le_rfl
    · intro words hwords
      exact (hmem words).mp hwords
    · intro words _
      exact gateRank_evaluateCommandWords_mono h hcommands hrecurse words
  | decomposed hmem =>
    apply optionRank_strongestOf_mono le_rfl
    · intro words hwords
      exact (hmem words).mp hwords
    · intro words _
      exact gateRank_evaluateCommandWords_mono h hcommands hrecurse words

theorem gateRank_segments_mono (h : RulesLe less more)
    (hcommands : ∀ script, (commands script).Same (commands' script)) (depth : ℕ) (cmd : Text) :
    gateRank (evaluateBashCommandSegments glob less commands depth cmd) ≤
      gateRank (evaluateBashCommandSegments glob more commands' depth cmd) := by
  induction depth generalizing cmd with
  | zero => exact gateRank_gateWith_mono h hcommands .none cmd
  | succ depth ih => exact gateRank_gateWith_mono h hcommands (.some ih) cmd

/-- Further rules that deny or ask make no decision of the gate weaker. -/
theorem gateRank_gate_mono (h : RulesLe less more)
    (hcommands : ∀ script, (commands script).Same (commands' script)) (cmd : Text) :
    gateRank (evaluateBashCommandGate glob less commands cmd) ≤
      gateRank (evaluateBashCommandGate glob more commands' cmd) := by
  unfold evaluateBashCommandGate
  by_cases hless : hasBashCommandRestrictions less = true
  · rw [if_pos hless, if_pos (h.hasBashCommandRestrictions hless)]
    exact gateRank_segments_mono h hcommands _ cmd
  · rw [if_neg hless]
    exact Nat.zero_le _

end

end Ezer.Permission
