import Ezer.MessageDelivery.Effects
import Ezer.MessageDelivery.Stamps
import Mathlib.Data.List.Nodup

/-!
# No message is lost or duplicated

At each moment every admitted message is held in one slot or was emitted once,
a message that was handed out does not fall back, and the messages of a turn
are handed out and emitted in the order of their admission.
-/

namespace Ezer.MessageDelivery

variable {Identity Source Content Completion PromptId Epoch Error : Type}

/-- The messages a call hands out. -/
def Output.begun :
    Output Identity Source Content Completion PromptId Epoch Error →
      List (DeliveryMessage Identity Source Content)
  | .began messages => messages
  | _ => []

/-- The messages a call lets fall back. -/
def Output.fallbacks :
    Output Identity Source Content Completion PromptId Epoch Error →
      List (OwnedDelivery Identity Source Content Completion PromptId Epoch)
  | .ended transition => transition.fallbacks
  | _ => []

/-- The messages a call completes. -/
def Output.completions :
    Output Identity Source Content Completion PromptId Epoch Error →
      List (OwnedDelivery Identity Source Content Completion PromptId Epoch)
  | .ended transition => transition.completions
  | _ => []

/-- The call admitted its message. -/
def Output.admits : Output Identity Source Content Completion PromptId Epoch Error → Bool
  | .admitted (.ok ()) => true
  | _ => false

namespace Run

variable (run : Run Identity Source Content Completion PromptId Epoch Error)

/-- All messages that were handed out. -/
def begun : List (DeliveryMessage Identity Source Content) := run.outputs.flatMap Output.begun

/-- All messages that fell back. -/
def fallbacks : List (OwnedDelivery Identity Source Content Completion PromptId Epoch) :=
  run.outputs.flatMap Output.fallbacks

/-- All messages that were completed. -/
def completions : List (OwnedDelivery Identity Source Content Completion PromptId Epoch) :=
  run.outputs.flatMap Output.completions

/-- All messages that are held or were emitted. -/
def owned : List (OwnedDelivery Identity Source Content Completion PromptId Epoch) :=
  run.lifecycle.held ++ (run.fallbacks ++ run.completions)

/-- The call with a number admitted its message. -/
def admits (number : ℕ) : Bool := run.outputs[number]?.any Output.admits

end Run

/-- The number of the call that admitted a delivery. -/
def OwnedDelivery.number (owned : OwnedDelivery Identity Source
    (Stamped PromptId Epoch Content) Completion PromptId Epoch) : ℕ :=
  owned.message.content.number

/-- Deliveries of one turn come in the order of their admission. -/
def InOrder (deliveries : List (OwnedDelivery Identity Source
    (Stamped PromptId Epoch Content) Completion PromptId Epoch)) : Prop :=
  deliveries.Pairwise fun d d' => d.binding = d'.binding → d.number < d'.number

/-- What the stamps of a run say about it. -/
structure Followed (calls : List (Call Identity Source Content Completion PromptId Epoch Error))
    (run : Run Identity Source (Stamped PromptId Epoch Content) Completion PromptId Epoch Error) :
    Prop where
  length : run.outputs.length = calls.length
  source : ∀ d ∈ run.owned,
    calls[d.number]? = some (.admitPending d.binding d.message.unstamp d.completion)
  stamp : ∀ d ∈ run.owned, d.message.content.binding = d.binding
  once : ∀ number, (run.owned.map OwnedDelivery.number).count number =
    if run.admits number then 1 else 0
  sorted : run.lifecycle.held.Pairwise fun d d' => d.number < d'.number
  emitted : ∀ d ∈ run.fallbacks ++ run.completions, ∀ d' ∈ run.lifecycle.held,
    d.binding = d'.binding → d.number < d'.number
  fallbacks : InOrder run.fallbacks
  completions : InOrder run.completions
  begunLength : ∀ m ∈ run.begun, m.content.number < calls.length
  begunWaiting : ∀ m ∈ run.begun, ∀ d ∈ run.lifecycle.waiting, m.content.number ≠ d.number ∧
    (m.content.binding = d.binding → m.content.number < d.number)
  begunFallbacks : ∀ m ∈ run.begun, ∀ d ∈ run.fallbacks, m.content.number ≠ d.number
  begun : run.begun.Pairwise fun m m' =>
    m.content.binding = m'.content.binding → m.content.number < m'.content.number

section Steps

variable {calls : List (Call Identity Source Content Completion PromptId Epoch Error)}
  {run : Run Identity Source (Stamped PromptId Epoch Content) Completion PromptId Epoch Error}

theorem Followed.lt_length (h : Followed calls run)
    {d : OwnedDelivery Identity Source (Stamped PromptId Epoch Content) Completion PromptId Epoch}
    (hd : d ∈ run.owned) : d.number < calls.length := by
  have hsource := h.source d hd
  exact (List.getElem?_eq_some_iff.mp hsource).1

theorem Followed.nodup (h : Followed calls run) :
    (run.owned.map OwnedDelivery.number).Nodup := by
  rw [List.nodup_iff_count_le_one]
  intro number
  rw [h.once number]
  split
  · exact Nat.le_refl 1
  · exact Nat.zero_le 1

theorem Followed.number_ne (h : Followed calls run)
    {d d' : OwnedDelivery Identity Source (Stamped PromptId Epoch Content) Completion PromptId Epoch}
    (hd : d ∈ run.lifecycle.held) (hd' : d' ∈ run.fallbacks ++ run.completions) :
    d.number ≠ d'.number := by
  have hnodup := h.nodup
  unfold Run.owned at hnodup
  rw [List.map_append, List.nodup_append] at hnodup
  exact hnodup.2.2 _ (List.mem_map_of_mem hd) _ (List.mem_map_of_mem hd')

theorem Run.admits_append (run : Run Identity Source Content Completion PromptId Epoch Error)
    (output : Output Identity Source Content Completion PromptId Epoch Error)
    (lifecycle : MessageDeliveryLifecycle Identity Source Content Completion PromptId Epoch)
    (number : ℕ) :
    Run.admits ⟨run.outputs ++ [output], lifecycle⟩ number =
      (run.admits number || (decide (number = run.outputs.length) && output.admits)) := by
  unfold Run.admits
  rcases Nat.lt_trichotomy number run.outputs.length with hlt | heq | hgt
  · rw [List.getElem?_append_left hlt]
    simp [Nat.ne_of_lt hlt]
  · subst heq
    simp
  · rw [List.getElem?_eq_none (by simp; omega), List.getElem?_eq_none (by omega)]
    simp [Nat.ne_of_gt hgt]

theorem Followed.source_append (h : Followed calls run)
    (call : Call Identity Source Content Completion PromptId Epoch Error) :
    ∀ d ∈ run.owned, (calls ++ [call])[d.number]? =
      some (.admitPending d.binding d.message.unstamp d.completion) := by
  intro d hd
  rw [List.getElem?_append_left (h.lt_length hd)]
  exact h.source d hd

theorem Run.begun_append (run : Run Identity Source Content Completion PromptId Epoch Error)
    (output : Output Identity Source Content Completion PromptId Epoch Error)
    (lifecycle : MessageDeliveryLifecycle Identity Source Content Completion PromptId Epoch) :
    Run.begun ⟨run.outputs ++ [output], lifecycle⟩ = run.begun ++ output.begun := by
  simp [Run.begun]

theorem Run.fallbacks_append (run : Run Identity Source Content Completion PromptId Epoch Error)
    (output : Output Identity Source Content Completion PromptId Epoch Error)
    (lifecycle : MessageDeliveryLifecycle Identity Source Content Completion PromptId Epoch) :
    Run.fallbacks ⟨run.outputs ++ [output], lifecycle⟩ = run.fallbacks ++ output.fallbacks := by
  simp [Run.fallbacks]

theorem Run.completions_append (run : Run Identity Source Content Completion PromptId Epoch Error)
    (output : Output Identity Source Content Completion PromptId Epoch Error)
    (lifecycle : MessageDeliveryLifecycle Identity Source Content Completion PromptId Epoch) :
    Run.completions ⟨run.outputs ++ [output], lifecycle⟩ =
      run.completions ++ output.completions := by
  simp [Run.completions]

variable {call : Call Identity Source Content Completion PromptId Epoch Error}
  {output : Output Identity Source (Stamped PromptId Epoch Content) Completion PromptId Epoch Error}
  {after : MessageDeliveryLifecycle Identity Source
    (Stamped PromptId Epoch Content) Completion PromptId Epoch}

/-- A call that admits, hands out and emits nothing. -/
theorem Followed.quiet (h : Followed calls run) (hsame : SameMessages run.lifecycle after)
    (hadmits : output.admits = false) (hbegun : output.begun = [])
    (hfallbacks : output.fallbacks = []) (hcompletions : output.completions = []) :
    Followed (calls ++ [call]) ⟨run.outputs ++ [output], after⟩ := by
  have hruns : Run.begun ⟨run.outputs ++ [output], after⟩ = run.begun ∧
      Run.fallbacks ⟨run.outputs ++ [output], after⟩ = run.fallbacks ∧
      Run.completions ⟨run.outputs ++ [output], after⟩ = run.completions := by
    rw [Run.begun_append, Run.fallbacks_append, Run.completions_append, hbegun, hfallbacks,
      hcompletions]
    simp
  have howned : Run.owned ⟨run.outputs ++ [output], after⟩ = run.owned := by
    unfold Run.owned
    rw [hruns.2.1, hruns.2.2]
    exact congrArg (· ++ _) hsame.held
  constructor
  · simp [h.length]
  · rw [howned]
    exact h.source_append call
  · rw [howned]
    exact h.stamp
  · intro number
    rw [howned, h.once, Run.admits_append, hadmits]
    simp
  · dsimp only
    rw [hsame.held]
    exact h.sorted
  · rw [hruns.2.1, hruns.2.2]
    dsimp only
    rw [hsame.held]
    exact h.emitted
  · rw [hruns.2.1]
    exact h.fallbacks
  · rw [hruns.2.2]
    exact h.completions
  · rw [hruns.1]
    intro m hm
    have hlt := h.begunLength m hm
    simp
    omega
  · rw [hruns.1]
    dsimp only
    rw [hsame.waiting]
    exact h.begunWaiting
  · rw [hruns.1, hruns.2.1]
    exact h.begunFallbacks
  · rw [hruns.1]
    exact h.begun

variable {d : OwnedDelivery Identity Source
  (Stamped PromptId Epoch Content) Completion PromptId Epoch}

/-- An admitted message is the last that is held. -/
theorem Followed.admitted (h : Followed calls run) (hnumber : d.number = calls.length)
    (hstamp : d.message.content.binding = d.binding) :
    Followed (calls ++ [.admitPending d.binding d.message.unstamp d.completion])
      ⟨run.outputs ++ [.admitted (.ok ())], ⟨run.lifecycle.slots ++ [.pending d]⟩⟩ := by
  have hlater : ∀ d' ∈ run.owned, d'.number < d.number := by
    intro d' hd'
    rw [hnumber]
    exact h.lt_length hd'
  have hheld : MessageDeliveryLifecycle.held ⟨run.lifecycle.slots ++ [.pending d]⟩ =
      run.lifecycle.held ++ [d] := by
    simp [MessageDeliveryLifecycle.held, DeliverySlot.owned]
  have hwaiting : MessageDeliveryLifecycle.waiting ⟨run.lifecycle.slots ++ [.pending d]⟩ =
      run.lifecycle.waiting ++ [d] := by
    unfold MessageDeliveryLifecycle.waiting
    rw [List.filter_append, List.map_append]
    rfl
  have hfallbacks : Run.fallbacks ⟨run.outputs ++ [.admitted (.ok ())],
      ⟨run.lifecycle.slots ++ [.pending d]⟩⟩ = run.fallbacks := by
    rw [Run.fallbacks_append]
    exact List.append_nil _
  have hcompletions : Run.completions ⟨run.outputs ++ [.admitted (.ok ())],
      ⟨run.lifecycle.slots ++ [.pending d]⟩⟩ = run.completions := by
    rw [Run.completions_append]
    exact List.append_nil _
  have hbegun : Run.begun ⟨run.outputs ++ [.admitted (.ok ())],
      ⟨run.lifecycle.slots ++ [.pending d]⟩⟩ = run.begun := by
    rw [Run.begun_append]
    exact List.append_nil _
  have howned : (Run.owned ⟨run.outputs ++ [.admitted (.ok ())],
      ⟨run.lifecycle.slots ++ [.pending d]⟩⟩).Perm (d :: run.owned) := by
    unfold Run.owned
    rw [hfallbacks, hcompletions]
    dsimp only
    rw [hheld, List.append_assoc]
    exact List.perm_middle
  constructor
  · simp [h.length]
  · intro d' hd'
    rcases List.mem_cons.mp (howned.mem_iff.mp hd') with rfl | hold
    · rw [hnumber]
      simp
    · exact h.source_append _ d' hold
  · intro d' hd'
    rcases List.mem_cons.mp (howned.mem_iff.mp hd') with rfl | hold
    · exact hstamp
    · exact h.stamp d' hold
  · intro number
    rw [(howned.map OwnedDelivery.number).count_eq, List.map_cons, List.count_cons, h.once,
      Run.admits_append, h.length, ← hnumber]
    by_cases hlast : number = d.number
    · subst hlast
      have hnot : run.admits d.number = false := by
        unfold Run.admits
        rw [List.getElem?_eq_none (Nat.le_of_eq (h.length.trans hnumber.symm))]
        rfl
      simp [hnot, Output.admits]
    · simp [hlast, Ne.symm hlast]
  · dsimp only
    rw [hheld, List.pairwise_append]
    refine ⟨h.sorted, List.pairwise_singleton _ _, ?_⟩
    intro d' hd' d'' hd''
    rw [List.mem_singleton.mp hd'']
    exact hlater d' (List.mem_append_left _ hd')
  · rw [hfallbacks, hcompletions]
    dsimp only
    rw [hheld]
    intro d' hd' d'' hd'' hbinding
    rcases List.mem_append.mp hd'' with hold | hnew
    · exact h.emitted d' hd' d'' hold hbinding
    · rw [List.mem_singleton.mp hnew]
      exact hlater d' (List.mem_append_right _ hd')
  · rw [hfallbacks]
    exact h.fallbacks
  · rw [hcompletions]
    exact h.completions
  · rw [hbegun]
    intro m hm
    have hlt := h.begunLength m hm
    simp
    omega
  · rw [hbegun]
    dsimp only
    rw [hwaiting]
    intro m hm d' hd'
    rcases List.mem_append.mp hd' with hold | hnew
    · exact h.begunWaiting m hm d' hold
    · rw [List.mem_singleton.mp hnew, hnumber]
      have hlt := h.begunLength m hm
      exact ⟨by omega, fun _ => hlt⟩
  · rw [hbegun, hfallbacks]
    exact h.begunFallbacks
  · rw [hbegun]
    exact h.begun

theorem Followed.inOrder_emitted (h : Followed calls run)
    {emitted : List (OwnedDelivery Identity Source
      (Stamped PromptId Epoch Content) Completion PromptId Epoch)}
    (hsublist : emitted.Sublist run.lifecycle.held)
    {before : List (OwnedDelivery Identity Source
      (Stamped PromptId Epoch Content) Completion PromptId Epoch)}
    (hbefore : ∀ d ∈ before, d ∈ run.fallbacks ++ run.completions) (horder : InOrder before) :
    InOrder (before ++ emitted) := by
  unfold InOrder
  rw [List.pairwise_append]
  refine ⟨horder, ?_, ?_⟩
  · apply (h.sorted.sublist hsublist).imp
    intro d d' hlt _
    exact hlt
  · intro d hd d' hd' hbinding
    exact h.emitted d (hbefore d hd) d' (hsublist.subset hd') hbinding

variable [BEq PromptId] [BEq Epoch]

/-- The messages handed out wait no longer. -/
theorem Followed.beginDelivery (h : Followed calls run) (binding : TurnBinding PromptId Epoch) :
    Followed (calls ++ [.beginDelivery binding])
      ⟨run.outputs ++ [.began (run.lifecycle.beginDelivery binding).1],
        (run.lifecycle.beginDelivery binding).2⟩ := by
  obtain ⟨hmessages, hheld, hwaiting⟩ := beginDelivery_spec run.lifecycle binding
  generalize run.lifecycle.beginDelivery binding = begun at hmessages hheld hwaiting ⊢
  obtain ⟨messages, after⟩ := begun
  dsimp only at hmessages hheld hwaiting ⊢
  have hfallbacks : Run.fallbacks ⟨run.outputs ++ [.began messages], after⟩ = run.fallbacks := by
    rw [Run.fallbacks_append]
    exact List.append_nil _
  have hcompletions :
      Run.completions ⟨run.outputs ++ [.began messages], after⟩ = run.completions := by
    rw [Run.completions_append]
    exact List.append_nil _
  have hbegun : Run.begun ⟨run.outputs ++ [.began messages], after⟩ = run.begun ++ messages :=
    Run.begun_append _ _ _
  have howned : Run.owned ⟨run.outputs ++ [.began messages], after⟩ = run.owned := by
    unfold Run.owned
    rw [hfallbacks, hcompletions]
    exact congrArg (· ++ _) hheld
  have hnew : ∀ m ∈ messages, ∃ d ∈ run.lifecycle.waiting, d.boundTo binding = true ∧
      d ∈ run.lifecycle.held ∧ d.number = m.content.number ∧ m.content.binding = d.binding := by
    intro m hm
    rw [hmessages] at hm
    obtain ⟨d, hd, rfl⟩ := List.mem_map.mp hm
    obtain ⟨hwaits, hbound⟩ := List.mem_filter.mp hd
    have hheld' := (waiting_sublist run.lifecycle).subset hwaits
    exact ⟨d, hwaits, hbound, hheld', rfl, h.stamp d (List.mem_append_left _ hheld')⟩
  constructor
  · simp [h.length]
  · rw [howned]
    exact h.source_append _
  · rw [howned]
    exact h.stamp
  · intro number
    rw [howned, h.once, Run.admits_append]
    simp [Output.admits]
  · dsimp only
    rw [hheld]
    exact h.sorted
  · rw [hfallbacks, hcompletions]
    dsimp only
    rw [hheld]
    exact h.emitted
  · rw [hfallbacks]
    exact h.fallbacks
  · rw [hcompletions]
    exact h.completions
  · rw [hbegun]
    intro m hm
    rcases List.mem_append.mp hm with hold | hm
    · have hlt := h.begunLength m hold
      simp
      omega
    · obtain ⟨d, -, -, hd, hnumber, -⟩ := hnew m hm
      have hlt := h.lt_length (List.mem_append_left _ hd)
      rw [hnumber] at hlt
      simp
      omega
  · rw [hbegun]
    dsimp only
    rw [hwaiting]
    intro m hm d' hd'
    obtain ⟨hwaits, hunbound⟩ := List.mem_filter.mp hd'
    rcases List.mem_append.mp hm with hold | hm
    · exact h.begunWaiting m hold d' hwaits
    · obtain ⟨d, -, hbound, hd, hnumber, hbinding⟩ := hnew m hm
      have hne : d.binding ≠ d'.binding := by
        intro heq
        unfold OwnedDelivery.boundTo at hbound hunbound
        rw [heq] at hbound
        simp [hbound] at hunbound
      refine ⟨?_, fun heq => (hne (hbinding.symm.trans heq)).elim⟩
      intro heq
      have hheld' := (waiting_sublist run.lifecycle).subset hwaits
      apply hne
      rw [List.inj_on_of_nodup_map h.nodup (List.mem_append_left _ hd)
        (List.mem_append_left _ hheld') (hnumber.trans heq)]
  · rw [hbegun, hfallbacks]
    intro m hm d' hd'
    rcases List.mem_append.mp hm with hold | hm
    · exact h.begunFallbacks m hold d' hd'
    · obtain ⟨d, -, -, hd, hnumber, -⟩ := hnew m hm
      rw [← hnumber]
      exact h.number_ne hd (List.mem_append_left _ hd')
  · rw [hbegun, List.pairwise_append]
    refine ⟨h.begun, ?_, ?_⟩
    · rw [hmessages, List.pairwise_map]
      have hsorted : (run.lifecycle.waiting.filter (·.boundTo binding)).Pairwise
          fun d d' => d.number < d'.number :=
        h.sorted.sublist (List.filter_sublist.trans (waiting_sublist run.lifecycle))
      apply hsorted.imp
      intro d d' hlt _
      exact hlt
    · intro m hm m' hm' hbinding
      obtain ⟨d, hwaits, -, -, hnumber, hbinding'⟩ := hnew m' hm'
      rw [← hnumber]
      exact (h.begunWaiting m hm d hwaits).2 (hbinding.trans hbinding')

/-- The end of turns emits what they hold, and what stays is of other turns. -/
theorem Followed.transition (h : Followed calls run) (target : TerminalTarget PromptId Epoch)
    (cause : TerminalCause) :
    Followed (calls ++ [.transition target cause])
      ⟨run.outputs ++ [.ended (run.lifecycle.transition target cause).1],
        (run.lifecycle.transition target cause).2⟩ := by
  obtain ⟨hheld, hwaiting, hfell, hcompleted, hperm⟩ :=
    transition_spec run.lifecycle target cause
  generalize run.lifecycle.transition target cause = ended at *
  obtain ⟨⟨fell, completed⟩, after⟩ := ended
  dsimp only at hheld hwaiting hfell hcompleted hperm ⊢
  have hfallbacks : Run.fallbacks ⟨run.outputs ++ [.ended ⟨fell, completed⟩], after⟩ =
      run.fallbacks ++ fell := Run.fallbacks_append _ _ _
  have hcompletions : Run.completions ⟨run.outputs ++ [.ended ⟨fell, completed⟩], after⟩ =
      run.completions ++ completed := Run.completions_append _ _ _
  have hbegun : Run.begun ⟨run.outputs ++ [.ended ⟨fell, completed⟩], after⟩ = run.begun := by
    rw [Run.begun_append]
    exact List.append_nil _
  have hemits : ∀ d ∈ fell ++ completed, d ∈ run.lifecycle.held ∧ d.ends target = true := by
    intro d hd
    exact List.mem_filter.mp (hperm.mem_iff.mp hd)
  have howned : (Run.owned ⟨run.outputs ++ [.ended ⟨fell, completed⟩], after⟩).Perm run.owned := by
    unfold Run.owned
    rw [hfallbacks, hcompletions]
    dsimp only
    rw [hheld]
    have hsplit : (run.lifecycle.held.filter (fun owned => !owned.ends target) ++
        (fell ++ completed)).Perm run.lifecycle.held :=
      (List.perm_append_comm.trans (hperm.append_right _)).trans
        (List.filter_append_perm (·.ends target) run.lifecycle.held)
    have hmove : (run.fallbacks ++ fell ++ (run.completions ++ completed)).Perm
        ((fell ++ completed) ++ (run.fallbacks ++ run.completions)) := by
      rw [List.append_assoc, List.append_assoc]
      apply (List.perm_append_comm_assoc _ _ _).trans
      apply List.Perm.append_left
      rw [← List.append_assoc]
      exact List.perm_append_comm
    apply (hmove.append_left _).trans
    rw [← List.append_assoc]
    exact hsplit.append_right _
  constructor
  · simp [h.length]
  · intro d hd
    exact h.source_append _ d (howned.mem_iff.mp hd)
  · intro d hd
    exact h.stamp d (howned.mem_iff.mp hd)
  · intro number
    rw [(howned.map OwnedDelivery.number).count_eq, h.once, Run.admits_append]
    simp [Output.admits]
  · dsimp only
    rw [hheld]
    exact h.sorted.sublist List.filter_sublist
  · rw [hfallbacks, hcompletions]
    dsimp only
    rw [hheld]
    intro d hd d' hd' hbinding
    obtain ⟨hd', hstays⟩ := List.mem_filter.mp hd'
    have hor : d ∈ run.fallbacks ++ run.completions ∨ d ∈ fell ++ completed := by
      simp only [List.mem_append] at hd ⊢
      tauto
    rcases hor with hold | hnew
    · exact h.emitted d hold d' hd' hbinding
    · obtain ⟨-, hends⟩ := hemits d hnew
      unfold OwnedDelivery.ends at hends hstays
      rw [hbinding] at hends
      simp [hends] at hstays
  · rw [hfallbacks]
    exact h.inOrder_emitted ((hfell.trans List.filter_sublist).trans (waiting_sublist _))
      (fun d hd => List.mem_append_left _ hd) h.fallbacks
  · rw [hcompletions]
    exact h.inOrder_emitted (hcompleted.trans List.filter_sublist)
      (fun d hd => List.mem_append_right _ hd) h.completions
  · rw [hbegun]
    intro m hm
    have hlt := h.begunLength m hm
    simp
    omega
  · rw [hbegun]
    dsimp only
    rw [hwaiting]
    intro m hm d hd
    exact h.begunWaiting m hm d (List.mem_filter.mp hd).1
  · rw [hbegun, hfallbacks]
    intro m hm d hd
    rcases List.mem_append.mp hd with hold | hnew
    · exact h.begunFallbacks m hm d hold
    · exact (h.begunWaiting m hm d (List.mem_filter.mp (hfell.subset hnew)).1).1
  · rw [hbegun]
    exact h.begun

end Steps

theorem Run.admits_unstamp
    (run : Run Identity Source (Stamped PromptId Epoch Content) Completion PromptId Epoch Error)
    (number : ℕ) : run.unstamp.admits number = run.admits number := by
  unfold Run.admits Run.unstamp
  dsimp only
  rw [List.getElem?_map]
  cases run.outputs[number]? with
  | none => rfl
  | some output =>
    cases output with
    | admitted result => cases result <;> rfl
    | began | finished | ended => rfl

section Conservation

variable [BEq Identity] [BEq PromptId] [BEq Epoch]

/-- Every call keeps what the stamps of a run say about it. -/
theorem Followed.next {calls : List (Call Identity Source Content Completion PromptId Epoch Error)}
    {run : Run Identity Source (Stamped PromptId Epoch Content) Completion PromptId Epoch Error}
    (h : Followed calls run)
    (call : Call Identity Source Content Completion PromptId Epoch Error) :
    Followed (calls ++ [call]) (run.next (call.stamp calls.length)) := by
  unfold Run.next
  cases call with
  | admitPending binding message completion =>
    simp only [Call.stamp, step, MessageDeliveryLifecycle.admitPending]
    split
    · exact h.quiet ⟨rfl, rfl⟩ rfl rfl rfl rfl
    · exact h.admitted (d := ⟨binding,
        ⟨message.identity, message.source, ⟨calls.length, binding, message.content⟩⟩,
        completion⟩) rfl rfl
  | beginDelivery binding => exact h.beginDelivery binding
  | finishDelivery binding commit =>
    simp only [Call.stamp, step]
    exact h.quiet (finishDelivery_cases run.lifecycle binding _).1 rfl rfl rfl rfl
  | transition target cause => exact h.transition target cause

theorem followed_stampedRun
    (calls : List (Call Identity Source Content Completion PromptId Epoch Error)) :
    Followed calls (stampedRun calls) := by
  induction calls using List.reverseRecOn with
  | nil =>
    constructor
    · rfl
    · intro d hd
      cases hd
    · intro d hd
      cases hd
    · intro number
      rfl
    · exact .nil
    · intro d hd
      cases hd
    · exact .nil
    · exact .nil
    · intro m hm
      cases hm
    · intro m hm
      cases hm
    · intro m hm
      cases hm
    · exact .nil
  | append_singleton calls call ih =>
    rw [stampedRun_append]
    exact ih.next call

/-- No two held messages have the same identity. -/
def MessageDeliveryLifecycle.DistinctIdentities
    (lifecycle : MessageDeliveryLifecycle Identity Source Content Completion PromptId Epoch) :
    Prop :=
  lifecycle.held.Pairwise fun d d' => (d.message.identity == d'.message.identity) = false

theorem distinctIdentities_step
    {lifecycle : MessageDeliveryLifecycle Identity Source Content Completion PromptId Epoch}
    (h : lifecycle.DistinctIdentities)
    (call : Call Identity Source Content Completion PromptId Epoch Error) :
    (step lifecycle call).2.DistinctIdentities := by
  unfold MessageDeliveryLifecycle.DistinctIdentities at h ⊢
  cases call with
  | admitPending binding message completion =>
    simp only [step, MessageDeliveryLifecycle.admitPending]
    split
    · exact h
    · rename_i hnew
      unfold MessageDeliveryLifecycle.held
      rw [List.map_append, List.pairwise_append]
      refine ⟨h, List.pairwise_singleton _ _, ?_⟩
      intro d hd d' hd'
      rw [List.mem_singleton.mp hd']
      simp only [Bool.not_eq_true] at hnew
      exact containsIdentity_eq_false lifecycle hnew d hd
  | beginDelivery binding =>
    simp only [step]
    rw [(beginDelivery_spec lifecycle binding).2.1]
    exact h
  | finishDelivery binding commit =>
    simp only [step]
    rw [(finishDelivery_cases lifecycle binding commit).1.held]
    exact h
  | transition target cause =>
    simp only [step]
    rw [(transition_spec lifecycle target cause).1]
    exact h.sublist List.filter_sublist

theorem distinctIdentities_runCalls
    (calls : List (Call Identity Source Content Completion PromptId Epoch Error)) :
    (runCalls calls).lifecycle.DistinctIdentities := by
  induction calls using List.reverseRecOn with
  | nil => exact .nil
  | append_singleton calls call ih =>
    rw [runCalls_append]
    exact distinctIdentities_step ih call

/-- A run neither loses nor duplicates a message, as its stamps tell. -/
structure Conserves (calls : List (Call Identity Source Content Completion PromptId Epoch Error))
    (stamped : Run Identity Source (Stamped PromptId Epoch Content) Completion PromptId Epoch Error)
    (run : Run Identity Source Content Completion PromptId Epoch Error) : Prop where
  unstamp : run = stamped.unstamp
  source : ∀ d ∈ stamped.owned,
    calls[d.number]? = some (.admitPending d.binding d.message.unstamp d.completion)
  once : ∀ number,
    (stamped.lifecycle.held.map OwnedDelivery.number).count number +
        ((stamped.fallbacks ++ stamped.completions).map OwnedDelivery.number).count number =
      if run.admits number then 1 else 0
  identities : run.lifecycle.DistinctIdentities
  begunFallbacks : ∀ m ∈ stamped.begun, ∀ d ∈ stamped.fallbacks, m.content.number ≠ d.number
  failed : ∀ binding (commit : List (DeliveryMessage Identity Source Content) → Except Error Unit)
    error, commit (run.lifecycle.slots.filterMap (·.projectingMessage binding)) = .error error →
      (run.lifecycle.finishDelivery binding commit).2 = run.lifecycle
  begun : stamped.begun.Pairwise fun m m' =>
    m.content.binding = m'.content.binding → m.content.number < m'.content.number
  fallbacks : InOrder stamped.fallbacks
  completions : InOrder stamped.completions

/-- After any calls, every admitted message is held once or was emitted once, held
identities are distinct, what was handed out has not fallen back, a failing commit
changes nothing, and the messages of a turn keep their order. -/
theorem runCalls_conserves
    (calls : List (Call Identity Source Content Completion PromptId Epoch Error)) :
    Conserves calls (stampedRun calls) (runCalls calls) := by
  have h := followed_stampedRun calls
  refine ⟨runCalls_eq_unstamp calls, h.source, ?_, distinctIdentities_runCalls calls,
    h.begunFallbacks, ?_, h.begun, h.fallbacks, h.completions⟩
  · intro number
    rw [← List.count_append, ← List.map_append, runCalls_eq_unstamp, Run.admits_unstamp]
    exact h.once number
  · intro binding commit
    exact (finishDelivery_cases _ binding commit).2

end Conservation

end Ezer.MessageDelivery
