import Ezer.MessageDelivery.Lifecycle
import Mathlib.Data.List.Perm.Basic

/-!
# What calls do to the messages held

The messages that a lifecycle holds, and those of them that wait, before and
after each call.
-/

namespace Ezer.MessageDelivery

variable {Identity Source Content Completion PromptId Epoch Error : Type}

section Held

/-- The slot holds a message that waits. -/
def DeliverySlot.isPending :
    DeliverySlot Identity Source Content Completion PromptId Epoch → Bool
  | .pending _ => true
  | _ => false

variable (lifecycle : MessageDeliveryLifecycle Identity Source Content Completion PromptId Epoch)

/-- The messages that are held. -/
def MessageDeliveryLifecycle.held :
    List (OwnedDelivery Identity Source Content Completion PromptId Epoch) :=
  lifecycle.slots.map DeliverySlot.owned

/-- The messages that wait. -/
def MessageDeliveryLifecycle.waiting :
    List (OwnedDelivery Identity Source Content Completion PromptId Epoch) :=
  (lifecycle.slots.filter DeliverySlot.isPending).map DeliverySlot.owned

theorem waiting_sublist : lifecycle.waiting.Sublist lifecycle.held :=
  List.filter_sublist.map _

theorem containsIdentity_eq_false [BEq Identity] {identity : Identity}
    (h : lifecycle.containsIdentity identity = false) :
    ∀ owned ∈ lifecycle.held, (owned.message.identity == identity) = false := by
  unfold MessageDeliveryLifecycle.containsIdentity at h
  rw [List.any_eq_false] at h
  intro owned howned
  obtain ⟨slot, hslot, rfl⟩ := List.mem_map.mp howned
  simpa using h slot hslot

end Held

section Turns

variable [BEq PromptId] [BEq Epoch]
  (lifecycle : MessageDeliveryLifecycle Identity Source Content Completion PromptId Epoch)
  (binding : TurnBinding PromptId Epoch)

/-- The message is bound to the turn. -/
def OwnedDelivery.boundTo
    (owned : OwnedDelivery Identity Source Content Completion PromptId Epoch) : Bool :=
  owned.binding == binding

theorem pendingMessages_eq : lifecycle.pendingMessages binding =
    (lifecycle.waiting.filter (·.boundTo binding)).map OwnedDelivery.message := by
  unfold MessageDeliveryLifecycle.pendingMessages MessageDeliveryLifecycle.waiting
  induction lifecycle.slots with
  | nil => rfl
  | cons slot slots ih =>
    cases slot with
    | pending owned =>
      rw [List.filter_cons_of_pos rfl, List.map_cons, List.filterMap_cons, ih]
      by_cases h : (owned.binding == binding) = true
      · simp [DeliverySlot.pendingMessage, DeliverySlot.owned, OwnedDelivery.boundTo, h]
      · simp [DeliverySlot.pendingMessage, DeliverySlot.owned, OwnedDelivery.boundTo, h]
    | projecting owned => exact ih
    | delivered owned => exact ih

theorem owned_project (slot : DeliverySlot Identity Source Content Completion PromptId Epoch) :
    (slot.project binding).owned = slot.owned := by
  cases slot with
  | pending owned =>
    unfold DeliverySlot.project
    dsimp only
    split
    · rfl
    · rfl
  | projecting owned => rfl
  | delivered owned => rfl

theorem owned_deliver (slot : DeliverySlot Identity Source Content Completion PromptId Epoch) :
    (slot.deliver binding).owned = slot.owned := by
  cases slot with
  | pending owned => rfl
  | delivered owned => rfl
  | projecting owned =>
    unfold DeliverySlot.deliver
    dsimp only
    split
    · rfl
    · rfl

theorem isPending_project
    (slot : DeliverySlot Identity Source Content Completion PromptId Epoch) :
    (slot.project binding).isPending = (slot.isPending && !slot.owned.boundTo binding) := by
  cases slot with
  | pending owned =>
    unfold DeliverySlot.project OwnedDelivery.boundTo
    dsimp only
    split
    · rename_i h
      simp [DeliverySlot.isPending, DeliverySlot.owned, h]
    · rename_i h
      simp [DeliverySlot.isPending, DeliverySlot.owned, h]
  | projecting owned => rfl
  | delivered owned => rfl

theorem isPending_deliver
    (slot : DeliverySlot Identity Source Content Completion PromptId Epoch) :
    (slot.deliver binding).isPending = slot.isPending := by
  cases slot with
  | pending owned => rfl
  | delivered owned => rfl
  | projecting owned =>
    unfold DeliverySlot.deliver
    dsimp only
    split
    · rfl
    · rfl

/-- Two lifecycles that hold the same messages, of which the same wait. -/
structure SameMessages
    (before after : MessageDeliveryLifecycle Identity Source Content Completion PromptId Epoch) :
    Prop where
  held : after.held = before.held
  waiting : after.waiting = before.waiting

theorem sameMessages_deliver :
    SameMessages lifecycle ⟨lifecycle.slots.map (·.deliver binding)⟩ := by
  refine ⟨?_, ?_⟩
  · unfold MessageDeliveryLifecycle.held
    rw [List.map_map]
    apply List.map_congr_left
    intro slot _
    exact owned_deliver binding slot
  · unfold MessageDeliveryLifecycle.waiting
    rw [List.filter_map, List.map_map]
    have hpending : (DeliverySlot.isPending ∘
        fun slot : DeliverySlot Identity Source Content Completion PromptId Epoch =>
          slot.deliver binding) = DeliverySlot.isPending :=
      funext (isPending_deliver binding)
    have howned : (DeliverySlot.owned ∘
        fun slot : DeliverySlot Identity Source Content Completion PromptId Epoch =>
          slot.deliver binding) = DeliverySlot.owned :=
      funext (owned_deliver binding)
    rw [hpending, howned]

/-- A committed or failed delivery holds the same messages, and a failed one changes
nothing. -/
theorem finishDelivery_cases
    (commit : List (DeliveryMessage Identity Source Content) → Except Error Unit) :
    SameMessages lifecycle (lifecycle.finishDelivery binding commit).2 ∧
      ∀ error, commit (lifecycle.slots.filterMap (·.projectingMessage binding)) = .error error →
        (lifecycle.finishDelivery binding commit).2 = lifecycle := by
  unfold MessageDeliveryLifecycle.finishDelivery
  dsimp only
  split
  · exact ⟨⟨rfl, rfl⟩, fun _ _ => rfl⟩
  · split
    · exact ⟨⟨rfl, rfl⟩, fun _ _ => rfl⟩
    · rename_i hok
      refine ⟨sameMessages_deliver lifecycle binding, ?_⟩
      intro error herror
      rw [herror] at hok
      cases hok

/-- Handing out gives the waiting messages of the turn, which are held and no longer
wait. -/
theorem beginDelivery_spec :
    (lifecycle.beginDelivery binding).1 =
        (lifecycle.waiting.filter (·.boundTo binding)).map OwnedDelivery.message ∧
      (lifecycle.beginDelivery binding).2.held = lifecycle.held ∧
      (lifecycle.beginDelivery binding).2.waiting =
        lifecycle.waiting.filter fun owned => !owned.boundTo binding := by
  rw [← pendingMessages_eq]
  unfold MessageDeliveryLifecycle.beginDelivery
  dsimp only
  split
  · rename_i hempty
    refine ⟨rfl, rfl, ?_⟩
    rw [List.isEmpty_iff, pendingMessages_eq, List.map_eq_nil_iff,
      List.filter_eq_nil_iff] at hempty
    symm
    rw [List.filter_eq_self]
    intro owned howned
    simpa using hempty owned howned
  · refine ⟨rfl, ?_, ?_⟩
    · unfold MessageDeliveryLifecycle.held
      rw [List.map_map]
      apply List.map_congr_left
      intro slot _
      exact owned_project binding slot
    · unfold MessageDeliveryLifecycle.waiting
      dsimp only
      induction lifecycle.slots with
      | nil => rfl
      | cons slot slots ih =>
        rw [List.map_cons, List.filter_cons, List.filter_cons, isPending_project]
        cases hpending : slot.isPending with
        | false => simpa using ih
        | true =>
          cases hbound : slot.owned.boundTo binding with
          | false => simp [owned_project, hbound, ih]
          | true => simp [hbound, ih]

/-- The message is bound to a turn that ends. -/
def OwnedDelivery.ends (target : TerminalTarget PromptId Epoch)
    (owned : OwnedDelivery Identity Source Content Completion PromptId Epoch) : Bool :=
  target.matches owned.binding

/-- The end of turns emits their messages, in order: only waiting ones fall back. -/
theorem transition_spec (target : TerminalTarget PromptId Epoch) (cause : TerminalCause) :
    (lifecycle.transition target cause).2.held =
        lifecycle.held.filter (fun owned => !owned.ends target) ∧
      (lifecycle.transition target cause).2.waiting =
        lifecycle.waiting.filter (fun owned => !owned.ends target) ∧
      (lifecycle.transition target cause).1.fallbacks.Sublist
        (lifecycle.waiting.filter (·.ends target)) ∧
      (lifecycle.transition target cause).1.completions.Sublist
        (lifecycle.held.filter (·.ends target)) ∧
      ((lifecycle.transition target cause).1.fallbacks ++
        (lifecycle.transition target cause).1.completions).Perm
        (lifecycle.held.filter (·.ends target)) := by
  unfold MessageDeliveryLifecycle.transition MessageDeliveryLifecycle.held
    MessageDeliveryLifecycle.waiting
  dsimp only
  induction lifecycle.slots with
  | nil => simp [transitionSlots]
  | cons slot slots ih =>
    obtain ⟨hheld, hwaiting, hfallbacks, hcompletions, hperm⟩ := ih
    rw [transitionSlots]
    generalize transitionSlots target cause slots = rest at *
    obtain ⟨⟨fallbacks, completions⟩, kept⟩ := rest
    dsimp only at *
    have hends : slot.owned.ends target = target.matches slot.owned.binding := rfl
    cases hmatches : target.matches slot.owned.binding with
    | false =>
      rw [hmatches] at hends
      cases hpending : slot.isPending with
      | false | true => simp [hends, hpending, hheld, hwaiting, hfallbacks, hcompletions, hperm]
    | true =>
      rw [hmatches] at hends
      have hcompleted : (fallbacks ++ slot.owned :: completions).Perm
          (slot.owned :: (slots.map DeliverySlot.owned).filter (·.ends target)) :=
        List.perm_middle.trans (hperm.cons slot.owned)
      cases slot with
      | pending owned =>
        have hpending : (DeliverySlot.pending owned).isPending = true := rfl
        simp only [DeliverySlot.owned] at hends hcompleted
        cases hcause : cause.fallsBack with
        | true =>
          simp [hpending, DeliverySlot.owned, hends, hheld, hwaiting, hfallbacks, hcompletions,
            hperm, List.Sublist.cons]
        | false =>
          simp [hpending, DeliverySlot.owned, hends, hheld, hwaiting, hfallbacks, hcompletions,
            hcompleted, List.Sublist.cons]
      | projecting owned =>
        have hpending : (DeliverySlot.projecting owned).isPending = false := rfl
        simp only [DeliverySlot.owned] at hends hcompleted
        simp [hpending, DeliverySlot.owned, hends, hheld, hwaiting, hfallbacks, hcompletions,
          hcompleted]
      | delivered owned =>
        have hpending : (DeliverySlot.delivered owned).isPending = false := rfl
        simp only [DeliverySlot.owned] at hends hcompleted
        simp [hpending, DeliverySlot.owned, hends, hheld, hwaiting, hfallbacks, hcompletions,
          hcompleted]

end Turns

end Ezer.MessageDelivery
