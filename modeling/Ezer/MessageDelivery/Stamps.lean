import Ezer.MessageDelivery.Lifecycle
import Mathlib.Data.List.Induction

/-!
# Stamped admissions

The lifecycle never looks at the content of a message. So a run can be
followed with the content of every admitted message stamped with the number of
the call and the turn; without the stamps it is the run itself.
-/

namespace Ezer.MessageDelivery

variable {Identity Source Content Completion PromptId Epoch Error : Type}

/-- The content of a message with the number of the call that admits it and its turn. -/
structure Stamped (PromptId Epoch Content : Type) where
  number : ℕ
  binding : TurnBinding PromptId Epoch
  content : Content

section Stamps

/-- The message without its stamp. -/
def DeliveryMessage.unstamp
    (message : DeliveryMessage Identity Source (Stamped PromptId Epoch Content)) :
    DeliveryMessage Identity Source Content :=
  ⟨message.identity, message.source, message.content.content⟩

/-- The delivery without its stamp. -/
def OwnedDelivery.unstamp (owned : OwnedDelivery Identity Source
    (Stamped PromptId Epoch Content) Completion PromptId Epoch) :
    OwnedDelivery Identity Source Content Completion PromptId Epoch :=
  ⟨owned.binding, owned.message.unstamp, owned.completion⟩

/-- The slot without its stamp. -/
def DeliverySlot.unstamp :
    DeliverySlot Identity Source (Stamped PromptId Epoch Content) Completion PromptId Epoch →
      DeliverySlot Identity Source Content Completion PromptId Epoch
  | .pending owned => .pending owned.unstamp
  | .projecting owned => .projecting owned.unstamp
  | .delivered owned => .delivered owned.unstamp

/-- What is emitted without the stamps. -/
def TerminalTransition.unstamp (transition : TerminalTransition Identity Source
    (Stamped PromptId Epoch Content) Completion PromptId Epoch) :
    TerminalTransition Identity Source Content Completion PromptId Epoch :=
  ⟨transition.fallbacks.map OwnedDelivery.unstamp,
    transition.completions.map OwnedDelivery.unstamp⟩

/-- The lifecycle without the stamps. -/
def MessageDeliveryLifecycle.unstamp (lifecycle : MessageDeliveryLifecycle Identity Source
    (Stamped PromptId Epoch Content) Completion PromptId Epoch) :
    MessageDeliveryLifecycle Identity Source Content Completion PromptId Epoch :=
  ⟨lifecycle.slots.map DeliverySlot.unstamp⟩

/-- The output without the stamps. -/
def Output.unstamp :
    Output Identity Source (Stamped PromptId Epoch Content) Completion PromptId Epoch Error →
      Output Identity Source Content Completion PromptId Epoch Error
  | .admitted (.ok ()) => .admitted (.ok ())
  | .admitted (.error message) => .admitted (.error message.unstamp)
  | .began messages => .began (messages.map DeliveryMessage.unstamp)
  | .finished result => .finished (result.map (List.map DeliveryMessage.unstamp))
  | .ended transition => .ended transition.unstamp

/-- The run without the stamps. -/
def Run.unstamp
    (run : Run Identity Source (Stamped PromptId Epoch Content) Completion PromptId Epoch Error) :
    Run Identity Source Content Completion PromptId Epoch Error :=
  ⟨run.outputs.map Output.unstamp, run.lifecycle.unstamp⟩

/-- The call with its message stamped. -/
def Call.stamp (number : ℕ) :
    Call Identity Source Content Completion PromptId Epoch Error →
      Call Identity Source (Stamped PromptId Epoch Content) Completion PromptId Epoch Error
  | .admitPending binding message completion =>
    .admitPending binding
      ⟨message.identity, message.source, ⟨number, binding, message.content⟩⟩ completion
  | .beginDelivery binding => .beginDelivery binding
  | .finishDelivery binding commit =>
    .finishDelivery binding fun messages => commit (messages.map DeliveryMessage.unstamp)
  | .transition target cause => .transition target cause

variable [BEq Identity] [BEq PromptId] [BEq Epoch]

/-- The run of stamped calls. -/
def stampedRun (calls : List (Call Identity Source Content Completion PromptId Epoch Error)) :
    Run Identity Source (Stamped PromptId Epoch Content) Completion PromptId Epoch Error :=
  runCalls (calls.zipIdx.map fun call => call.1.stamp call.2)

theorem runCalls_append (calls : List (Call Identity Source Content Completion PromptId Epoch Error))
    (call : Call Identity Source Content Completion PromptId Epoch Error) :
    runCalls (calls ++ [call]) = (runCalls calls).next call := by
  unfold runCalls
  rw [List.foldl_append]
  rfl

theorem stampedRun_append
    (calls : List (Call Identity Source Content Completion PromptId Epoch Error))
    (call : Call Identity Source Content Completion PromptId Epoch Error) :
    stampedRun (calls ++ [call]) = (stampedRun calls).next (call.stamp calls.length) := by
  unfold stampedRun
  rw [List.zipIdx_append, List.map_append, ← runCalls_append]
  simp

end Stamps

section Unstamping

variable (lifecycle : MessageDeliveryLifecycle Identity Source
  (Stamped PromptId Epoch Content) Completion PromptId Epoch)

theorem owned_unstamp (slot : DeliverySlot Identity Source
    (Stamped PromptId Epoch Content) Completion PromptId Epoch) :
    slot.unstamp.owned = slot.owned.unstamp := by
  cases slot <;> rfl

theorem admitPending_unstamp [BEq Identity] (binding : TurnBinding PromptId Epoch)
    (message : DeliveryMessage Identity Source (Stamped PromptId Epoch Content))
    (completion : Completion) :
    lifecycle.unstamp.admitPending binding message.unstamp completion =
      ((lifecycle.admitPending binding message completion).1.mapError DeliveryMessage.unstamp,
        (lifecycle.admitPending binding message completion).2.unstamp) := by
  have hcontains : lifecycle.unstamp.containsIdentity message.unstamp.identity =
      lifecycle.containsIdentity message.identity := by
    unfold MessageDeliveryLifecycle.containsIdentity MessageDeliveryLifecycle.unstamp
    rw [List.any_map]
    congr 1
    funext slot
    simp only [Function.comp_apply]
    rw [owned_unstamp]
    rfl
  unfold MessageDeliveryLifecycle.admitPending
  rw [hcontains]
  split
  · rfl
  · simp [Except.mapError, MessageDeliveryLifecycle.unstamp, DeliverySlot.unstamp,
      OwnedDelivery.unstamp]

variable [BEq PromptId] [BEq Epoch] (binding : TurnBinding PromptId Epoch)

theorem pendingMessage_unstamp (slot : DeliverySlot Identity Source
    (Stamped PromptId Epoch Content) Completion PromptId Epoch) :
    slot.unstamp.pendingMessage binding =
      (slot.pendingMessage binding).map DeliveryMessage.unstamp := by
  cases slot with
  | pending owned =>
    unfold DeliverySlot.unstamp DeliverySlot.pendingMessage
    dsimp only
    change (if (owned.binding == binding) = true then _ else _) = _
    split
    · rfl
    · rfl
  | projecting owned => rfl
  | delivered owned => rfl

theorem projectingMessage_unstamp (slot : DeliverySlot Identity Source
    (Stamped PromptId Epoch Content) Completion PromptId Epoch) :
    slot.unstamp.projectingMessage binding =
      (slot.projectingMessage binding).map DeliveryMessage.unstamp := by
  cases slot with
  | pending owned => rfl
  | projecting owned =>
    unfold DeliverySlot.unstamp DeliverySlot.projectingMessage
    dsimp only
    change (if (owned.binding == binding) = true then _ else _) = _
    split
    · rfl
    · rfl
  | delivered owned => rfl

theorem project_unstamp (slot : DeliverySlot Identity Source
    (Stamped PromptId Epoch Content) Completion PromptId Epoch) :
    slot.unstamp.project binding = (slot.project binding).unstamp := by
  cases slot with
  | pending owned =>
    unfold DeliverySlot.project DeliverySlot.unstamp
    dsimp only
    change (if (owned.binding == binding) = true then _ else _) = _
    split
    · rfl
    · rfl
  | projecting owned => rfl
  | delivered owned => rfl

theorem deliver_unstamp (slot : DeliverySlot Identity Source
    (Stamped PromptId Epoch Content) Completion PromptId Epoch) :
    slot.unstamp.deliver binding = (slot.deliver binding).unstamp := by
  cases slot with
  | pending owned => rfl
  | projecting owned =>
    unfold DeliverySlot.deliver DeliverySlot.unstamp
    dsimp only
    change (if (owned.binding == binding) = true then _ else _) = _
    split
    · rfl
    · rfl
  | delivered owned => rfl

theorem beginDelivery_unstamp :
    lifecycle.unstamp.beginDelivery binding =
      ((lifecycle.beginDelivery binding).1.map DeliveryMessage.unstamp,
        (lifecycle.beginDelivery binding).2.unstamp) := by
  have hmessages : lifecycle.unstamp.pendingMessages binding =
      (lifecycle.pendingMessages binding).map DeliveryMessage.unstamp := by
    unfold MessageDeliveryLifecycle.pendingMessages MessageDeliveryLifecycle.unstamp
    rw [List.filterMap_map, List.map_filterMap]
    congr 1
    funext slot
    exact pendingMessage_unstamp binding slot
  unfold MessageDeliveryLifecycle.beginDelivery
  dsimp only
  rw [hmessages, List.isEmpty_map]
  split
  · rfl
  · unfold MessageDeliveryLifecycle.unstamp
    simp [project_unstamp]

theorem finishDelivery_unstamp
    (commit : List (DeliveryMessage Identity Source Content) → Except Error Unit) :
    lifecycle.unstamp.finishDelivery binding commit =
      ((lifecycle.finishDelivery binding fun messages =>
          commit (messages.map DeliveryMessage.unstamp)).1.map
            (List.map DeliveryMessage.unstamp),
        (lifecycle.finishDelivery binding fun messages =>
          commit (messages.map DeliveryMessage.unstamp)).2.unstamp) := by
  have hmessages : lifecycle.unstamp.slots.filterMap (·.projectingMessage binding) =
      (lifecycle.slots.filterMap (·.projectingMessage binding)).map DeliveryMessage.unstamp := by
    unfold MessageDeliveryLifecycle.unstamp
    rw [List.filterMap_map, List.map_filterMap]
    congr 1
    funext slot
    exact projectingMessage_unstamp binding slot
  unfold MessageDeliveryLifecycle.finishDelivery
  dsimp only
  rw [hmessages, List.isEmpty_map]
  split
  · rfl
  · generalize commit _ = committed
    cases committed with
    | error error => rfl
    | ok committed =>
      unfold MessageDeliveryLifecycle.unstamp
      simp [deliver_unstamp, Except.map]

theorem transitionSlots_unstamp (target : TerminalTarget PromptId Epoch) (cause : TerminalCause)
    (slots : List (DeliverySlot Identity Source
      (Stamped PromptId Epoch Content) Completion PromptId Epoch)) :
    transitionSlots target cause (slots.map DeliverySlot.unstamp) =
      ((transitionSlots target cause slots).1.unstamp,
        (transitionSlots target cause slots).2.map DeliverySlot.unstamp) := by
  induction slots with
  | nil => rfl
  | cons slot slots ih =>
    rw [List.map_cons, transitionSlots, transitionSlots, ih]
    generalize transitionSlots target cause slots = rest
    obtain ⟨transition, kept⟩ := rest
    dsimp only
    rw [owned_unstamp]
    have hbinding : slot.owned.unstamp.binding = slot.owned.binding := rfl
    rw [hbinding]
    split
    · rfl
    · cases slot with
      | pending owned =>
        unfold DeliverySlot.unstamp
        dsimp only
        split
        · rfl
        · rfl
      | projecting owned => rfl
      | delivered owned => rfl

end Unstamping

section Follow

variable [BEq Identity] [BEq PromptId] [BEq Epoch]

theorem step_unstamp (lifecycle : MessageDeliveryLifecycle Identity Source
      (Stamped PromptId Epoch Content) Completion PromptId Epoch) (number : ℕ)
    (call : Call Identity Source Content Completion PromptId Epoch Error) :
    step lifecycle.unstamp call =
      ((step lifecycle (call.stamp number)).1.unstamp,
        (step lifecycle (call.stamp number)).2.unstamp) := by
  cases call with
  | admitPending binding message completion =>
    simp only [step, Call.stamp]
    have hadmitted := admitPending_unstamp lifecycle binding
      ⟨message.identity, message.source, ⟨number, binding, message.content⟩⟩ completion
    simp only [DeliveryMessage.unstamp] at hadmitted
    rw [hadmitted]
    generalize lifecycle.admitPending binding _ completion = admitted
    obtain ⟨result, after⟩ := admitted
    cases result <;> rfl
  | beginDelivery binding =>
    simp only [step, Call.stamp]
    rw [beginDelivery_unstamp]
    rfl
  | finishDelivery binding commit =>
    simp only [step, Call.stamp]
    rw [finishDelivery_unstamp]
    rfl
  | transition target cause =>
    simp only [step, Call.stamp, MessageDeliveryLifecycle.transition]
    unfold MessageDeliveryLifecycle.unstamp
    dsimp only
    rw [transitionSlots_unstamp]
    rfl

/-- The run of stamped calls is the run with stamps. -/
theorem runCalls_eq_unstamp
    (calls : List (Call Identity Source Content Completion PromptId Epoch Error)) :
    runCalls calls = (stampedRun calls).unstamp := by
  induction calls using List.reverseRecOn with
  | nil => rfl
  | append_singleton calls call ih =>
    rw [runCalls_append, stampedRun_append, ih]
    unfold Run.next
    simp only [Run.unstamp]
    rw [step_unstamp _ calls.length]
    simp

end Follow

end Ezer.MessageDelivery
