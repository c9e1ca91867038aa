import Mathlib.Data.List.Basic

/-!
# The lifecycle of delivered messages

Messages that wait for a safe point of a turn. A message is admitted for a
turn, handed out when the turn reaches a safe point, delivered once the caller
has committed it, and given up when the turn ends: back to the caller if
it was still waiting and the turn ended in a way that lets it fall back, and
as completed otherwise.
-/

namespace Ezer.MessageDelivery

/-- The turn a message is bound to. -/
structure TurnBinding (PromptId Epoch : Type) where
  promptId : PromptId
  epoch : Epoch
  deriving BEq

/-- A message. -/
structure DeliveryMessage (Identity Source Content : Type) where
  identity : Identity
  source : Source
  content : Content

/-- A message with its turn and what its sender waits on. -/
structure OwnedDelivery (Identity Source Content Completion PromptId Epoch : Type) where
  binding : TurnBinding PromptId Epoch
  message : DeliveryMessage Identity Source Content
  completion : Completion

/-- A held message: waiting, handed out, or delivered. -/
inductive DeliverySlot (Identity Source Content Completion PromptId Epoch : Type) where
  | pending (owned : OwnedDelivery Identity Source Content Completion PromptId Epoch)
  | projecting (owned : OwnedDelivery Identity Source Content Completion PromptId Epoch)
  | delivered (owned : OwnedDelivery Identity Source Content Completion PromptId Epoch)

/-- Why turns end. -/
inductive TerminalCause where
  | completion
  | softCancel
  | rewind
  | hardTeardown
  | actorDrop

/-- Whether messages that wait fall back to the caller. -/
def TerminalCause.fallsBack : TerminalCause → Bool
  | .completion | .softCancel | .rewind => true
  | .hardTeardown | .actorDrop => false

/-- The turns that end. -/
inductive TerminalTarget (PromptId Epoch : Type) where
  | turn (binding : TurnBinding PromptId Epoch)
  | all

/-- What a lifecycle emits when turns end. -/
structure TerminalTransition (Identity Source Content Completion PromptId Epoch : Type) where
  fallbacks : List (OwnedDelivery Identity Source Content Completion PromptId Epoch)
  completions : List (OwnedDelivery Identity Source Content Completion PromptId Epoch)

/-- The held messages in the order of their admission. -/
structure MessageDeliveryLifecycle
    (Identity Source Content Completion PromptId Epoch : Type) where
  slots : List (DeliverySlot Identity Source Content Completion PromptId Epoch) := []

variable {Identity Source Content Completion PromptId Epoch Error : Type}

/-- The message of a slot. -/
def DeliverySlot.owned :
    DeliverySlot Identity Source Content Completion PromptId Epoch →
      OwnedDelivery Identity Source Content Completion PromptId Epoch
  | .pending owned | .projecting owned | .delivered owned => owned

section Operations

variable [BEq Identity] [BEq PromptId] [BEq Epoch]

/-- Whether a turn is among those that end. -/
def TerminalTarget.matches (target : TerminalTarget PromptId Epoch)
    (binding : TurnBinding PromptId Epoch) : Bool :=
  match target with
  | .turn target => binding == target
  | .all => true

namespace DeliverySlot

/-- The message of a slot of a turn that waits. -/
def pendingMessage (binding : TurnBinding PromptId Epoch) :
    DeliverySlot Identity Source Content Completion PromptId Epoch →
      Option (DeliveryMessage Identity Source Content)
  | .pending owned => if owned.binding == binding then some owned.message else none
  | _ => none

/-- The message of a slot of a turn that is handed out. -/
def projectingMessage (binding : TurnBinding PromptId Epoch) :
    DeliverySlot Identity Source Content Completion PromptId Epoch →
      Option (DeliveryMessage Identity Source Content)
  | .projecting owned => if owned.binding == binding then some owned.message else none
  | _ => none

/-- Hand out a waiting message of a turn. -/
def project (binding : TurnBinding PromptId Epoch)
    (slot : DeliverySlot Identity Source Content Completion PromptId Epoch) :
    DeliverySlot Identity Source Content Completion PromptId Epoch :=
  match slot with
  | .pending owned => if owned.binding == binding then .projecting owned else slot
  | slot => slot

/-- Deliver a message of a turn that is handed out. -/
def deliver (binding : TurnBinding PromptId Epoch)
    (slot : DeliverySlot Identity Source Content Completion PromptId Epoch) :
    DeliverySlot Identity Source Content Completion PromptId Epoch :=
  match slot with
  | .projecting owned => if owned.binding == binding then .delivered owned else slot
  | slot => slot

end DeliverySlot

/-- What slots emit when turns end, and the slots that stay. -/
def transitionSlots (target : TerminalTarget PromptId Epoch) (cause : TerminalCause) :
    List (DeliverySlot Identity Source Content Completion PromptId Epoch) →
      TerminalTransition Identity Source Content Completion PromptId Epoch ×
        List (DeliverySlot Identity Source Content Completion PromptId Epoch)
  | [] => (⟨[], []⟩, [])
  | slot :: rest =>
    let (transition, kept) := transitionSlots target cause rest
    if !target.matches slot.owned.binding then (transition, slot :: kept)
    else
      match slot with
      | .pending owned =>
        if cause.fallsBack then ({ transition with fallbacks := owned :: transition.fallbacks }, kept)
        else ({ transition with completions := owned :: transition.completions }, kept)
      | .projecting owned | .delivered owned =>
        ({ transition with completions := owned :: transition.completions }, kept)

namespace MessageDeliveryLifecycle

/-- Whether a message with an identity is held. -/
def containsIdentity
    (lifecycle : MessageDeliveryLifecycle Identity Source Content Completion PromptId Epoch)
    (identity : Identity) : Bool :=
  lifecycle.slots.any fun slot => slot.owned.message.identity == identity

/-- Admit a message, or give it back when its identity is held. -/
def admitPending
    (lifecycle : MessageDeliveryLifecycle Identity Source Content Completion PromptId Epoch)
    (binding : TurnBinding PromptId Epoch) (message : DeliveryMessage Identity Source Content)
    (completion : Completion) :
    Except (DeliveryMessage Identity Source Content) Unit ×
      MessageDeliveryLifecycle Identity Source Content Completion PromptId Epoch :=
  if lifecycle.containsIdentity message.identity then (.error message, lifecycle)
  else (.ok (), ⟨lifecycle.slots ++ [.pending ⟨binding, message, completion⟩]⟩)

/-- The waiting messages of a turn. -/
def pendingMessages
    (lifecycle : MessageDeliveryLifecycle Identity Source Content Completion PromptId Epoch)
    (binding : TurnBinding PromptId Epoch) : List (DeliveryMessage Identity Source Content) :=
  lifecycle.slots.filterMap (·.pendingMessage binding)

/-- Hand out the waiting messages of a turn. -/
def beginDelivery
    (lifecycle : MessageDeliveryLifecycle Identity Source Content Completion PromptId Epoch)
    (binding : TurnBinding PromptId Epoch) :
    List (DeliveryMessage Identity Source Content) ×
      MessageDeliveryLifecycle Identity Source Content Completion PromptId Epoch :=
  let messages := lifecycle.pendingMessages binding
  if messages.isEmpty then (messages, lifecycle)
  else (messages, ⟨lifecycle.slots.map (·.project binding)⟩)

/-- Deliver the messages of a turn that are handed out, if the caller commits them. -/
def finishDelivery
    (lifecycle : MessageDeliveryLifecycle Identity Source Content Completion PromptId Epoch)
    (binding : TurnBinding PromptId Epoch)
    (commit : List (DeliveryMessage Identity Source Content) → Except Error Unit) :
    Except Error (List (DeliveryMessage Identity Source Content)) ×
      MessageDeliveryLifecycle Identity Source Content Completion PromptId Epoch :=
  let messages := lifecycle.slots.filterMap (·.projectingMessage binding)
  if messages.isEmpty then (.ok messages, lifecycle)
  else
    match commit messages with
    | .error error => (.error error, lifecycle)
    | .ok () => (.ok messages, ⟨lifecycle.slots.map (·.deliver binding)⟩)

/-- End turns. -/
def transition
    (lifecycle : MessageDeliveryLifecycle Identity Source Content Completion PromptId Epoch)
    (target : TerminalTarget PromptId Epoch) (cause : TerminalCause) :
    TerminalTransition Identity Source Content Completion PromptId Epoch ×
      MessageDeliveryLifecycle Identity Source Content Completion PromptId Epoch :=
  let (transition, kept) := transitionSlots target cause lifecycle.slots
  (transition, ⟨kept⟩)

end MessageDeliveryLifecycle

end Operations

/-- A call of a lifecycle. -/
inductive Call (Identity Source Content Completion PromptId Epoch Error : Type) where
  | admitPending (binding : TurnBinding PromptId Epoch)
      (message : DeliveryMessage Identity Source Content) (completion : Completion)
  | beginDelivery (binding : TurnBinding PromptId Epoch)
  | finishDelivery (binding : TurnBinding PromptId Epoch)
      (commit : List (DeliveryMessage Identity Source Content) → Except Error Unit)
  | transition (target : TerminalTarget PromptId Epoch) (cause : TerminalCause)

/-- What a call returns. -/
inductive Output (Identity Source Content Completion PromptId Epoch Error : Type) where
  | admitted (result : Except (DeliveryMessage Identity Source Content) Unit)
  | began (messages : List (DeliveryMessage Identity Source Content))
  | finished (result : Except Error (List (DeliveryMessage Identity Source Content)))
  | ended (transition : TerminalTransition Identity Source Content Completion PromptId Epoch)

section Runs

variable [BEq Identity] [BEq PromptId] [BEq Epoch]

/-- Carry out one call. -/
def step (lifecycle : MessageDeliveryLifecycle Identity Source Content Completion PromptId Epoch) :
    Call Identity Source Content Completion PromptId Epoch Error →
      Output Identity Source Content Completion PromptId Epoch Error ×
        MessageDeliveryLifecycle Identity Source Content Completion PromptId Epoch
  | .admitPending binding message completion =>
    let (result, lifecycle) := lifecycle.admitPending binding message completion
    (.admitted result, lifecycle)
  | .beginDelivery binding =>
    let (messages, lifecycle) := lifecycle.beginDelivery binding
    (.began messages, lifecycle)
  | .finishDelivery binding commit =>
    let (result, lifecycle) := lifecycle.finishDelivery binding commit
    (.finished result, lifecycle)
  | .transition target cause =>
    let (transition, lifecycle) := lifecycle.transition target cause
    (.ended transition, lifecycle)

/-- What a lifecycle has returned after some calls, and what it holds. -/
structure Run (Identity Source Content Completion PromptId Epoch Error : Type) where
  outputs : List (Output Identity Source Content Completion PromptId Epoch Error) := []
  lifecycle : MessageDeliveryLifecycle Identity Source Content Completion PromptId Epoch := {}

/-- One more call of a run. -/
def Run.next (run : Run Identity Source Content Completion PromptId Epoch Error)
    (call : Call Identity Source Content Completion PromptId Epoch Error) :
    Run Identity Source Content Completion PromptId Epoch Error :=
  let (output, lifecycle) := step run.lifecycle call
  ⟨run.outputs ++ [output], lifecycle⟩

/-- A run from an empty lifecycle. -/
def runCalls (calls : List (Call Identity Source Content Completion PromptId Epoch Error)) :
    Run Identity Source Content Completion PromptId Epoch Error :=
  calls.foldl Run.next {}

end Runs

end Ezer.MessageDelivery
