import Mathlib.Data.List.Induction
import Mathlib.Data.List.Basic

/-!
# Messages to running subagents

The coordinator offers a message to the host of a subagent under a lease. The host
claims the lease, inserts the row of the message and stores that it has committed. The
coordinator settles the lease with the answer of the host, or revokes it when the
subagent is cancelled, the deadline passes or the offer is dropped, in any order.
-/

namespace Ezer.Coordinator

inductive ActiveMessageAdmission
  | admitted
  | unsupported
  | channelClosed
  | rejected

inductive ActiveMessageLeaseState
  | «open»
  | claimed
  | committed
  | revoked
  deriving DecidableEq

/-- What the sender of an offered message is told. -/
inductive ActiveAgentMessageOutcome
  | accepted
  | notActiveOrFinalizing
  | admissionUncertain
  | notAcceptedBeforeDeadline
  | unsupported
  | channelClosed

inductive ActiveMessageCompletionOutcome
  | admission (answer : ActiveMessageAdmission)
  | cancelled
  | deadlineElapsed

namespace ActiveMessageLeaseState

/-- Take a lease back: whether no host can use it any more. -/
def revoke : ActiveMessageLeaseState → Bool × ActiveMessageLeaseState
  | «open» | revoked => (true, revoked)
  | lease => (false, lease)

/-- Whether the answer of the host is borne out by the lease; a refusal takes it back. -/
def settle (lease : ActiveMessageLeaseState) :
    ActiveMessageAdmission → Bool × ActiveMessageLeaseState
  | .admitted => (lease = committed, lease)
  | .unsupported | .channelClosed | .rejected => lease.revoke

/-- What a ready offer makes of its lease. -/
def poll (lease : ActiveMessageLeaseState) :
    ActiveMessageCompletionOutcome → Bool × ActiveMessageLeaseState
  | .admission answer => lease.settle answer
  | .cancelled | .deadlineElapsed => lease.revoke

end ActiveMessageLeaseState

def protocolOutcomeFromCompletion (outcome : ActiveMessageCompletionOutcome) (isSettled : Bool) :
    ActiveAgentMessageOutcome :=
  if !isSettled then .admissionUncertain
  else
    match outcome with
    | .admission .admitted => .accepted
    | .admission .unsupported => .unsupported
    | .admission .channelClosed => .channelClosed
    | .admission .rejected => .notActiveOrFinalizing
    | .cancelled | .deadlineElapsed => .notAcceptedBeforeDeadline

/-- What a sender is told when the completion is dropped or its subagent is gone. -/
def lostCompletionOutcome (outcome : ActiveMessageCompletionOutcome) (isSettled : Bool) :
    ActiveAgentMessageOutcome :=
  match outcome with
  | .admission .admitted => .admissionUncertain
  | outcome => protocolOutcomeFromCompletion outcome isSettled

/-- An offered message: its lease, its rows in the host, the calls of `commit_admission`
that are about to insert and to store, whether its sender waits, and what it was told. -/
structure OfferedMessage where
  lease : ActiveMessageLeaseState
  rows : ℕ
  inserting : ℕ
  storing : ℕ
  respondTo : Bool
  replies : List ActiveAgentMessageOutcome

/-- A step of the coordinator (`poll`, `drop`) or of a call of `commit_admission`. -/
inductive MessageStep
  | poll (outcome : ActiveMessageCompletionOutcome) (childLive : Bool)
  | drop
  | claim
  | insert
  | store

namespace OfferedMessage

def new : OfferedMessage := ⟨.open, 0, 0, 0, true, []⟩

/-- Leave a message with a lease, and tell its sender unless that is done. -/
def answer (m : OfferedMessage) (lease : ActiveMessageLeaseState)
    (outcome : ActiveAgentMessageOutcome) : OfferedMessage :=
  if m.respondTo then
    { m with lease := lease, respondTo := false, replies := m.replies ++ [outcome] }
  else { m with lease := lease }

/-- One step. The store of a host does not look at the lease. -/
def step (m : OfferedMessage) : MessageStep → OfferedMessage
  | .poll outcome childLive =>
    if m.respondTo then
      let (isSettled, lease) := m.lease.poll outcome
      let told := if childLive then protocolOutcomeFromCompletion else lostCompletionOutcome
      m.answer lease (told outcome isSettled)
    else m
  | .drop =>
    let (isRevoked, lease) := m.lease.revoke
    m.answer lease (if isRevoked then .channelClosed else .admissionUncertain)
  | .claim =>
    if m.lease = .open then { m with lease := .claimed, inserting := m.inserting + 1 } else m
  | .insert =>
    if m.inserting = 0 then m
    else { m with rows := m.rows + 1, inserting := m.inserting - 1, storing := m.storing + 1 }
  | .store =>
    if m.storing = 0 then m else { m with lease := .committed, storing := m.storing - 1 }

def run (m : OfferedMessage) (steps : List MessageStep) : OfferedMessage :=
  steps.foldl step m

/-- What a sender was told holds of the lease for good. -/
def Agrees (lease : ActiveMessageLeaseState) : ActiveAgentMessageOutcome → Prop
  | .accepted => lease = .committed
  | .admissionUncertain => True
  | _ => lease = .revoked

/-- One call at most is between its claim and its store, and it alone holds the lease. -/
structure Settled (m : OfferedMessage) : Prop where
  claimed : m.inserting + m.storing = if m.lease = .claimed then 1 else 0
  inserted : m.rows = m.storing + if m.lease = .committed then 1 else 0
  once : m.replies.length = if m.respondTo then 0 else 1
  agrees : ∀ outcome ∈ m.replies, Agrees m.lease outcome

variable {m : OfferedMessage} {lease : ActiveMessageLeaseState}
  {outcome : ActiveAgentMessageOutcome}

/-- On a lease that is neither committed nor revoked nothing definite is told. -/
theorem Agrees.of_ne (h : Agrees lease outcome) (hc : lease ≠ .committed) (hr : lease ≠ .revoked)
    (lease' : ActiveMessageLeaseState) : Agrees lease' outcome := by
  cases outcome
  case admissionUncertain => trivial
  case accepted => exact absurd h hc
  all_goals exact absurd h hr

theorem poll_lease (lease : ActiveMessageLeaseState) (outcome : ActiveMessageCompletionOutcome) :
    (lease.poll outcome).2 = lease ∨ lease = .open ∧ (lease.poll outcome).2 = .revoked := by
  rcases outcome with ⟨_ | _⟩ | _ | _ <;> cases lease <;>
    first | exact .inl rfl | exact .inr ⟨rfl, rfl⟩

theorem agrees_poll (lease : ActiveMessageLeaseState) (outcome : ActiveMessageCompletionOutcome)
    (childLive : Bool) :
    Agrees (lease.poll outcome).2
      ((if childLive then protocolOutcomeFromCompletion else lostCompletionOutcome) outcome
        (lease.poll outcome).1) := by
  cases childLive <;> rcases outcome with ⟨_ | _⟩ | _ | _ <;> cases lease <;> trivial

theorem Settled.answer (h : m.Settled) (hl : lease = m.lease ∨ m.lease = .open ∧ lease = .revoked)
    (ha : Agrees lease outcome) : (m.answer lease outcome).Settled := by
  have hkept : ({ m with lease := lease } : OfferedMessage).Settled := by
    rcases hl with rfl | ⟨ho, rfl⟩
    · exact h
    · obtain ⟨claimed, inserted, once, agrees⟩ := h
      rw [ho] at claimed inserted agrees
      exact ⟨claimed, inserted, once, fun told htold => (agrees told htold).of_ne nofun nofun _⟩
  rw [OfferedMessage.answer]
  split
  case isTrue hp =>
    have hnil : m.replies = [] := by simpa [hp] using h.once
    exact ⟨hkept.claimed, hkept.inserted, by simp [hnil], by simpa [hnil] using ha⟩
  case isFalse => exact hkept

theorem Settled.step (h : m.Settled) (s : MessageStep) : (m.step s).Settled := by
  have ⟨claimed, inserted, once, agrees⟩ := h
  cases s with
  | poll outcome childLive =>
    rw [OfferedMessage.step]
    split
    · exact h.answer (poll_lease m.lease outcome) (agrees_poll m.lease outcome childLive)
    · exact h
  | drop =>
    refine h.answer (poll_lease m.lease .cancelled) ?_
    cases m.lease <;> trivial
  | claim =>
    rw [OfferedMessage.step]
    split
    case isTrue ho =>
      rw [ho] at claimed inserted agrees
      refine ⟨?_, inserted, once, fun told htold => (agrees told htold).of_ne nofun nofun _⟩
      exact (Nat.succ_add ..).trans (congrArg _ claimed)
    case isFalse => exact h
  | insert =>
    rw [OfferedMessage.step]
    split
    · exact h
    · exact ⟨by simp only; omega, by simp only; omega, once, agrees⟩
  | store =>
    rw [OfferedMessage.step]
    split
    · exact h
    · split at claimed
      case isFalse => omega
      case isTrue hc =>
        rw [hc] at inserted agrees
        simp only [reduceCtorEq, if_false] at inserted
        refine ⟨?_, ?_, once, fun told htold => (agrees told htold).of_ne nofun nofun _⟩
        · simp only [reduceCtorEq, if_false]; omega
        · simp only [if_true]; omega

end OfferedMessage

end Ezer.Coordinator
