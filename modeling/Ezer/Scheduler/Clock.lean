import Ezer.Scheduler.Tasks
import Mathlib.Data.List.Basic

/-!
# The clock of the scheduler

Versions are reserved for transitions before these are made, and committed one
after the other. When the revisions of a generation run out, a reservation
starts a new generation.
-/

namespace Ezer.Scheduler

/-- Where generation ids come from; none is drawn twice. -/
structure GenerationSource (υ : Type) where
  newId : ℕ → υ
  injective : Function.Injective newId

/-- The number of transitions one reservation can be for. -/
def maxSchedulerTransitions : ℕ := 50

/-- The assertions of the clock and its reservations. -/
inductive ReservationAssertion where
  | invalidSize
  | offsetExhausted
  | exhausted
  | stale
  | preflightedRevision

section

variable {υ : Type}

/-- The change to a new generation. -/
structure GenerationRollover (υ : Type) where
  oldGeneration : υ
  newGeneration : υ

/-- Versions that are kept for transitions to come. -/
structure SchedulerReservation (υ : Type) where
  source : SchedulerVersion υ
  generation : υ
  nextRevision : UInt64
  remaining : UInt64
  rollover : Option (GenerationRollover υ)

/-- What a commit says. -/
structure SchedulerCommit (υ : Type) where
  version : SchedulerVersion υ
  rollover : Option (GenerationRollover υ)

/-- The clock, and how many generation ids were drawn. -/
structure SchedulerClock (υ : Type) where
  version : SchedulerVersion υ
  drawn : ℕ

namespace SchedulerReservation

/-- The version a transition to come will have. -/
def versionAt (r : SchedulerReservation υ) (offset : UInt64) :
    Except ReservationAssertion (SchedulerVersion υ) :=
  if offset < r.remaining then .ok ⟨r.generation, r.nextRevision + offset⟩
  else .error .offsetExhausted

/-- Where the clock must be for the next commit. -/
def expectedSource (r : SchedulerReservation υ) : SchedulerVersion υ :=
  match r.rollover with
  | none => ⟨r.generation, r.nextRevision - 1⟩
  | some _ => r.source

/-- Move the clock to the next version. -/
def commitNext [DecidableEq υ] (r : SchedulerReservation υ) (clock : SchedulerClock υ) :
    Except ReservationAssertion
      (SchedulerCommit υ × SchedulerReservation υ × SchedulerClock υ) :=
  if ¬ 0 < r.remaining then .error .exhausted
  else if clock.version ≠ r.expectedSource then .error .stale
  else
    match r.versionAt 0 with
    | .error assertion => .error assertion
    | .ok version =>
      let committed := { r with rollover := none, remaining := r.remaining - 1 }
      if ¬ 0 < committed.remaining then
        .ok (⟨version, r.rollover⟩, committed, { clock with version })
      else if r.nextRevision.toNat + 1 < 2 ^ 64 then
        .ok (⟨version, r.rollover⟩, { committed with nextRevision := r.nextRevision + 1 },
          { clock with version })
      else .error .preflightedRevision

end SchedulerReservation

namespace SchedulerClock

/-- A clock at the start of a new generation. -/
def new (ids : GenerationSource υ) : SchedulerClock υ := ⟨⟨ids.newId 0, 0⟩, 1⟩

/-- Keep versions for some transitions. -/
def prepareTransition (ids : GenerationSource υ) (clock : SchedulerClock υ) (count : ℕ) :
    Except ReservationAssertion (SchedulerReservation υ × SchedulerClock υ) :=
  if 0 < count ∧ count ≤ maxSchedulerTransitions then
    if clock.version.revision.toNat + count < 2 ^ 64 then
      .ok (⟨clock.version, clock.version.generation, clock.version.revision + 1,
        UInt64.ofNat count, none⟩, clock)
    else
      let newGeneration := ids.newId clock.drawn
      .ok (⟨clock.version, newGeneration, 1, UInt64.ofNat count,
        some ⟨clock.version.generation, newGeneration⟩⟩, { clock with drawn := clock.drawn + 1 })
  else .error .invalidSize

/-- Whether the clock shows the generation drawn at a place, before those drawn later. -/
def InGeneration (ids : GenerationSource υ) (clock : SchedulerClock υ) (k : ℕ) : Prop :=
  k < clock.drawn ∧ clock.version.generation = ids.newId k

/-- Whether a version was passed by the clock. -/
def Passed (ids : GenerationSource υ) (clock : SchedulerClock υ) (version : SchedulerVersion υ) :
    Prop :=
  ∃ j k, clock.InGeneration ids k ∧ version.generation = ids.newId j ∧
    (j < k ∨ (j = k ∧ version.revision ≤ clock.version.revision))

end SchedulerClock

/-- Whether a reservation can still be committed at a clock. -/
structure SchedulerReservation.Current (ids : GenerationSource υ) (r : SchedulerReservation υ)
    (clock : SchedulerClock υ) : Prop where
  expected : clock.version = r.expectedSource
  positive : 0 < r.nextRevision.toNat
  room : r.nextRevision.toNat + r.remaining.toNat ≤ 2 ^ 64
  generation : match r.rollover with
    | none => True
    | some _ => ∃ k m, clock.InGeneration ids k ∧ k < m ∧ m < clock.drawn ∧
        r.generation = ids.newId m

/-- Whether one version comes before another one of the same generation, if it is one. -/
def SchedulerVersion.Before (v w : SchedulerVersion υ) : Prop :=
  v.generation = w.generation → v.revision < w.revision

namespace SchedulerReservation

variable {ids : GenerationSource υ} {r : SchedulerReservation υ} {clock : SchedulerClock υ}

/-- The version a reservation is committed at next. -/
def nextVersion (r : SchedulerReservation υ) : SchedulerVersion υ := ⟨r.generation, r.nextRevision⟩

theorem versionAt_zero (h : 0 < r.remaining) :
    r.versionAt 0 = .ok r.nextVersion := by
  rw [versionAt, if_pos h, nextVersion]
  simp

/-- The commit of a current reservation succeeds and leaves the rest of it current. -/
theorem Current.commitNext [DecidableEq υ] (h : r.Current ids clock) (hremaining : 0 < r.remaining) :
    ∃ r', r.commitNext clock = .ok (⟨r.nextVersion, r.rollover⟩, r',
        { clock with version := r.nextVersion }) ∧
      r'.remaining = r.remaining - 1 ∧
      (0 < r'.remaining →
        r'.Current ids { clock with version := r.nextVersion }) := by
  have hroom := h.room
  have hless : (r.remaining - 1).toNat = r.remaining.toNat - 1 := by
    rw [UInt64.toNat_sub_of_le]
    · rfl
    · rw [UInt64.le_iff_toNat_le]
      exact UInt64.lt_iff_toNat_lt.mp hremaining
  unfold SchedulerReservation.commitNext
  rw [if_neg (not_not.mpr hremaining), if_neg (not_not.mpr h.expected), versionAt_zero hremaining]
  dsimp only
  split
  · rename_i hlast
    exact ⟨_, rfl, rfl, fun hmore => absurd hmore hlast⟩
  · rename_i hmore
    rw [not_not, UInt64.lt_iff_toNat_lt, hless] at hmore
    have htwo : 1 < r.remaining.toNat := Nat.lt_of_sub_pos hmore
    have hnext : r.nextRevision.toNat + 1 < 2 ^ 64 := by omega
    have hadd : (r.nextRevision + 1).toNat = r.nextRevision.toNat + 1 := by
      rw [UInt64.toNat_add]
      exact Nat.mod_eq_of_lt hnext
    rw [if_pos hnext]
    refine ⟨_, rfl, rfl, fun _ => ⟨?_, ?_, ?_, trivial⟩⟩
    · simp [expectedSource, nextVersion]
    · rw [hadd]
      omega
    · rw [hadd, hless]
      omega

end SchedulerReservation

namespace SchedulerClock

variable {ids : GenerationSource υ} {r : SchedulerReservation υ} {clock : SchedulerClock υ} {k : ℕ}

/-- A clock stays in its generation while ids are drawn. -/
theorem InGeneration.mono (h : clock.InGeneration ids k) {drawn : ℕ} (hdrawn : clock.drawn ≤ drawn) :
    InGeneration ids { clock with drawn } k :=
  ⟨Nat.lt_of_lt_of_le h.1 hdrawn, h.2⟩

/-- A clock is in one generation only. -/
theorem InGeneration.unique {k' : ℕ} (h : clock.InGeneration ids k) (h' : clock.InGeneration ids k') :
    k = k' :=
  ids.injective (h.2.symm.trans h'.2)

theorem Passed.mono {v : SchedulerVersion υ} (h : clock.Passed ids v) {drawn : ℕ}
    (hdrawn : clock.drawn ≤ drawn) : Passed ids { clock with drawn } v := by
  obtain ⟨j, k, hk, hj, hbound⟩ := h
  exact ⟨j, k, hk.mono hdrawn, hj, hbound⟩

/-- Where a current reservation takes the clock next. -/
theorem next_cases (h : r.Current ids clock) (hk : clock.InGeneration ids k) :
    (r.generation = ids.newId k ∧ clock.version.revision < r.nextRevision) ∨
      ∃ m, k < m ∧ m < clock.drawn ∧ r.generation = ids.newId m := by
  have hexpected := h.expected
  have hgeneration := h.generation
  have hpositive := h.positive
  unfold SchedulerReservation.expectedSource at hexpected
  cases hrollover : r.rollover with
  | none =>
    rw [hrollover] at hexpected
    refine Or.inl ⟨?_, ?_⟩
    · rw [← hk.2, hexpected]
    · rw [hexpected, UInt64.lt_iff_toNat_lt, UInt64.toNat_sub_of_le]
      · exact Nat.sub_lt hpositive Nat.one_pos
      · rw [UInt64.le_iff_toNat_le]
        exact hpositive
  | some rollover =>
    rw [hrollover] at hgeneration
    obtain ⟨k', m, hk', hm⟩ := hgeneration
    rw [hk'.unique hk] at hm
    exact Or.inr ⟨m, hm⟩

/-- A version the clock passed comes before the next one. -/
theorem Passed.before {v : SchedulerVersion υ} (hv : clock.Passed ids v) (h : r.Current ids clock) :
    v.Before r.nextVersion := by
  obtain ⟨j, k, hk, hj, hbound⟩ := hv
  intro hsame
  obtain ⟨hgeneration, hless⟩ | ⟨m, hm, -, hgeneration⟩ := next_cases h hk
  · have heq : j = k := ids.injective (hj.symm.trans (hsame.trans hgeneration))
    obtain hlt | ⟨-, hle⟩ := hbound
    · omega
    · exact UInt64.lt_of_le_of_lt hle hless
  · have heq : j = m := ids.injective (hj.symm.trans (hsame.trans hgeneration))
    omega

/-- The clock stays in a generation when a reservation is committed. -/
theorem exists_inGeneration_next (h : r.Current ids clock) (hk : clock.InGeneration ids k) :
    ∃ m, k ≤ m ∧ InGeneration ids { clock with version := r.nextVersion } m := by
  obtain ⟨hgeneration, -⟩ | ⟨m, hm, hdrawn, hgeneration⟩ := next_cases h hk
  · exact ⟨k, Nat.le_refl k, hk.1, hgeneration⟩
  · exact ⟨m, Nat.le_of_lt hm, hdrawn, hgeneration⟩

/-- What the clock passed stays passed when a reservation is committed. -/
theorem Passed.next {v : SchedulerVersion υ} (hv : clock.Passed ids v) (h : r.Current ids clock) :
    Passed ids { clock with version := r.nextVersion } v := by
  obtain ⟨j, k, hk, hj, hbound⟩ := hv
  obtain ⟨hgeneration, hless⟩ | ⟨m, hm, hdrawn, hgeneration⟩ := next_cases h hk
  · refine ⟨j, k, ⟨hk.1, hgeneration⟩, hj, ?_⟩
    obtain hlt | ⟨heq, hle⟩ := hbound
    · exact Or.inl hlt
    · exact Or.inr ⟨heq, UInt64.le_of_lt (UInt64.lt_of_le_of_lt hle hless)⟩
  · exact ⟨j, m, ⟨hdrawn, hgeneration⟩, hj, Or.inl (by omega)⟩

/-- The version a reservation was committed at is passed. -/
theorem passed_next (h : r.Current ids clock) (hk : clock.InGeneration ids k) :
    Passed ids { clock with version := r.nextVersion } r.nextVersion := by
  obtain ⟨m, -, hm⟩ := exists_inGeneration_next h hk
  exact ⟨m, m, hm, hm.2, Or.inr ⟨rfl, UInt64.le_refl _⟩⟩

/-- A reservation of a fitting size is current. -/
theorem prepareTransition_spec (hk : clock.InGeneration ids k) {count : ℕ} (hpos : 0 < count)
    (hfits : count ≤ maxSchedulerTransitions) :
    ∃ r drawn, clock.prepareTransition ids count = .ok (r, { clock with drawn }) ∧
      clock.drawn ≤ drawn ∧ r.remaining.toNat = count ∧ r.Current ids { clock with drawn } := by
  have hcount : (UInt64.ofNat count).toNat = count := by
    apply UInt64.toNat_ofNat_of_lt'
    exact Nat.lt_of_le_of_lt hfits (by decide)
  unfold prepareTransition
  rw [if_pos ⟨hpos, hfits⟩]
  split
  · rename_i hroom
    have hadd : (clock.version.revision + 1).toNat = clock.version.revision.toNat + 1 := by
      rw [UInt64.toNat_add]
      exact Nat.mod_eq_of_lt (by simp; omega)
    refine ⟨_, clock.drawn, rfl, Nat.le_refl _, hcount, ?_, ?_, ?_, trivial⟩
    · simp [SchedulerReservation.expectedSource]
    · rw [hadd]
      omega
    · rw [hadd, hcount]
      omega
  · refine ⟨_, clock.drawn + 1, rfl, Nat.le_succ _, hcount, rfl, ?_, ?_, ?_⟩
    · exact Nat.one_pos
    · show (1 : UInt64).toNat + (UInt64.ofNat count).toNat ≤ 2 ^ 64
      have hone : (1 : UInt64).toNat = 1 := rfl
      have hmax : maxSchedulerTransitions = 50 := rfl
      omega
    · exact ⟨k, clock.drawn, hk.mono (Nat.le_succ _), hk.1, Nat.lt_succ_self _, rfl⟩

end SchedulerClock

end

end Ezer.Scheduler
