import Ezer.Breaker.Machine
import Mathlib.Tactic.Linarith

/-!
# The probes of a half-open breaker

What each call does to a breaker, and from it what holds after any calls: the
mirror of the state is right, the probe slots are not exceeded, the probes let
through beyond the slots wait for a lease each, and a breaker that is left
alone for its cool-down admits the next request.
-/

namespace Ezer.Breaker

open CircuitBreaker

/-- What holds of a breaker after any calls. -/
structure WellFormed (breaker : CircuitBreaker) : Prop where
  enabled : breaker.config.enabled = true
  slots : 1 ≤ breaker.config.halfOpenMaxProbes
  mirror : breaker.isOpen = true ↔ breaker.state = .open
  probes : breaker.halfOpenProbes ≤ breaker.config.halfOpenMaxProbes
  noProbes : breaker.state ≠ .halfOpen → breaker.halfOpenProbes = 0
  lease : breaker.state = .halfOpen → breaker.config.openDuration < 2 ^ 64 * nanosPerMilli

/-- What a call does: whether it is a check that is admitted, and the breaker after it. -/
inductive Step (breaker : CircuitBreaker) : Call → Bool → CircuitBreaker → Prop where
  | idle (first second : ℕ) (state : breaker.state = .closed) :
      Step breaker (.check first second) true breaker
  | shed (first second : ℕ) (state : breaker.state = .open)
      (cooling : (breaker.elapsedMillis first - breaker.openedAtMillis) * nanosPerMilli <
        breaker.config.openDuration) :
      Step breaker (.check first second) false breaker
  | enter (first second : ℕ) (state : breaker.state = .open)
      (cooled : breaker.config.openDuration ≤
        (breaker.elapsedMillis first - breaker.openedAtMillis) * nanosPerMilli) :
      Step breaker (.check first second) true { breaker with
        state := .halfOpen
        isOpenFast := false
        halfOpenProbes := 1
        probeClaimedAtMillis := breaker.elapsedMillis second }
  | slot (first second : ℕ) (state : breaker.state = .halfOpen)
      (free : breaker.halfOpenProbes < breaker.config.halfOpenMaxProbes) :
      Step breaker (.check first second) true { breaker with
        halfOpenProbes := breaker.halfOpenProbes + 1
        probeClaimedAtMillis := breaker.elapsedMillis first }
  | reclaim (first second : ℕ) (state : breaker.state = .halfOpen)
      (lost : asMillis breaker.config.openDuration ≤
        breaker.elapsedMillis first - breaker.probeClaimedAtMillis) :
      Step breaker (.check first second) true
        { breaker with probeClaimedAtMillis := breaker.elapsedMillis first }
  | wait (first second : ℕ) (state : breaker.state = .halfOpen)
      (leased : breaker.elapsedMillis first - breaker.probeClaimedAtMillis <
        asMillis breaker.config.openDuration) :
      Step breaker (.check first second) false breaker
  | sample (outcome : Outcome) (first second : ℕ) (window : SlidingWindow)
      (state : breaker.state ≠ .halfOpen) :
      Step breaker (.record outcome first second) false { breaker with window := window }
  | trip (outcome : Outcome) (first second : ℕ) (window : SlidingWindow) :
      Step breaker (.record outcome first second) false
        ({ breaker with window := window }.trip second)
  | close (outcome : Outcome) (first second : ℕ) :
      Step breaker (.record outcome first second) false breaker.close

section Steps

variable {breaker breaker' : CircuitBreaker} {call : Call} {admitted : Bool}

theorem WellFormed.check (h : WellFormed breaker) (first second : ℕ) :
    Step breaker (.check first second) (breaker.admits (.check first second))
      (breaker.check first second).2 := by
  unfold admits CircuitBreaker.check
  rw [h.enabled]
  cases hstate : breaker.state with
  | closed => exact .idle first second hstate
  | «open» =>
    have hfree : 0 < breaker.config.halfOpenMaxProbes := h.slots
    have hnone : breaker.halfOpenProbes = 0 := h.noProbes (by rw [hstate]; decide)
    simp only [Bool.not_true, Bool.false_eq_true, if_false, checkOpen, casState, hstate, if_true,
      tryHalfOpenProbe, hnone, hfree]
    by_cases hcooled : breaker.config.openDuration ≤
        (breaker.elapsedMillis first - breaker.openedAtMillis) * nanosPerMilli
    · simp only [ge_iff_le, hcooled, if_true]
      exact .enter first second hstate hcooled
    · simp only [ge_iff_le, hcooled, if_false]
      exact .shed first second hstate (by omega)
  | halfOpen =>
    simp only [Bool.not_true, Bool.false_eq_true, if_false, tryHalfOpenProbe]
    by_cases hfree : breaker.halfOpenProbes < breaker.config.halfOpenMaxProbes
    · simp only [hfree, if_true]
      exact .slot first second hstate hfree
    · by_cases hlost : asMillis breaker.config.openDuration ≤
          breaker.elapsedMillis first - breaker.probeClaimedAtMillis
      · simp only [hfree, ge_iff_le, hlost, if_true, if_false]
        exact .reclaim first second hstate hlost
      · simp only [hfree, ge_iff_le, hlost, if_false]
        exact .wait first second hstate (by omega)

theorem WellFormed.record (h : WellFormed breaker) (outcome : Outcome) (first second : ℕ) :
    Step breaker (.record outcome first second) false (breaker.record outcome first second) := by
  unfold CircuitBreaker.record
  rw [h.enabled]
  simp only [Bool.not_true, Bool.false_eq_true, if_false]
  split
  · rename_i hstate
    split
    · exact .trip outcome first second _
    · apply Step.sample
      rw [hstate]
      decide
  · split
    · exact .trip outcome first second breaker.window
    · exact .close outcome first second
  · rename_i hstate
    apply Step.sample
    rw [hstate]
    decide

/-- Every call is one of the steps. -/
theorem WellFormed.step (h : WellFormed breaker) (call : Call) :
    Step breaker call (breaker.admits call) (breaker.next call) := by
  cases call with
  | check first second => exact h.check first second
  | record outcome first second => exact h.record outcome first second

theorem Step.config (h : Step breaker call admitted breaker') :
    breaker'.config = breaker.config := by
  cases h <;> rfl

theorem Step.baseline (h : Step breaker call admitted breaker') :
    breaker'.baseline = breaker.baseline := by
  cases h <;> rfl

theorem elapsedMillis_lt (breaker : CircuitBreaker) (now : ℕ) :
    breaker.elapsedMillis now < 2 ^ 64 :=
  Nat.mod_lt _ (Nat.two_pow_pos 64)

theorem WellFormed.after_step (h : WellFormed breaker)
    (hstep : Step breaker call admitted breaker') : WellFormed breaker' := by
  have hslots := h.slots
  cases hstep with
  | idle | shed | wait => exact h
  | enter first second state cooled =>
    refine ⟨h.enabled, h.slots, ?_, h.slots, ?_, ?_⟩
    · simp [isOpen]
    · intro hne
      exact (hne rfl).elim
    · intro _
      have hlt := elapsedMillis_lt breaker first
      have hmul : (breaker.elapsedMillis first - breaker.openedAtMillis) * nanosPerMilli <
          2 ^ 64 * nanosPerMilli :=
        Nat.mul_lt_mul_of_pos_right (by omega) (by decide)
      exact Nat.lt_of_le_of_lt cooled hmul
  | slot first second state free =>
    refine ⟨h.enabled, h.slots, h.mirror, free, ?_, h.lease⟩
    intro hne
    exact (hne state).elim
  | reclaim | sample =>
    exact ⟨h.enabled, h.slots, h.mirror, h.probes, h.noProbes, h.lease⟩
  | trip outcome first second window =>
    refine ⟨h.enabled, h.slots, ?_, Nat.zero_le _, fun _ => rfl, ?_⟩
    · simp [isOpen, CircuitBreaker.trip]
    · intro hstate
      cases hstate
  | close outcome first second =>
    refine ⟨h.enabled, h.slots, ?_, Nat.zero_le _, fun _ => rfl, ?_⟩
    · simp [isOpen, CircuitBreaker.close]
    · intro hstate
      cases hstate

end Steps

/-- The instant is so early that its milliseconds are an unsigned 64-bit integer. -/
def CircuitBreaker.InRange (breaker : CircuitBreaker) (now : ℕ) : Prop :=
  now - breaker.baseline < 2 ^ 64 * nanosPerMilli

/-- The instants that the breaker keeps are past. -/
structure Past (breaker : CircuitBreaker) (now : ℕ) : Prop where
  opened : breaker.openedAtMillis ≤ breaker.elapsedMillis now
  claimed : breaker.probeClaimedAtMillis ≤ breaker.elapsedMillis now

section Clock

variable {breaker breaker' : CircuitBreaker} {call : Call} {admitted : Bool} {now later : ℕ}

theorem elapsedMillis_of_inRange (h : breaker.InRange now) :
    breaker.elapsedMillis now = (now - breaker.baseline) / nanosPerMilli := by
  unfold elapsedMillis asMillis
  apply Nat.mod_eq_of_lt
  exact Nat.div_lt_of_lt_mul (by rw [Nat.mul_comm]; exact h)

theorem CircuitBreaker.InRange.mono (h : breaker.InRange later) (hle : now ≤ later) :
    breaker.InRange now := by
  unfold InRange at h ⊢
  omega

theorem elapsedMillis_mono (h : breaker.InRange later) (hle : now ≤ later) :
    breaker.elapsedMillis now ≤ breaker.elapsedMillis later := by
  rw [elapsedMillis_of_inRange h, elapsedMillis_of_inRange (h.mono hle)]
  apply Nat.div_le_div_right
  omega

theorem Past.mono (h : Past breaker now) (hrange : breaker.InRange later) (hle : now ≤ later) :
    Past breaker later := by
  have hmono := elapsedMillis_mono hrange hle
  exact ⟨h.opened.trans hmono, h.claimed.trans hmono⟩

theorem elapsedMillis_congr (h : breaker'.baseline = breaker.baseline) (now : ℕ) :
    breaker'.elapsedMillis now = breaker.elapsedMillis now := by
  unfold elapsedMillis
  rw [h]

theorem asMillis_whole {duration millis : ℕ} (h : duration = millis * nanosPerMilli)
    (hlt : duration < 2 ^ 64 * nanosPerMilli) : asMillis duration = millis := by
  subst h
  have hmillis := Nat.lt_of_mul_lt_mul_right hlt
  unfold asMillis
  rw [Nat.mul_div_cancel _ (by decide)]
  exact Nat.mod_eq_of_lt hmillis

theorem Past.after_step (h : Past breaker now) (hstep : Step breaker call admitted breaker')
    (hrange : breaker.InRange call.last) (hnow : now ≤ call.first)
    (hcall : call.first ≤ call.last) : Past breaker' call.last := by
  have hpast := h.mono hrange (hnow.trans hcall)
  have hfirst := elapsedMillis_mono hrange hcall
  cases hstep with
  | idle | shed | wait => exact hpast
  | enter first second state cooled => exact ⟨hpast.opened, le_rfl⟩
  | slot | reclaim => exact ⟨hpast.opened, hfirst⟩
  | sample outcome first second window state => exact ⟨hpast.opened, hpast.claimed⟩
  | trip outcome first second window => exact ⟨le_rfl, hpast.claimed⟩
  | close outcome first second => exact ⟨hpast.opened, hpast.claimed⟩

end Clock

section Runs

variable {breaker : CircuitBreaker} {now : ℕ} {calls : List Call}

theorem WellFormed.next (h : WellFormed breaker) (call : Call) : WellFormed (breaker.next call) :=
  h.after_step (h.step call)

theorem WellFormed.run (h : WellFormed breaker) (calls : List Call) :
    WellFormed (breaker.run calls) ∧ (breaker.run calls).config = breaker.config ∧
      (breaker.run calls).baseline = breaker.baseline := by
  induction calls generalizing breaker with
  | nil => exact ⟨h, rfl, rfl⟩
  | cons call calls ih =>
    have hstep := h.step call
    obtain ⟨hwell, hconfig, hbaseline⟩ := ih (h.next call)
    exact ⟨hwell, hconfig.trans hstep.config, hbaseline.trans hstep.baseline⟩

theorem Call.Ordered.le_lastOf (h : Call.Ordered now calls) : now ≤ Call.lastOf now calls := by
  induction calls generalizing now with
  | nil => exact le_rfl
  | cons call calls ih =>
    obtain ⟨hnow, hcall, hrest⟩ := h
    exact (hnow.trans hcall).trans (ih hrest)

theorem CircuitBreaker.InRange.next (hwell : WellFormed breaker) (call : Call) (now : ℕ) :
    (breaker.next call).InRange now ↔ breaker.InRange now := by
  unfold InRange
  rw [(hwell.step call).baseline]

theorem Past.run (hwell : WellFormed breaker) (h : Past breaker now)
    (hordered : Call.Ordered now calls) (hrange : breaker.InRange (Call.lastOf now calls)) :
    Past (breaker.run calls) (Call.lastOf now calls) := by
  induction calls generalizing breaker now with
  | nil => exact h
  | cons call calls ih =>
    obtain ⟨hnow, hcall, hrest⟩ := hordered
    have hlast := hrange.mono hrest.le_lastOf
    exact ih (hwell.next call) (h.after_step (hwell.step call) hlast hnow hcall) hrest
      ((InRange.next hwell call _).mpr hrange)

/-- The probes of a half-open breaker since it was entered: those beyond the slots have
waited for a lease each. -/
structure Probing (breaker : CircuitBreaker) (entered count : ℕ) : Prop where
  state : breaker.state = .halfOpen
  leases : ∃ leases, count = breaker.halfOpenProbes + leases ∧
    entered + leases * asMillis breaker.config.openDuration ≤ breaker.probeClaimedAtMillis

theorem Probing.next {entered count : ℕ} {call : Call} (hwell : WellFormed breaker)
    (hpast : Past breaker now) (h : Probing breaker entered count)
    (hrange : breaker.InRange call.last) (hnow : now ≤ call.first)
    (hcall : call.first ≤ call.last) (hstays : (breaker.next call).state = .halfOpen) :
    Probing (breaker.next call) entered (count + if breaker.admits call then 1 else 0) := by
  have hclaimed := (hpast.mono (hrange.mono hcall) hnow).claimed
  have hstep := hwell.step call
  obtain ⟨hstate, leases, hcount, hlease⟩ := h
  generalize breaker.admits call = admitted at hstep ⊢
  generalize breaker.next call = breaker' at hstep hstays ⊢
  cases hstep with
  | idle first second state =>
    rw [state] at hstate
    cases hstate
  | shed | wait => exact ⟨hstays, leases, hcount, hlease⟩
  | enter first second state cooled =>
    rw [state] at hstate
    cases hstate
  | slot first second state free =>
    refine ⟨hstays, leases, ?_, hlease.trans hclaimed⟩
    simp
    omega
  | reclaim first second state lost =>
    refine ⟨hstays, leases + 1, ?_, ?_⟩
    · simp
      omega
    · change breaker.probeClaimedAtMillis ≤ breaker.elapsedMillis first at hclaimed
      dsimp only
      rw [Nat.add_mul]
      omega
  | sample outcome first second window state => exact (state hstate).elim
  | trip | close => cases hstays

theorem Probing.run {entered count : ℕ} (hwell : WellFormed breaker) (hpast : Past breaker now)
    (h : Probing breaker entered count) (hordered : Call.Ordered now calls)
    (hrange : breaker.InRange (Call.lastOf now calls)) (hstays : breaker.StaysHalfOpen calls) :
    ∃ leases, count + breaker.admitted calls ≤ breaker.config.halfOpenMaxProbes + leases ∧
      leases * asMillis breaker.config.openDuration ≤
        breaker.elapsedMillis (Call.lastOf now calls) - entered := by
  induction calls generalizing breaker now count with
  | nil =>
    obtain ⟨-, leases, hcount, hlease⟩ := h
    have hprobes := hwell.probes
    have hclaimed := hpast.claimed
    refine ⟨leases, ?_, ?_⟩
    · change count + 0 ≤ _
      omega
    · change _ ≤ breaker.elapsedMillis now - entered
      omega
  | cons call calls ih =>
    obtain ⟨hnow, hcall, hrest⟩ := hordered
    obtain ⟨hnext, hstays⟩ := hstays
    have hstep := hwell.step call
    have hlast := hrange.mono hrest.le_lastOf
    obtain ⟨leases, hadmitted, hlease⟩ := ih (hwell.next call)
      (hpast.after_step hstep hlast hnow hcall) (h.next hwell hpast hlast hnow hcall hnext) hrest
      ((InRange.next hwell call _).mpr hrange) hstays
    rw [hstep.config] at hadmitted hlease
    rw [elapsedMillis_congr hstep.baseline] at hlease
    refine ⟨leases, ?_, hlease⟩
    change count + ((if breaker.admits call then 1 else 0) + _) ≤ _
    omega

theorem admitted_le (hwell : WellFormed breaker) (hpast : Past breaker now) {call : Call}
    {probes : List Call} (hstate : breaker.state ≠ .halfOpen)
    (hordered : Call.Ordered now (call :: probes))
    (hrange : breaker.InRange (Call.lastOf call.last probes))
    (hstays : breaker.StaysHalfOpen (call :: probes)) :
    ∃ leases, breaker.admitted (call :: probes) ≤ breaker.config.halfOpenMaxProbes + leases ∧
      leases * asMillis breaker.config.openDuration ≤
        breaker.elapsedMillis (Call.lastOf call.last probes) -
          breaker.elapsedMillis call.last := by
  obtain ⟨hnow, hcall, hrest⟩ := hordered
  obtain ⟨hnext, hstays⟩ := hstays
  have hlast := hrange.mono hrest.le_lastOf
  have hstep := hwell.step call
  have hentered : breaker.admits call = true ∧
      Probing (breaker.next call) (breaker.elapsedMillis call.last) 1 := by
    generalize breaker.admits call = admitted at hstep ⊢
    generalize breaker.next call = breaker' at hstep hnext ⊢
    cases hstep with
    | enter first second state cooled => exact ⟨rfl, rfl, 0, rfl, by simp [Call.last]⟩
    | idle | shed => exact (hstate hnext).elim
    | slot first second state free | reclaim first second state free
    | wait first second state free =>
      exact (hstate state).elim
    | sample outcome first second window state => exact (state hnext).elim
    | trip | close => cases hnext
  obtain ⟨leases, hadmitted, hlease⟩ := hentered.2.run (hwell.next call)
    (hpast.after_step hstep hlast hnow hcall) hrest ((InRange.next hwell call _).mpr hrange) hstays
  rw [hstep.config] at hadmitted hlease
  rw [elapsedMillis_congr hstep.baseline] at hlease
  refine ⟨leases, ?_, hlease⟩
  change (if breaker.admits call then 1 else 0) + _ ≤ _
  rw [hentered.1]
  exact hadmitted

theorem check_admitted (hwell : WellFormed breaker) (hpast : Past breaker now) {millis : ℕ}
    (hmillis : breaker.config.openDuration = millis * nanosPerMilli) {first : ℕ}
    (hlater : now + breaker.config.openDuration ≤ first) (hbaseline : breaker.baseline ≤ now)
    (hrange : breaker.InRange first) (second : ℕ) :
    (breaker.check first second).1 = .ok () := by
  have hnow := elapsedMillis_of_inRange (hrange.mono (Nat.le_of_add_right_le hlater))
  have hfirst := elapsedMillis_of_inRange hrange
  have helapsed : breaker.elapsedMillis now + millis ≤ breaker.elapsedMillis first := by
    rw [hnow, hfirst, ← Nat.add_mul_div_right _ _ (show 0 < nanosPerMilli by decide)]
    apply Nat.div_le_div_right
    omega
  have hopened := hpast.opened
  have hclaimed := hpast.claimed
  have hadmits : breaker.admits (.check first second) = true := by
    have hstep := hwell.check first second
    generalize breaker.admits (.check first second) = admitted at hstep ⊢
    generalize (breaker.check first second).2 = breaker' at hstep
    cases hstep with
    | shed _ _ state cooling =>
      rw [hmillis] at cooling
      have hlt := Nat.lt_of_mul_lt_mul_right cooling
      omega
    | wait _ _ state leased =>
      rw [asMillis_whole hmillis (hwell.lease state)] at leased
      omega
    | idle | enter | slot | reclaim => rfl
  simp only [admits] at hadmits
  split at hadmits
  · assumption
  · cases hadmits

end Runs

/-- After any calls on a fresh breaker, the mirror of the state is right, the probe slots
are not exceeded and are free unless the breaker is half open, from a call that enters
the half-open state on the probes beyond the slots have waited for a lease each, and a
check after the cool-down is admitted. -/
theorem withClock_run (config : BreakerConfig) (now : ℕ) (calls : List Call) (millis : ℕ)
    (henabled : config.enabled = true) (hmillis : config.openDuration = millis * nanosPerMilli)
    (hordered : Call.Ordered now calls) :
    let breaker := (withClock config now).run calls
    (breaker.isOpen = true ↔ breaker.state = .open) ∧
    breaker.halfOpenProbes ≤ max config.halfOpenMaxProbes 1 ∧
    (breaker.state ≠ .halfOpen → breaker.halfOpenProbes = 0) ∧
    (∀ call probes, breaker.state ≠ .halfOpen →
      Call.Ordered (Call.lastOf now calls) (call :: probes) →
      breaker.StaysHalfOpen (call :: probes) →
      breaker.InRange (Call.lastOf call.last probes) →
      ∃ leases, breaker.admitted (call :: probes) ≤ max config.halfOpenMaxProbes 1 + leases ∧
        leases * millis ≤ breaker.elapsedMillis (Call.lastOf call.last probes) -
          breaker.elapsedMillis call.last) ∧
    (∀ first second, Call.lastOf now calls + config.openDuration ≤ first →
      breaker.InRange first → (breaker.check first second).1 = .ok ()) := by
  intro breaker
  have hfresh : WellFormed (withClock config now) := by
    refine ⟨henabled, le_max_right _ _, ?_, Nat.zero_le _, fun _ => rfl, ?_⟩
    · simp [isOpen, withClock]
    · intro hstate
      cases hstate
  obtain ⟨hwell, hconfig, hbaseline⟩ := hfresh.run calls
  have hpast : breaker.InRange (Call.lastOf now calls) →
      Past breaker (Call.lastOf now calls) := by
    intro hrange
    apply Past.run hfresh ⟨Nat.zero_le _, Nat.zero_le _⟩ hordered
    unfold InRange at hrange ⊢
    rw [hbaseline] at hrange
    exact hrange
  change breaker.config = (withClock config now).config at hconfig
  change breaker.baseline = now at hbaseline
  have hduration : breaker.config.openDuration = config.openDuration := by
    rw [hconfig]
    rfl
  have hslots : breaker.config.halfOpenMaxProbes = max config.halfOpenMaxProbes 1 := by
    rw [hconfig]
    rfl
  refine ⟨hwell.mirror, ?_, hwell.noProbes, ?_, ?_⟩
  · rw [← hslots]
    exact hwell.probes
  · intro call probes hstate hprobes hstays hrange
    have hlast : Call.lastOf now calls ≤ Call.lastOf call.last probes := hprobes.le_lastOf
    obtain ⟨leases, hadmitted, hlease⟩ :=
      admitted_le hwell (hpast (hrange.mono hlast)) hstate hprobes hrange hstays
    have hstep := hwell.step call
    have hwhole := (hwell.next call).lease hstays.1
    rw [hstep.config] at hwhole
    rw [hslots] at hadmitted
    rw [asMillis_whole (hduration.trans hmillis) hwhole] at hlease
    exact ⟨leases, hadmitted, hlease⟩
  · intro first second hlater hrange
    apply check_admitted hwell (hpast (hrange.mono (by omega))) (hduration.trans hmillis)
    · rw [hduration]
      exact hlater
    · rw [hbaseline]
      exact hordered.le_lastOf
    · exact hrange

/-- A breaker that trips at once and cools down for ten milliseconds. -/
def tenMillis (probes : ℕ) : BreakerConfig where
  windowDuration := 60000 * nanosPerMilli
  minSamples := 1
  errorRateReached := fun failures samples => 2 * failures ≥ samples
  openDuration := 10 * nanosPerMilli
  halfOpenMaxProbes := probes
  enabled := true

/-- A tripped breaker with one slot admits the first check after its cool-down. -/
theorem tenMillis_run :
    ((withClock (tenMillis 1) 0).run [.record .failure 0 0]).state = .open ∧
      (((withClock (tenMillis 1) 0).run [.record .failure 0 0]).check
        (10 * nanosPerMilli) (10 * nanosPerMilli)).1 = .ok () := by
  have hrun := withClock_run (tenMillis 1) 0 [.record .failure 0 0] 10 rfl rfl
    ⟨le_rfl, le_rfl, trivial⟩
  refine ⟨rfl, hrun.2.2.2.2 (10 * nanosPerMilli) (10 * nanosPerMilli) (by decide) ?_⟩
  change 10 * nanosPerMilli - 0 < 2 ^ 64 * nanosPerMilli
  decide

/-- With readings of the clock inside a millisecond the second probe comes less than a
lease after the first; a breaker configured without slots has one; and a check after the
cool-down is shed when the milliseconds since the construction exceed 64 bits. -/
theorem tenMillis_not_exact :
    (((withClock (tenMillis 1) 0).run [.record .failure 0 0]).state = .open ∧
      ((withClock (tenMillis 1) 0).run [.record .failure 0 0]).StaysHalfOpen
        [.check 10900000 10900000, .check 20000000 20000000] ∧
      ¬∃ leases, ((withClock (tenMillis 1) 0).run [.record .failure 0 0]).admitted
          [.check 10900000 10900000, .check 20000000 20000000] ≤ 1 + leases ∧
        leases * (10 * nanosPerMilli) ≤ 20000000 - 10900000) ∧
    ¬((withClock (tenMillis 0) 0).run
        [.record .failure 0 0, .check 10000000 10000000]).halfOpenProbes ≤
      (tenMillis 0).halfOpenMaxProbes ∧
    (((withClock (tenMillis 1) 0).run
      [.record .failure ((2 ^ 64 - 1) * nanosPerMilli) ((2 ^ 64 - 1) * nanosPerMilli)]).check
        ((2 ^ 64 + 9) * nanosPerMilli) ((2 ^ 64 + 9) * nanosPerMilli)).1 ≠ .ok () := by
  refine ⟨⟨rfl, ⟨rfl, rfl, trivial⟩, ?_⟩, by decide, ?_⟩
  · rintro ⟨leases, hadmitted, hlease⟩
    have htwo : ((withClock (tenMillis 1) 0).run [.record .failure 0 0]).admitted
        [.check 10900000 10900000, .check 20000000 20000000] = 2 := by
      decide
    rw [htwo] at hadmitted
    unfold nanosPerMilli at hlease
    omega
  · intro hok
    cases hok

end Ezer.Breaker
