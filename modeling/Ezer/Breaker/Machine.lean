import Mathlib.Algebra.GroupWithZero.Nat

/-!
# The circuit breaker

The state machine of a circuit breaker. A closed breaker admits every request
and trips when the failures of a sliding window reach a threshold. An open one
sheds requests until its cool-down has passed, and then lets a few probes
through whose outcomes close or trip it again. Instants and durations are in
nanoseconds; the breaker itself keeps milliseconds since its construction.

A call reads the clock up to twice, and is given both readings.
-/

namespace Ezer.Breaker

/-- The nanoseconds of a millisecond. -/
def nanosPerMilli : ℕ := 10 ^ 6

/-- The milliseconds of a duration as an unsigned 64-bit integer. -/
def asMillis (duration : ℕ) : ℕ := duration / nanosPerMilli % 2 ^ 64

/-- The most entries a sliding window has. -/
def maxWindowEntries : ℕ := 10000

/-- The outcomes of the last requests, oldest first, with the number of failures. -/
structure SlidingWindow where
  entries : List (ℕ × Bool) := []
  failures : ℕ := 0

namespace SlidingWindow

/-- The window without its oldest entry. -/
def popFront (window : SlidingWindow) : SlidingWindow :=
  match window.entries with
  | [] => window
  | (_, wasFailure) :: rest => ⟨rest, if wasFailure then window.failures - 1 else window.failures⟩

/-- Add an outcome. -/
def push (window : SlidingWindow) (isFailure : Bool) (instant : ℕ) : SlidingWindow :=
  let window := if window.entries.length ≥ maxWindowEntries then window.popFront else window
  ⟨window.entries ++ [(instant, isFailure)],
    if isFailure then window.failures + 1 else window.failures⟩

/-- Remove the entries before a cutoff, oldest first. -/
def evictBefore (cutoff : ℕ) : List (ℕ × Bool) → ℕ → SlidingWindow
  | [], failures => ⟨[], failures⟩
  | (instant, wasFailure) :: rest, failures =>
    if instant < cutoff then
      evictBefore cutoff rest (if wasFailure then failures - 1 else failures)
    else ⟨(instant, wasFailure) :: rest, failures⟩

/-- Remove the entries that are older than a duration. -/
def evict (window : SlidingWindow) (duration now : ℕ) : SlidingWindow :=
  if now < duration then window
  else evictBefore (now - duration) window.entries window.failures

/-- The number of entries. -/
def sampleCount (window : SlidingWindow) : ℕ := window.entries.length

end SlidingWindow

/-- The states of a breaker. -/
inductive BreakerState where
  | closed
  | open
  | halfOpen
  deriving DecidableEq

/-- The outcomes of a request. -/
inductive Outcome where
  | success
  | failure
  deriving DecidableEq

/-- A request is shed. -/
structure BreakerOpen where
  retryAfter : ℕ

/-- The knobs of a breaker. `errorRateReached` says of a number of failures and a number
of samples whether their quotient, a floating-point number, reaches the threshold. -/
structure BreakerConfig where
  windowDuration : ℕ
  minSamples : ℕ
  errorRateReached : ℕ → ℕ → Bool
  openDuration : ℕ
  halfOpenMaxProbes : ℕ
  enabled : Bool

/-- A breaker. -/
structure CircuitBreaker where
  config : BreakerConfig
  state : BreakerState
  baseline : ℕ
  openedAtMillis : ℕ
  halfOpenProbes : ℕ
  probeClaimedAtMillis : ℕ
  isOpenFast : Bool
  window : SlidingWindow

/-- A fresh breaker, given the reading of its clock. -/
def withClock (config : BreakerConfig) (now : ℕ) : CircuitBreaker where
  config := { config with halfOpenMaxProbes := max config.halfOpenMaxProbes 1 }
  state := .closed
  baseline := now
  openedAtMillis := 0
  halfOpenProbes := 0
  probeClaimedAtMillis := 0
  isOpenFast := false
  window := {}

namespace CircuitBreaker

/-- The milliseconds since the construction. -/
def elapsedMillis (breaker : CircuitBreaker) (now : ℕ) : ℕ := asMillis (now - breaker.baseline)

/-- Whether the breaker is open, without a look at its state. -/
def isOpen (breaker : CircuitBreaker) : Bool := breaker.isOpenFast

/-- Exchange the state if it is the given one. -/
def casState (breaker : CircuitBreaker) (old new : BreakerState) : Option CircuitBreaker :=
  if breaker.state = old then some { breaker with state := new } else none

/-- The wait that is asked for when all probes are out. -/
def halfOpenProbeBackoff : ℕ := 50 * nanosPerMilli

/-- Take a probe slot, or the place of a probe that was lost. -/
def tryHalfOpenProbe (breaker : CircuitBreaker) (now : ℕ) :
    Except BreakerOpen Unit × CircuitBreaker :=
  let now := breaker.elapsedMillis now
  if breaker.halfOpenProbes < breaker.config.halfOpenMaxProbes then
    (.ok (), { breaker with
      halfOpenProbes := breaker.halfOpenProbes + 1
      probeClaimedAtMillis := now })
  else if now - breaker.probeClaimedAtMillis ≥ asMillis breaker.config.openDuration then
    (.ok (), { breaker with probeClaimedAtMillis := now })
  else (.error ⟨min halfOpenProbeBackoff breaker.config.openDuration⟩, breaker)

/-- Check an open breaker. -/
def checkOpen (breaker : CircuitBreaker) (first second : ℕ) :
    Except BreakerOpen Unit × CircuitBreaker :=
  let elapsed := (breaker.elapsedMillis first - breaker.openedAtMillis) * nanosPerMilli
  if elapsed ≥ breaker.config.openDuration then
    match breaker.casState .open .halfOpen with
    | some breaker => { breaker with isOpenFast := false }.tryHalfOpenProbe second
    | none =>
      match breaker.state with
      | .closed => (.ok (), breaker)
      | .halfOpen => breaker.tryHalfOpenProbe second
      | .open =>
        let elapsed := (breaker.elapsedMillis second - breaker.openedAtMillis) * nanosPerMilli
        (.error ⟨breaker.config.openDuration - elapsed⟩, breaker)
  else (.error ⟨breaker.config.openDuration - elapsed⟩, breaker)

/-- Whether a request may proceed. -/
def check (breaker : CircuitBreaker) (first second : ℕ) :
    Except BreakerOpen Unit × CircuitBreaker :=
  if !breaker.config.enabled then (.ok (), breaker)
  else
    match breaker.state with
    | .closed => (.ok (), breaker)
    | .open => breaker.checkOpen first second
    | .halfOpen => breaker.tryHalfOpenProbe first

/-- Open the breaker. -/
def trip (breaker : CircuitBreaker) (now : ℕ) : CircuitBreaker :=
  { breaker with
    state := .open
    openedAtMillis := breaker.elapsedMillis now
    halfOpenProbes := 0
    isOpenFast := true }

/-- Close the breaker. -/
def close (breaker : CircuitBreaker) : CircuitBreaker :=
  { breaker with
    state := .closed
    window := {}
    halfOpenProbes := 0
    isOpenFast := false }

/-- Record the outcome of a request. -/
def record (breaker : CircuitBreaker) (outcome : Outcome) (first second : ℕ) : CircuitBreaker :=
  if !breaker.config.enabled then breaker
  else
    let isFailure : Bool := outcome = .failure
    match breaker.state with
    | .closed =>
      let window :=
        (breaker.window.push isFailure first).evict breaker.config.windowDuration first
      let breaker := { breaker with window := window }
      if window.sampleCount ≥ breaker.config.minSamples &&
          breaker.config.errorRateReached window.failures window.sampleCount then
        breaker.trip second
      else breaker
    | .halfOpen => if isFailure then breaker.trip second else breaker.close
    | .open =>
      let window :=
        (breaker.window.push isFailure first).evict breaker.config.windowDuration first
      { breaker with window := window }

end CircuitBreaker

/-- A call of a breaker with the readings of its clock. -/
inductive Call where
  | check (first second : ℕ)
  | record (outcome : Outcome) (first second : ℕ)

namespace Call

/-- The first reading of the clock. -/
def first : Call → ℕ
  | .check first _ => first
  | .record _ first _ => first

/-- The last reading of the clock. -/
def last : Call → ℕ
  | .check _ second => second
  | .record _ _ second => second

/-- The clock does not go back, from an instant on. -/
def Ordered : ℕ → List Call → Prop
  | _, [] => True
  | now, call :: calls => now ≤ call.first ∧ call.first ≤ call.last ∧ Ordered call.last calls

/-- The last reading of the clock, from an instant on. -/
def lastOf : ℕ → List Call → ℕ
  | now, [] => now
  | _, call :: calls => lastOf call.last calls

end Call

namespace CircuitBreaker

/-- The breaker after a call. -/
def next (breaker : CircuitBreaker) : Call → CircuitBreaker
  | .check first second => (breaker.check first second).2
  | .record outcome first second => breaker.record outcome first second

/-- The breaker after some calls. -/
def run (breaker : CircuitBreaker) (calls : List Call) : CircuitBreaker := calls.foldl next breaker

/-- Whether a call is a check that is admitted. -/
def admits (breaker : CircuitBreaker) : Call → Bool
  | .check first second =>
    match (breaker.check first second).1 with
    | .ok () => true
    | .error _ => false
  | .record _ _ _ => false

/-- The number of checks that are admitted. -/
def admitted (breaker : CircuitBreaker) : List Call → ℕ
  | [] => 0
  | call :: calls =>
    (if breaker.admits call then 1 else 0) + (breaker.next call).admitted calls

/-- The breaker is half open after each call. -/
def StaysHalfOpen (breaker : CircuitBreaker) : List Call → Prop
  | [] => True
  | call :: calls => (breaker.next call).state = .halfOpen ∧ (breaker.next call).StaysHalfOpen calls

end CircuitBreaker

end Ezer.Breaker
