import Ezer.Lib.Decimal
import Mathlib.Algebra.Order.Group.Nat
import Mathlib.Data.List.Induction

/-!
# The rate limiter of a monitor

A bucket of tokens that are refilled one by one, and the record of the events
that found it empty: how many they are, when the last one came and since when
there are some. Times are nanoseconds.
-/

namespace Ezer.Monitor

open Lib

/-- The nanoseconds of a millisecond. -/
def nanosPerMilli : ℕ := 1000000

/-- The interval after which a token is refilled, as the record of suppressions takes it. -/
def rateLimitRefillMs : ℕ := 2000

/-- How long events may be suppressed before the monitor is stopped. -/
def autoKillThresholdMs : ℕ := 30000

/-- The number of values of a 32-bit counter. -/
def u32Count : ℕ := 2 ^ 32

/-- A bucket of tokens. -/
structure TokenBucket where
  capacity : ℕ
  tokens : ℕ
  refillIntervalMs : ℕ
  lastRefill : ℕ
  deriving DecidableEq

namespace TokenBucket

/-- A full bucket. -/
def new (capacity refillIntervalMs now : ℕ) : TokenBucket := ⟨capacity, capacity, refillIntervalMs, now⟩

/-- The interval between two refills. -/
def refillInterval (b : TokenBucket) : ℕ := b.refillIntervalMs * nanosPerMilli

/-- The refills that are due, as a 32-bit counter. -/
def refills (b : TokenBucket) (now : ℕ) : ℕ :=
  (now - b.lastRefill) / nanosPerMilli / b.refillIntervalMs % u32Count

/-- Refill a bucket. -/
def refill (b : TokenBucket) (now : ℕ) : TokenBucket :=
  if 0 < b.refills now then
    { b with
      tokens := min (min (b.tokens + b.refills now) (u32Count - 1)) b.capacity,
      lastRefill := b.lastRefill + b.refillInterval * b.refills now }
  else b

/-- Take a token, if there is one. -/
def tryConsume (b : TokenBucket) (now : ℕ) : Bool × TokenBucket :=
  let b := b.refill now
  if 0 < b.tokens then (true, { b with tokens := b.tokens - 1 }) else (false, b)

end TokenBucket

/-- What is told about the events that were suppressed before one that is not. -/
structure CatchUpNotice where
  suppressedCount : UInt64
  killName : Text
  deriving DecidableEq

/-- The text of a notice. -/
def CatchUpNotice.text (notice : CatchUpNotice) : Text :=
  "[".toList ++ digits notice.suppressedCount.toNat ++
    " events suppressed -- output rate too high. Consider using ".toList ++ notice.killName ++
    " to restart this monitor with a more selective filter.]".toList

/-- What becomes of an event. -/
inductive RateLimitOutcome where
  | allowed (catchUpNotice : Option CatchUpNotice)
  | suppressed
  | autoKill (message : Text)
  deriving DecidableEq

namespace RateLimitOutcome

/-- Whether an event is let through. -/
def isAllowed : RateLimitOutcome → Bool
  | allowed _ => true
  | _ => false

/-- Whether an event stops the monitor. -/
def isAutoKill : RateLimitOutcome → Bool
  | autoKill _ => true
  | _ => false

/-- The suppressed events that are reported with an event. -/
def reported : RateLimitOutcome → ℕ
  | allowed (some notice) => notice.suppressedCount.toNat
  | _ => 0

end RateLimitOutcome

/-- The record of the events that found the bucket empty. -/
structure SuppressionTracker where
  suppressedCount : UInt64 := 0
  lastSuppression : Option ℕ := none
  suppressionStart : Option ℕ := none
  killed : Bool := false
  killToolName : Text := []
  deriving DecidableEq

namespace SuppressionTracker

/-- The tool that is named in the notices. -/
def killName (s : SuppressionTracker) : Text :=
  if s.killToolName.isEmpty then "kill_command_or_subagent".toList else s.killToolName

/-- What is told when the monitor is stopped. -/
def killMessage (suppressedCount : UInt64) (secs : ℕ) : Text :=
  "[Monitor stopped -- your script produced too much output (".toList ++
    digits suppressedCount.toNat ++ " events suppressed over ".toList ++ digits secs ++
    ("s). Write a new monitor command that filters more aggressively -- pipe through grep " ++
      "--line-buffered, awk, or a wrapper script that only emits the specific events you need.]").toList

/-- Whether the last suppression is long enough ago for the clock to stop. -/
def subsided (s : SuppressionTracker) (now : ℕ) : Bool :=
  s.lastSuppression.any fun last => decide (rateLimitRefillMs * 3 * nanosPerMilli < now - last)

/-- Let an event through. -/
def allow (s : SuppressionTracker) (now : ℕ) : RateLimitOutcome × SuppressionTracker :=
  if 0 < s.suppressedCount then
    (.allowed (some ⟨s.suppressedCount, s.killName⟩),
      { s with
        suppressedCount := 0,
        suppressionStart := if s.subsided now then none else s.suppressionStart })
  else (.allowed none, s)

/-- Suppress an event, and stop the monitor if this goes on for too long. -/
def suppress (s : SuppressionTracker) (now : ℕ) : RateLimitOutcome × SuppressionTracker :=
  let start := s.suppressionStart.getD now
  let s :=
    { s with
      suppressedCount := s.suppressedCount + 1,
      lastSuppression := some now,
      suppressionStart := some start }
  let elapsed := now - start
  if autoKillThresholdMs * nanosPerMilli < elapsed then
    (.autoKill (killMessage s.suppressedCount (elapsed / (1000 * nanosPerMilli))),
      { s with killed := true })
  else (.suppressed, s)

/-- Record what the bucket says about an event. -/
def process (s : SuppressionTracker) (tokenAvailable : Bool) (now : ℕ) :
    RateLimitOutcome × SuppressionTracker :=
  if s.killed then (.suppressed, s)
  else if tokenAvailable then s.allow now
  else s.suppress now

end SuppressionTracker

/-- The rate limiter of a monitor. -/
structure MonitorRateLimiter where
  bucket : TokenBucket
  suppression : SuppressionTracker
  deriving DecidableEq

/-- An event, with the rate limiter that meets it and what becomes of it. -/
structure Event where
  before : MonitorRateLimiter
  time : ℕ
  outcome : RateLimitOutcome
  deriving DecidableEq

namespace MonitorRateLimiter

/-- A new rate limiter. -/
def new (capacity refillIntervalMs now : ℕ) : MonitorRateLimiter := ⟨.new capacity refillIntervalMs now, {}⟩

/-- Name the tool that stops the monitor. -/
def withKillToolName (rl : MonitorRateLimiter) (name : Text) : MonitorRateLimiter :=
  { rl with suppression := { rl.suppression with killToolName := name } }

/-- Take an event in. -/
def processEvent (rl : MonitorRateLimiter) (now : ℕ) : RateLimitOutcome × MonitorRateLimiter :=
  let (available, bucket) := rl.bucket.tryConsume now
  let (outcome, suppression) := rl.suppression.process available now
  (outcome, ⟨bucket, suppression⟩)

/-- The rate limiter after events at some times. -/
def after (rl : MonitorRateLimiter) (times : List ℕ) : MonitorRateLimiter :=
  times.foldl (fun rl now => (rl.processEvent now).2) rl

/-- What becomes of the events at some times. -/
def events (rl : MonitorRateLimiter) : List ℕ → List Event
  | [] => []
  | now :: times => ⟨rl, now, (rl.processEvent now).1⟩ :: events (rl.processEvent now).2 times

end MonitorRateLimiter

/-! ### The bucket -/

namespace TokenBucket

variable {b : TokenBucket} {now : ℕ}

/-- The refill intervals that have passed since the last refill. -/
def ticks (b : TokenBucket) (now : ℕ) : ℕ := (now - b.lastRefill) / b.refillInterval

theorem refills_eq (b : TokenBucket) (now : ℕ) : b.refills now = b.ticks now % u32Count := by
  rw [refills, ticks, refillInterval, Nat.div_div_eq_div_mul, Nat.mul_comm nanosPerMilli]

@[simp] theorem refill_capacity (b : TokenBucket) (now : ℕ) : (b.refill now).capacity = b.capacity := by
  unfold refill
  split <;> rfl

@[simp] theorem refill_refillIntervalMs (b : TokenBucket) (now : ℕ) :
    (b.refill now).refillIntervalMs = b.refillIntervalMs := by
  unfold refill
  split <;> rfl

@[simp] theorem refill_refillInterval (b : TokenBucket) (now : ℕ) :
    (b.refill now).refillInterval = b.refillInterval := by
  rw [refillInterval, refill_refillIntervalMs, refillInterval]

theorem refill_lastRefill (b : TokenBucket) (now : ℕ) :
    (b.refill now).lastRefill = b.lastRefill + b.refillInterval * b.refills now := by
  unfold refill
  split
  · rfl
  · rename_i h
    rw [Nat.eq_zero_of_not_pos h, Nat.mul_zero, Nat.add_zero]

theorem refill_tokens_le (b : TokenBucket) (now : ℕ) :
    (b.refill now).tokens ≤ b.tokens + b.refills now := by
  unfold refill
  split
  · exact (min_le_left _ _).trans (min_le_left _ _)
  · exact Nat.le_add_right _ _

theorem refill_tokens_le_capacity (h : b.tokens ≤ b.capacity) (now : ℕ) :
    (b.refill now).tokens ≤ b.capacity := by
  unfold refill
  split
  · exact min_le_right _ _
  · exact h

/-- A refill uses up as many intervals as it brings tokens. -/
theorem ticks_refill (b : TokenBucket) (now : ℕ) {t : ℕ} (hnow : now ≤ t) :
    (b.refill now).ticks t + b.refills now = b.ticks t := by
  have hle : b.refills now ≤ b.ticks t := by
    rw [refills_eq]
    exact (Nat.mod_le _ _).trans (Nat.div_le_div_right (Nat.sub_le_sub_right hnow _))
  rw [ticks, refill_lastRefill, refill_refillInterval, Nat.sub_add_eq, Nat.sub_mul_div]
  exact Nat.sub_add_cancel hle

/-- The last refill is not in the future. -/
theorem refill_lastRefill_le (h : b.lastRefill ≤ now) : (b.refill now).lastRefill ≤ now := by
  have hmul : b.refillInterval * b.refills now ≤ now - b.lastRefill := by
    rw [refills_eq]
    exact (Nat.mul_le_mul_left _ (Nat.mod_le _ _)).trans (Nat.mul_div_le _ _)
  rw [refill_lastRefill]
  omega

/-- What is due was refilled, up to rounds of the counter. -/
theorem ticks_refill_mod (b : TokenBucket) (now : ℕ) : (b.refill now).ticks now % u32Count = 0 := by
  have hsum := ticks_refill b now le_rfl
  rw [refills_eq] at hsum
  have hmod := Nat.mod_add_div (b.ticks now) u32Count
  have hmul : (b.refill now).ticks now = u32Count * (b.ticks now / u32Count) := by omega
  rw [hmul, Nat.mul_mod_right]

/-- Where nothing was due before, no more is refilled than the intervals that have passed since. -/
theorem refills_le {then' : ℕ} (h : b.ticks then' % u32Count = 0) (hle : then' ≤ now) :
    b.refills now + b.ticks then' ≤ b.ticks now := by
  have hmono : b.ticks then' ≤ b.ticks now := Nat.div_le_div_right (Nat.sub_le_sub_right hle _)
  obtain ⟨d, hd⟩ := Nat.exists_eq_add_of_le hmono
  have hmod : b.refills now = d % u32Count := by
    rw [refills_eq, hd, Nat.add_mod, h, Nat.zero_add, Nat.mod_mod]
  have hd' := Nat.mod_le d u32Count
  omega

theorem ticks_le (hinterval : 0 < b.refillInterval) (hlast : b.lastRefill ≤ now) {t : ℕ} (hle : now ≤ t) :
    b.ticks t ≤ b.ticks now + (t - now) / b.refillInterval + 1 := by
  have hsum : t - b.lastRefill = (now - b.lastRefill) + (t - now) := by omega
  unfold ticks
  rw [hsum, Nat.add_div hinterval]
  split
  · omega
  · omega

@[simp] theorem tryConsume_capacity (b : TokenBucket) (now : ℕ) :
    (b.tryConsume now).2.capacity = b.capacity := by
  unfold tryConsume
  dsimp only
  split
  · exact refill_capacity b now
  · exact refill_capacity b now

@[simp] theorem tryConsume_refillInterval (b : TokenBucket) (now : ℕ) :
    (b.tryConsume now).2.refillInterval = b.refillInterval := by
  unfold tryConsume
  dsimp only
  split
  · exact refill_refillInterval b now
  · exact refill_refillInterval b now

theorem tryConsume_lastRefill (b : TokenBucket) (now : ℕ) :
    (b.tryConsume now).2.lastRefill = (b.refill now).lastRefill := by
  unfold tryConsume
  dsimp only
  split
  · rfl
  · rfl

theorem ticks_tryConsume (b : TokenBucket) (now t : ℕ) :
    (b.tryConsume now).2.ticks t = (b.refill now).ticks t := by
  rw [ticks, ticks, tryConsume_lastRefill, tryConsume_refillInterval, refill_refillInterval]

/-- The token that is taken is gone. -/
theorem tryConsume_tokens (b : TokenBucket) (now : ℕ) :
    (b.tryConsume now).2.tokens + (b.tryConsume now).1.toNat = (b.refill now).tokens := by
  unfold tryConsume
  dsimp only
  split
  · rename_i h
    exact Nat.sub_add_cancel h
  · rfl

/-- There are never more tokens than the bucket holds. -/
theorem tryConsume_tokens_le (h : b.tokens ≤ b.capacity) :
    (b.tryConsume now).2.tokens ≤ (b.tryConsume now).2.capacity := by
  have htokens := tryConsume_tokens b now
  have hle := refill_tokens_le_capacity h now
  rw [tryConsume_capacity]
  omega

end TokenBucket

namespace MonitorRateLimiter

variable {rl : MonitorRateLimiter} {now : ℕ}

theorem processEvent_bucket (rl : MonitorRateLimiter) (now : ℕ) :
    (rl.processEvent now).2.bucket = (rl.bucket.tryConsume now).2 := rfl

theorem processEvent_outcome (rl : MonitorRateLimiter) (now : ℕ) :
    (rl.processEvent now).1 = (rl.suppression.process (rl.bucket.tryConsume now).1 now).1 := rfl

/-- An event that is let through takes a token. -/
theorem isAllowed_le (rl : MonitorRateLimiter) (now : ℕ) :
    (rl.processEvent now).1.isAllowed.toNat ≤ (rl.bucket.tryConsume now).1.toNat := by
  rw [processEvent_outcome, SuppressionTracker.process]
  split
  · exact Nat.zero_le _
  · split
    · rename_i h
      rw [h]
      exact Bool.toNat_le _
    · unfold SuppressionTracker.suppress
      dsimp only
      split
      · exact Nat.zero_le _
      · exact Nat.zero_le _

theorem after_tokens_le (h : rl.bucket.tokens ≤ rl.bucket.capacity) (times : List ℕ) :
    (rl.after times).bucket.tokens ≤ (rl.after times).bucket.capacity ∧
      (rl.after times).bucket.capacity = rl.bucket.capacity := by
  induction times generalizing rl with
  | nil => exact ⟨h, rfl⟩
  | cons now times ih =>
    have hstep : (rl.processEvent now).2.bucket.tokens ≤ (rl.processEvent now).2.bucket.capacity :=
      TokenBucket.tryConsume_tokens_le h
    obtain ⟨hle, heq⟩ := ih hstep
    exact ⟨hle, heq.trans (TokenBucket.tryConsume_capacity _ _)⟩

/-- Whether an event is let through in a window of time. -/
def allowedWithin (first last : ℕ) (e : Event) : Bool :=
  e.outcome.isAllowed && decide (first ≤ e.time) && decide (e.time ≤ last)

theorem time_mem_of_mem_events {times : List ℕ} {e : Event} (h : e ∈ rl.events times) : e.time ∈ times := by
  induction times generalizing rl with
  | nil => cases h
  | cons now times ih =>
    rcases List.mem_cons.mp h with rfl | h
    · exact List.mem_cons_self
    · exact List.mem_cons_of_mem _ (ih h)

/-- Later events are outside the window. -/
theorem countP_allowedWithin_of_lt (rl : MonitorRateLimiter) (first : ℕ) {last : ℕ} {times : List ℕ}
    (h : ∀ t ∈ times, last < t) :
    (rl.events times).countP (allowedWithin first last) = 0 := by
  rw [List.countP_eq_zero]
  intro e he hwithin
  have hlt := h e.time (time_mem_of_mem_events he)
  simp only [allowedWithin, Bool.and_eq_true, decide_eq_true_eq] at hwithin
  omega

theorem ite_allowedWithin_le (first last : ℕ) (e : Event) :
    (if allowedWithin first last e = true then 1 else 0) ≤ e.outcome.isAllowed.toNat := by
  unfold allowedWithin
  cases e.outcome.isAllowed with
  | true =>
    split
    · exact le_rfl
    · exact Nat.zero_le _
  | false => simp

/-- From when nothing more is due, the events that are let through are paid for by the tokens that are
left and the intervals that pass. -/
theorem countP_allowedWithin_le {first last : ℕ} {times : List ℕ} (hfirst : first ≤ now)
    (hlast : now ≤ last) (hrefill : rl.bucket.lastRefill ≤ now)
    (hdue : rl.bucket.ticks now % u32Count = 0) (hsorted : (now :: times).Pairwise (· ≤ ·)) :
    (rl.events times).countP (allowedWithin first last) + rl.bucket.ticks now ≤
      rl.bucket.tokens + rl.bucket.ticks last := by
  induction times generalizing rl now with
  | nil =>
    have hmono : rl.bucket.ticks now ≤ rl.bucket.ticks last :=
      Nat.div_le_div_right (Nat.sub_le_sub_right hlast _)
    rw [events, List.countP_nil]
    omega
  | cons t times ih =>
    obtain ⟨hnow, hrest⟩ := List.pairwise_cons.mp hsorted
    have hle : now ≤ t := hnow t List.mem_cons_self
    rw [events, List.countP_cons]
    by_cases ht : t ≤ last
    · have hstep := @ih (rl.processEvent t).2 t (hfirst.trans hle) ht
        (by
          rw [processEvent_bucket, TokenBucket.tryConsume_lastRefill]
          exact TokenBucket.refill_lastRefill_le (hrefill.trans hle))
        (by
          rw [processEvent_bucket, TokenBucket.ticks_tryConsume]
          exact TokenBucket.ticks_refill_mod _ _) hrest
      rw [processEvent_bucket, TokenBucket.ticks_tryConsume, TokenBucket.ticks_tryConsume] at hstep
      have hpaid := TokenBucket.refills_le hdue hle
      have htokens := TokenBucket.tryConsume_tokens rl.bucket t
      have hrefilled := TokenBucket.refill_tokens_le rl.bucket t
      have hallowed := isAllowed_le rl t
      have hat := TokenBucket.ticks_refill rl.bucket t le_rfl
      have hend := TokenBucket.ticks_refill rl.bucket t ht
      have hone := ite_allowedWithin_le first last ⟨rl, t, (rl.processEvent t).1⟩
      dsimp only at hone
      omega
    · have hlate : ∀ u ∈ t :: times, last < u := by
        intro u hu
        rcases List.mem_cons.mp hu with rfl | hu
        · exact Nat.lt_of_not_le ht
        · exact (Nat.lt_of_not_le ht).trans_le ((List.pairwise_cons.mp hrest).1 u hu)
      have hzero := countP_allowedWithin_of_lt rl first hlate
      rw [events, List.countP_cons] at hzero
      have hmono : rl.bucket.ticks now ≤ rl.bucket.ticks last :=
        Nat.div_le_div_right (Nat.sub_le_sub_right hlast _)
      omega

theorem countP_window_le {times : List ℕ} (hinterval : 0 < rl.bucket.refillInterval)
    (hcapacity : rl.bucket.tokens ≤ rl.bucket.capacity) (hrefill : ∀ t ∈ times, rl.bucket.lastRefill ≤ t)
    (hsorted : times.Pairwise (· ≤ ·)) (first length : ℕ) :
    (rl.events times).countP (allowedWithin first (first + length)) ≤
      rl.bucket.capacity + length / rl.bucket.refillInterval + 1 := by
  induction times generalizing rl with
  | nil => exact Nat.zero_le _
  | cons t times ih =>
    obtain ⟨hnow, hrest⟩ := List.pairwise_cons.mp hsorted
    have hlast : rl.bucket.lastRefill ≤ t := hrefill t List.mem_cons_self
    have hlast' : (rl.processEvent t).2.bucket.lastRefill ≤ t := by
      rw [processEvent_bucket, TokenBucket.tryConsume_lastRefill]
      exact TokenBucket.refill_lastRefill_le hlast
    have hinterval' : (rl.processEvent t).2.bucket.refillInterval = rl.bucket.refillInterval :=
      TokenBucket.tryConsume_refillInterval _ _
    rw [events, List.countP_cons]
    by_cases hbefore : t < first
    · have hstep := @ih (rl.processEvent t).2 (hinterval'.symm ▸ hinterval)
        (TokenBucket.tryConsume_tokens_le hcapacity) (fun u hu => hlast'.trans (hnow u hu)) hrest
      rw [hinterval', processEvent_bucket, TokenBucket.tryConsume_capacity] at hstep
      have hout : allowedWithin first (first + length) ⟨rl, t, (rl.processEvent t).1⟩ = false := by
        simp [allowedWithin, Nat.not_le.mpr hbefore]
      rw [hout, if_neg Bool.false_ne_true, Nat.add_zero]
      exact hstep
    · by_cases hafter : t ≤ first + length
      · have hfirst : first ≤ t := Nat.le_of_not_lt hbefore
        have hstep := @countP_allowedWithin_le (rl.processEvent t).2 t first (first + length) times hfirst hafter hlast'
          (by
            rw [processEvent_bucket, TokenBucket.ticks_tryConsume]
            exact TokenBucket.ticks_refill_mod _ _) hsorted
        have hticks := TokenBucket.ticks_le (hinterval'.symm ▸ hinterval) hlast' hafter
        rw [hinterval'] at hticks
        have hdiv : (first + length - t) / rl.bucket.refillInterval ≤ length / rl.bucket.refillInterval :=
          Nat.div_le_div_right (by omega)
        have htokens := TokenBucket.tryConsume_tokens rl.bucket t
        have hrefilled := TokenBucket.refill_tokens_le_capacity hcapacity t
        have hallowed := isAllowed_le rl t
        have hone := ite_allowedWithin_le first (first + length) ⟨rl, t, (rl.processEvent t).1⟩
        dsimp only at hone
        rw [processEvent_bucket] at hstep hticks
        omega
      · have hlate : ∀ u ∈ t :: times, first + length < u := by
          intro u hu
          rcases List.mem_cons.mp hu with rfl | hu
          · exact Nat.lt_of_not_le hafter
          · exact (Nat.lt_of_not_le hafter).trans_le (hnow u hu)
        have hzero := countP_allowedWithin_of_lt rl first hlate
        rw [events, List.countP_cons] at hzero
        rw [hzero]
        exact Nat.zero_le _

/-! ### The suppressed events -/

theorem after_concat (rl : MonitorRateLimiter) (times : List ℕ) (now : ℕ) :
    rl.after (times ++ [now]) = ((rl.after times).processEvent now).2 := by
  rw [after, List.foldl_append]
  rfl

theorem events_concat (rl : MonitorRateLimiter) (times : List ℕ) (now : ℕ) :
    rl.events (times ++ [now]) =
      rl.events times ++ [⟨rl.after times, now, ((rl.after times).processEvent now).1⟩] := by
  induction times generalizing rl with
  | nil => rfl
  | cons t times ih =>
    rw [List.cons_append, events, events, ih]
    rfl

end MonitorRateLimiter

/-- The time of the last of some events that was not let through. -/
def lastRefused : List Event → Option ℕ
  | [] => none
  | e :: events => (lastRefused events).or (if e.outcome.isAllowed then none else some e.time)

theorem lastRefused_append (xs ys : List Event) :
    lastRefused (xs ++ ys) = (lastRefused ys).or (lastRefused xs) := by
  induction xs with
  | nil => rw [List.nil_append, lastRefused, Option.or_none]
  | cons e xs ih => rw [List.cons_append, lastRefused, ih, lastRefused, Option.or_assoc]

/-- The suppressed events that were reported. -/
def reported (events : List Event) : ℕ := (events.map fun e => e.outcome.reported).sum

/-- The events that were suppressed. -/
def suppressed (events : List Event) : ℕ := events.countP fun e => !e.outcome.isAllowed

/-- The clock has run from an event on that started it, and since then no event was let through more
than three refill intervals after the one that was suppressed before it. -/
def SustainedSince (interval : ℕ) (events : List Event) (start : ℕ) : Prop :=
  ∃ early first since, events = early ++ first :: since ∧ first.time = start ∧
    first.outcome.isAllowed = false ∧ first.before.suppression.suppressionStart = none ∧
    (∀ e ∈ since, e.before.suppression.suppressionStart = some start) ∧
    ∀ before e behind, first :: since = before ++ e :: behind → e.outcome.isAllowed = true →
      ∀ last, lastRefused before = some last → e.time ≤ last + 3 * interval

/-- The monitor is stopped only after thirty seconds of sustained overload. -/
def KilledForOverload (interval : ℕ) (events : List Event) : Prop :=
  ∀ before kill behind, events = before ++ kill :: behind → kill.outcome.isAutoKill = true →
    ∃ start, kill.before.suppression.suppressionStart = some start ∧
      SustainedSince interval before start ∧ start + autoKillThresholdMs * nanosPerMilli < kill.time

/-- An event is met with care: the monitor is not stopped yet, the count does not overflow, and if
the event is let through late while the clock runs, the clock is stopped. -/
def Event.Heeded (interval : ℕ) (e : Event) : Prop :=
  e.before.suppression.killed = false ∧
    e.before.suppression.suppressedCount.toNat + 1 < usizeCount ∧
    ((e.before.bucket.tryConsume e.time).1 = true →
      e.before.suppression.suppressionStart.isSome = true →
      ∀ last ∈ e.before.suppression.lastSuppression, last + 3 * interval < e.time →
        0 < e.before.suppression.suppressedCount ∧ e.before.suppression.subsided e.time = true)

instance (interval : ℕ) (e : Event) : Decidable (e.Heeded interval) := by
  unfold Event.Heeded
  infer_instance

/-- What the record says about the events so far. -/
structure Records (interval : ℕ) (events : List Event) (s : SuppressionTracker) : Prop where
  last : s.lastSuppression = lastRefused events
  clock : ∀ start, s.suppressionStart = some start → SustainedSince interval events start
  count : reported events + s.suppressedCount.toNat = suppressed events

/-- The clock goes on with an event that is not late. -/
theorem SustainedSince.concat {interval start : ℕ} {events : List Event} {e : Event}
    (h : SustainedSince interval events start) (hclock : e.before.suppression.suppressionStart = some start)
    (htime : e.outcome.isAllowed = true →
      ∀ last, lastRefused events = some last → e.time ≤ last + 3 * interval) :
    SustainedSince interval (events ++ [e]) start := by
  obtain ⟨early, first, since, rfl, hfirst, hrefused, hstopped, hrunning, hsustained⟩ := h
  refine ⟨early, first, since ++ [e], by simp, hfirst, hrefused, hstopped, ?_, ?_⟩
  · intro x hx
    rcases List.mem_append.mp hx with hx | hx
    · exact hrunning x hx
    · rw [List.mem_singleton.mp hx]
      exact hclock
  · intro before x behind hsplit hallowed last hlast
    rcases List.eq_nil_or_concat behind with rfl | ⟨behind, y, rfl⟩
    · rw [← List.cons_append] at hsplit
      obtain ⟨hbefore, hx⟩ := List.append_inj' hsplit rfl
      obtain rfl := (List.cons_eq_cons.mp hx).1
      refine htime hallowed last ?_
      rw [lastRefused_append, hbefore, hlast, Option.some_or]
    · rw [List.concat_eq_append, ← List.cons_append, ← List.cons_append, ← List.append_assoc] at hsplit
      exact hsustained before x behind (List.append_inj' hsplit rfl).1 hallowed last hlast

theorem sustainedSince_concat {interval : ℕ} {events : List Event} {e : Event}
    (hrefused : e.outcome.isAllowed = false) (hstopped : e.before.suppression.suppressionStart = none) :
    SustainedSince interval (events ++ [e]) e.time := by
  refine ⟨events, e, [], rfl, rfl, hrefused, hstopped, nofun, ?_⟩
  intro before x behind hsplit hallowed
  cases before with
  | nil =>
    obtain ⟨rfl, -⟩ := List.cons_eq_cons.mp hsplit
    rw [hrefused] at hallowed
    cases hallowed
  | cons y before =>
    have hlen := congrArg List.length hsplit
    simp at hlen

theorem reported_concat (events : List Event) (e : Event) :
    reported (events ++ [e]) = reported events + e.outcome.reported := by
  simp [reported]

theorem suppressed_concat (events : List Event) (e : Event) :
    suppressed (events ++ [e]) = suppressed events + (!e.outcome.isAllowed).toNat := by
  cases h : e.outcome.isAllowed <;> simp [suppressed, h]

theorem lastRefused_concat (events : List Event) (e : Event) :
    lastRefused (events ++ [e]) = if e.outcome.isAllowed then lastRefused events else some e.time := by
  rw [lastRefused_append, lastRefused, lastRefused, Option.none_or]
  split
  · exact Option.none_or
  · rfl

/-- The clock keeps its start while an event that is not late is let through. -/
theorem Records.concat_allowed {interval : ℕ} {events : List Event} {s s' : SuppressionTracker} {e : Event}
    (h : Records interval events s) (hbefore : e.before.suppression = s)
    (hallowed : e.outcome.isAllowed = true) (hlast : s'.lastSuppression = s.lastSuppression)
    (hclock : ∀ start, s'.suppressionStart = some start → s.suppressionStart = some start ∧
      ∀ last, s.lastSuppression = some last → e.time ≤ last + 3 * interval)
    (hcount : e.outcome.reported + s'.suppressedCount.toNat = s.suppressedCount.toNat) :
    Records interval (events ++ [e]) s' where
  last := by rw [lastRefused_concat, if_pos hallowed, hlast, h.last]
  clock := by
    intro start hstart
    obtain ⟨hrunning, htime⟩ := hclock start hstart
    refine (h.clock start hrunning).concat (hbefore ▸ hrunning) fun _ last hrefused => ?_
    exact htime last (h.last.trans hrefused)
  count := by
    have hprev := h.count
    rw [reported_concat, suppressed_concat, hallowed]
    change _ = suppressed events + 0
    omega

/-- An event that is let through is recorded. -/
theorem Records.allow {interval now : ℕ} {events : List Event} {rl : MonitorRateLimiter}
    (h : Records interval events rl.suppression)
    (hheeded : ∀ start last, rl.suppression.suppressionStart = some start →
      rl.suppression.lastSuppression = some last → last + 3 * interval < now →
        0 < rl.suppression.suppressedCount ∧ rl.suppression.subsided now = true) :
    Records interval (events ++ [⟨rl, now, (rl.suppression.allow now).1⟩])
      (rl.suppression.allow now).2 := by
  unfold SuppressionTracker.allow
  split
  · rename_i hcount
    refine h.concat_allowed rfl rfl rfl ?_ ?_
    · intro start hstart
      dsimp only at hstart
      split at hstart
      · cases hstart
      · rename_i hsubsided
        refine ⟨hstart, fun last hlast => ?_⟩
        by_contra hlate
        exact hsubsided (hheeded start last hstart hlast (Nat.lt_of_not_le hlate)).2
    · exact Nat.add_zero _
  · rename_i hcount
    refine h.concat_allowed rfl rfl rfl ?_ (Nat.zero_add _)
    intro start hstart
    refine ⟨hstart, fun last hlast => ?_⟩
    by_contra hlate
    exact hcount (hheeded start last hstart hlast (Nat.lt_of_not_le hlate)).1

theorem isAllowed_suppress (s : SuppressionTracker) (now : ℕ) : (s.suppress now).1.isAllowed = false := by
  unfold SuppressionTracker.suppress
  dsimp only
  split
  · rfl
  · rfl

theorem reported_suppress (s : SuppressionTracker) (now : ℕ) : (s.suppress now).1.reported = 0 := by
  unfold SuppressionTracker.suppress
  dsimp only
  split
  · rfl
  · rfl

/-- What a suppressed event leaves in the record. -/
theorem suppress_fields (s : SuppressionTracker) (now : ℕ) :
    (s.suppress now).2.lastSuppression = some now ∧
      (s.suppress now).2.suppressionStart = some (s.suppressionStart.getD now) ∧
      (s.suppress now).2.suppressedCount = s.suppressedCount + 1 := by
  unfold SuppressionTracker.suppress
  dsimp only
  split
  · exact ⟨rfl, rfl, rfl⟩
  · exact ⟨rfl, rfl, rfl⟩

/-- A suppressed event is recorded. -/
theorem Records.suppress {interval now : ℕ} {events : List Event} {rl : MonitorRateLimiter}
    (h : Records interval events rl.suppression)
    (hcount : rl.suppression.suppressedCount.toNat + 1 < usizeCount) :
    Records interval (events ++ [⟨rl, now, (rl.suppression.suppress now).1⟩])
      (rl.suppression.suppress now).2 := by
  have hrefused := isAllowed_suppress rl.suppression now
  obtain ⟨hlast, hstart, hincrement⟩ := suppress_fields rl.suppression now
  constructor
  · rw [hlast, lastRefused_concat, hrefused, if_neg Bool.false_ne_true]
  · intro start hclock
    rw [hstart, Option.some.injEq] at hclock
    cases hbefore : rl.suppression.suppressionStart with
    | none =>
      rw [hbefore] at hclock
      obtain rfl : now = start := hclock
      exact sustainedSince_concat hrefused hbefore
    | some started =>
      rw [hbefore] at hclock
      obtain rfl : started = start := hclock
      refine (h.clock started hbefore).concat hbefore fun hallowed => ?_
      rw [hrefused] at hallowed
      cases hallowed
  · have hprev := h.count
    have hadd : (rl.suppression.suppressedCount + 1).toNat = rl.suppression.suppressedCount.toNat + 1 := by
      have hone : (1 : UInt64).toNat = 1 := rfl
      unfold usizeCount at hcount
      rw [UInt64.toNat_add, hone, Nat.mod_eq_of_lt hcount]
    rw [reported_concat, suppressed_concat, hrefused, reported_suppress, hincrement, hadd]
    change _ = suppressed events + 1
    omega

/-- The monitor is stopped only if the clock has run for too long. -/
theorem lt_of_isAutoKill {s : SuppressionTracker} {now : ℕ} (h : (s.suppress now).1.isAutoKill = true) :
    ∃ start, s.suppressionStart = some start ∧ start + autoKillThresholdMs * nanosPerMilli < now := by
  unfold SuppressionTracker.suppress at h
  dsimp only at h
  split at h
  · rename_i helapsed
    cases hstart : s.suppressionStart with
    | none =>
      rw [hstart, Option.getD_none, Nat.sub_self] at helapsed
      exact absurd helapsed (Nat.not_lt_zero _)
    | some start =>
      rw [hstart, Option.getD_some] at helapsed
      exact ⟨start, rfl, by omega⟩
  · cases h

theorem isAutoKill_allow (s : SuppressionTracker) (now : ℕ) : (s.allow now).1.isAutoKill = false := by
  unfold SuppressionTracker.allow
  split
  · rfl
  · rfl

/-- One event: what the record says stays true, and the monitor is stopped only for overload. -/
theorem Records.processEvent {interval now : ℕ} {events : List Event} {rl : MonitorRateLimiter}
    (h : Records interval events rl.suppression)
    (hheeded : Event.Heeded interval ⟨rl, now, (rl.processEvent now).1⟩) :
    Records interval (events ++ [⟨rl, now, (rl.processEvent now).1⟩]) (rl.processEvent now).2.suppression ∧
      ((rl.processEvent now).1.isAutoKill = true →
        ∃ start, rl.suppression.suppressionStart = some start ∧
          start + autoKillThresholdMs * nanosPerMilli < now) := by
  obtain ⟨hkilled, hcount, hlate⟩ := hheeded
  have hprocess : rl.processEvent now =
      ((rl.suppression.process (rl.bucket.tryConsume now).1 now).1,
        ⟨(rl.bucket.tryConsume now).2, (rl.suppression.process (rl.bucket.tryConsume now).1 now).2⟩) := rfl
  rw [hprocess]
  unfold SuppressionTracker.process
  dsimp only at hkilled hcount hlate ⊢
  rw [hkilled, if_neg Bool.false_ne_true]
  cases havailable : (rl.bucket.tryConsume now).1 with
  | true =>
    rw [if_pos rfl]
    refine ⟨h.allow fun start last hstart hlast => ?_, fun hkill => ?_⟩
    · exact hlate havailable (by rw [hstart]; rfl) last hlast
    · rw [isAutoKill_allow] at hkill
      cases hkill
  | false =>
    rw [if_neg Bool.false_ne_true]
    exact ⟨h.suppress hcount, lt_of_isAutoKill⟩

/-- Over events that are all met with care, what the record says stays true, and the monitor is
stopped only for overload. -/
theorem records_after {interval capacity refillIntervalMs created : ℕ} {name : Text} (times : List ℕ) :
    let rl := (MonitorRateLimiter.new capacity refillIntervalMs created).withKillToolName name
    (∀ e ∈ rl.events times, e.Heeded interval) →
      Records interval (rl.events times) (rl.after times).suppression ∧
        KilledForOverload interval (rl.events times) := by
  intro rl
  induction times using List.reverseRecOn with
  | nil =>
    intro _
    refine ⟨⟨rfl, nofun, rfl⟩, ?_⟩
    intro before kill behind hsplit
    cases before <;> cases hsplit
  | append_singleton times now ih =>
    intro hheeded
    rw [MonitorRateLimiter.events_concat] at hheeded
    rw [MonitorRateLimiter.events_concat, MonitorRateLimiter.after_concat]
    obtain ⟨hrecords, hkilled⟩ := ih fun e he => hheeded e (List.mem_append_left _ he)
    obtain ⟨hnext, hkill⟩ :=
      hrecords.processEvent (hheeded _ (List.mem_append_right _ (List.mem_singleton_self _)))
    refine ⟨hnext, ?_⟩
    intro before kill behind hsplit hauto
    rcases List.eq_nil_or_concat behind with rfl | ⟨behind, y, rfl⟩
    · obtain ⟨rfl, hx⟩ := List.append_inj' hsplit rfl
      obtain rfl := (List.cons_eq_cons.mp hx).1
      obtain ⟨start, hstart, hlong⟩ := hkill hauto
      exact ⟨start, hstart, hrecords.clock start hstart, hlong⟩
    · rw [List.concat_eq_append, ← List.cons_append, ← List.append_assoc] at hsplit
      exact hkilled before kill behind (List.append_inj' hsplit rfl).1 hauto

/-- In every run of the rate limiter, the window of time and the capacity bound what is let through;
over events that are all met with care, the suppressed events are reported or still counted, and the
monitor is stopped only for overload. -/
theorem rateLimiter_run {refillIntervalMs created : ℕ} {times : List ℕ} (capacity : ℕ) (name : Text)
    (hinterval : 1 ≤ refillIntervalMs) (hsorted : (created :: times).Pairwise (· ≤ ·)) :
    let rl := (MonitorRateLimiter.new capacity refillIntervalMs created).withKillToolName name
    let interval := refillIntervalMs * nanosPerMilli
    (∀ first length, (rl.events times).countP (MonitorRateLimiter.allowedWithin first (first + length)) ≤
        capacity + length / interval + 1) ∧
      (rl.after times).bucket.tokens ≤ capacity ∧
      ((∀ e ∈ rl.events times, e.Heeded interval) →
        reported (rl.events times) + (rl.after times).suppression.suppressedCount.toNat =
            suppressed (rl.events times) ∧
          KilledForOverload interval (rl.events times)) := by
  intro rl interval
  obtain ⟨hcreated, hrest⟩ := List.pairwise_cons.mp hsorted
  have hpos : 0 < rl.bucket.refillInterval := Nat.mul_pos hinterval (by decide)
  obtain ⟨htokens, hcapacity⟩ := @MonitorRateLimiter.after_tokens_le rl le_rfl times
  refine ⟨MonitorRateLimiter.countP_window_le hpos le_rfl hcreated hrest, htokens.trans_eq hcapacity, ?_⟩
  intro hheeded
  obtain ⟨hrecords, hkilled⟩ := records_after times hheeded
  exact ⟨hrecords.count, hkilled⟩

/-- The seconds of a run. -/
private def seconds (s : ℕ) : ℕ := s * (1000 * nanosPerMilli)

/-- A rate limiter without tokens. -/
private def emptyLimiter : MonitorRateLimiter := (MonitorRateLimiter.new 0 2000 0).withKillToolName []

private theorem emptyLimiter_heeded :
    ∀ e ∈ emptyLimiter.events [seconds 1, seconds 2, seconds 32], e.Heeded (2000 * nanosPerMilli) := by
  decide

/-- A bucket without tokens suppresses everything, and the monitor is stopped. -/
theorem empty_rateLimiter_run :
    (emptyLimiter.events [seconds 1, seconds 2, seconds 32]).map (·.outcome.isAutoKill) =
        [false, false, true] ∧
      KilledForOverload (2000 * nanosPerMilli) (emptyLimiter.events [seconds 1, seconds 2, seconds 32]) := by
  have hrun := @rateLimiter_run 2000 0 [seconds 1, seconds 2, seconds 32] 0 [] (by decide) (by decide)
  exact ⟨by decide, (hrun.2.2 emptyLimiter_heeded).2⟩

/-- The events of a short overload, a quiet period and another overload. -/
private def quietEvents : List Event :=
  ((MonitorRateLimiter.new 1 2000 0).withKillToolName []).events
    [0, 0, seconds 2, seconds 20, seconds 31, seconds 31]

/-- An event is suppressed at the start, the overload is over after two seconds, an event is let
through after twenty, and one that is suppressed after thirty-one seconds stops the monitor. -/
theorem not_killedForOverload :
    ¬ KilledForOverload (2000 * nanosPerMilli)
      (((MonitorRateLimiter.new 1 2000 0).withKillToolName []).events
        [0, 0, seconds 2, seconds 20, seconds 31, seconds 31]) := by
  intro h
  change KilledForOverload _ quietEvents at h
  let kill : Event := quietEvents.get ⟨5, by decide⟩
  obtain ⟨start, -, ⟨early, first, since, hsplit, -, hrefused, hstopped, -, hsustained⟩, -⟩ :=
    h (quietEvents.take 5) kill [] (by decide +kernel) (by decide +kernel)
  -- the clock was started by the second event
  have hstarted : ∀ n < 5, ∀ e ∈ (quietEvents.take 5)[n]?, e.outcome.isAllowed = false →
      e.before.suppression.suppressionStart = none → n = 1 := by decide
  have hlen : early.length < 5 := by
    have hlen := congrArg List.length hsplit
    rw [List.length_append, List.length_cons] at hlen
    have h5 : (quietEvents.take 5).length = 5 := by decide
    omega
  have hone := hstarted early.length hlen first (by rw [hsplit]; simp) hrefused hstopped
  have hrest : first :: since = (quietEvents.take 5).drop 1 := by
    rw [hsplit, ← hone, List.drop_left]
  rw [hrest] at hsustained
  let late : Event := quietEvents.get ⟨3, by decide⟩
  have htime := hsustained ((quietEvents.take 3).drop 1) late ((quietEvents.take 5).drop 4) (by decide)
    (by decide) 0 (by decide)
  exact absurd htime (by decide)

end Ezer.Monitor
