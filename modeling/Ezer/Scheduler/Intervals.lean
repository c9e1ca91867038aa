import Ezer.Lib.Decimal
import Ezer.Lib.Slices
import Ezer.Lib.Trim
import Ezer.Scheduler.Actor
import Mathlib.Algebra.Group.Int.Defs

/-!
# Intervals of scheduled tasks

The intervals the user writes, and the times at which a task with such an
interval fires. Cutting a text inside a character, a duration of too many
seconds and a date beyond the calendar are panics; here they have no result.
-/

namespace Ezer.Scheduler

open Lib

/-- The dates there are, from the first to the last nanosecond. -/
structure Calendar where
  first : ℤ
  last : ℤ

namespace Calendar

variable (cal : Calendar)

/-- A date of the calendar. -/
abbrev DateTime : Type := { t : ℤ // cal.first ≤ t ∧ t ≤ cal.last }

/-- The date at a point of time. -/
def date (t : ℤ) : Option cal.DateTime := if h : cal.first ≤ t ∧ t ≤ cal.last then some ⟨t, h⟩ else none

variable {cal}

theorem date_of_mem {t : ℤ} (h : cal.first ≤ t ∧ t ≤ cal.last) : cal.date t = some ⟨t, h⟩ := dif_pos h

theorem date_eq_some_iff {t : ℤ} {d : cal.DateTime} : cal.date t = some d ↔ d.1 = t := by
  constructor
  · intro h
    unfold date at h
    split at h
    · cases h
      rfl
    · cases h
  · rintro rfl
    exact date_of_mem d.2

end Calendar

/-- The largest signed machine word. -/
def i64Max : ℤ := 2 ^ 63 - 1

/-- A machine word read as a signed one. -/
def asI64 (n : UInt64) : ℤ := n.toBitVec.toInt

/-- A duration of some seconds. -/
def durationSeconds (secs : ℤ) : Option ℤ :=
  if -(i64Max / 1000) ≤ secs ∧ secs ≤ i64Max / 1000 then
    some (ScheduledTask.unitsPerSecond * secs)
  else none

/-- A small number of seconds stays what it is. -/
theorem asI64_of_le {n : UInt64} (h : (n.toNat : ℤ) ≤ i64Max) : asI64 n = n.toNat := by
  have hlt : 2 * n.toBitVec.toNat < 2 ^ 64 := by
    rw [UInt64.toNat_toBitVec]
    unfold i64Max at h
    omega
  rw [asI64, BitVec.toInt_eq_toNat_of_lt hlt, UInt64.toNat_toBitVec]

/-- A large number of seconds turns negative. -/
theorem asI64_of_lt {n : UInt64} (h : i64Max < n.toNat) : asI64 n < 0 := by
  have hlt := n.toNat_lt
  unfold i64Max at h
  rw [asI64, BitVec.toInt_eq_toNat_cond, UInt64.toNat_toBitVec, if_neg (by omega)]
  omega

/-- A duration as long as the number of seconds says. -/
theorem durationSeconds_asI64 {n : UInt64} (h : (n.toNat : ℤ) ≤ i64Max / 1000) :
    durationSeconds (asI64 n) = some (ScheduledTask.unitsPerSecond * n.toNat) := by
  have hle : (n.toNat : ℤ) ≤ i64Max := by
    unfold i64Max at h ⊢
    omega
  rw [asI64_of_le hle, durationSeconds, if_pos]
  refine ⟨?_, h⟩
  unfold i64Max
  omega

/-- Otherwise there is none, or a negative one. -/
theorem durationSeconds_of_lt {n : UInt64} (h : i64Max / 1000 < n.toNat) {d : ℤ}
    (hd : durationSeconds (asI64 n) = some d) : d < 0 := by
  unfold durationSeconds at hd
  split at hd
  · rename_i hrange
    obtain rfl := Option.some.inj hd
    by_cases hle : (n.toNat : ℤ) ≤ i64Max
    · rw [asI64_of_le hle] at hrange
      omega
    · have hneg := asI64_of_lt (Int.not_le.mp hle)
      unfold ScheduledTask.unitsPerSecond
      omega
  · cases hd

/-- What is wrong with an interval. -/
structure InvalidInterval where
  message : Text
  deriving DecidableEq

/-- The shortest interval. -/
def minimumIntervalSecs : ℕ := 60

/-- The seconds of a unit. -/
def unitSecs (suffix : Text) : Option ℕ :=
  if suffix = ['s'] then some 1
  else if suffix = ['m'] then some 60
  else if suffix = ['h'] then some 3600
  else if suffix = ['d'] then some 86400
  else none

/-- A product that is a machine word. -/
def checkedMul (a b : ℕ) : Option ℕ := if a * b < usizeCount then some (a * b) else none

section Parsing

-- how a text is written in a message
variable (debug : Text → Text)

/-- The seconds of an interval, once its number and its unit are apart. -/
def intervalSecs (s digits suffix : Text) : Except InvalidInterval UInt64 :=
  match parseUsize digits with
  | none =>
    .error ⟨"invalid interval format: ".toList ++ debug s ++ " (expected e.g. 5m, 2h, 1d)".toList⟩
  | some value =>
    if value = 0 then .error ⟨"interval value must be greater than 0".toList⟩
    else
      match unitSecs suffix with
      | none =>
        .error ⟨"invalid interval suffix: ".toList ++ debug suffix ++
          " (expected s, m, h, or d)".toList⟩
      | some unit =>
        match checkedMul value unit with
        | none => .error ⟨"interval too large: ".toList ++ debug s⟩
        | some secs => .ok (UInt64.ofNat (max secs minimumIntervalSecs))

/-- Read an interval. -/
def parseInterval (s : Text) : Option (Except InvalidInterval UInt64) :=
  let s := trim s
  if s.isEmpty then some (.error ⟨"interval cannot be empty".toList⟩)
  else
    match splitBytes (byteLen s - 1) s with
    | none => none
    | some (digits, suffix) => some (intervalSecs debug s digits suffix)

end Parsing

/-- An interval stands for a number of seconds: it is a number and a unit, and their product is a
machine word. -/
def StandsFor (s : Text) (secs : ℕ) : Prop :=
  ∃ digits unit value factor, trim s = digits ++ [unit] ∧ parseUsize digits = some value ∧ value ≠ 0 ∧
    unitSecs [unit] = some factor ∧ value * factor < usizeCount ∧
    secs = max (value * factor) minimumIntervalSecs

/-- A text that is not blank ends with a character of one byte. -/
def EndsInByte (s : Text) : Prop := ∀ c ∈ (trim s).getLast?, c.utf8Size = 1

/-- The last byte of a text can be cut off where it is a character. -/
theorem splitBytes_last {t : Text} (c : Char) :
    splitBytes (byteLen (t ++ [c]) - 1) (t ++ [c]) = if c.utf8Size = 1 then some (t, [c]) else none := by
  have hlen : byteLen (t ++ [c]) = byteLen t + c.utf8Size := by
    rw [byteLen_append, byteLen_cons, byteLen_nil, Nat.add_zero]
  split
  · rename_i hone
    rw [hlen, hone, Nat.add_sub_cancel, splitBytes_append]
  · rename_i hmore
    rw [Option.eq_none_iff_forall_ne_some]
    rintro ⟨u, v⟩ hsplit
    obtain ⟨heq, hu⟩ := splitBytes_eq_some_iff.mp hsplit
    have hpos := Char.utf8Size_pos c
    have hv : byteLen v = 1 := by
      have hsum := congrArg byteLen heq
      rw [byteLen_append u v] at hsum
      omega
    rcases List.eq_nil_or_concat v with rfl | ⟨v, d, rfl⟩
    · rw [byteLen_nil] at hv
      omega
    · rw [List.concat_eq_append] at heq hv
      rw [← List.append_assoc] at heq
      obtain ⟨-, hcd⟩ := List.append_inj' heq rfl
      obtain rfl := (List.cons_eq_cons.mp hcd).1
      rw [byteLen_append, byteLen_cons, byteLen_nil] at hv
      omega

/-- An interval is read, or refused, unless its last character is longer than a byte. -/
theorem parseInterval_ne_none_iff (debug : Text → Text) (s : Text) :
    parseInterval debug s ≠ none ↔ EndsInByte s := by
  unfold parseInterval EndsInByte
  rcases List.eq_nil_or_concat (trim s) with hnil | ⟨t, c, hconcat⟩
  · simp [hnil]
  · rw [List.concat_eq_append] at hconcat
    simp only [hconcat, splitBytes_last]
    by_cases hone : c.utf8Size = 1
    · simp [hone]
    · simp [hone]

/-- The seconds are a machine word. -/
theorem StandsFor.lt {s : Text} {secs : ℕ} (h : StandsFor s secs) : secs < usizeCount := by
  obtain ⟨_, _, _, _, -, -, -, -, hlt, rfl⟩ := h
  unfold minimumIntervalSecs usizeCount at *
  omega

theorem utf8Size_of_unitSecs {unit : Char} {factor : ℕ} (h : unitSecs [unit] = some factor) :
    unit.utf8Size = 1 := by
  unfold unitSecs at h
  split_ifs at h with hs hm hh hd
  · cases hs
    rfl
  · cases hm
    rfl
  · cases hh
    rfl
  · cases hd
    rfl

/-- The number and the unit make an interval. -/
theorem intervalSecs_ok_iff (debug : Text → Text) (s digits suffix : Text) (secs : UInt64) :
    intervalSecs debug s digits suffix = .ok secs ↔
      ∃ value factor, parseUsize digits = some value ∧ value ≠ 0 ∧ unitSecs suffix = some factor ∧
        value * factor < usizeCount ∧ secs.toNat = max (value * factor) minimumIntervalSecs := by
  constructor
  · intro h
    unfold intervalSecs at h
    split at h
    · cases h
    · rename_i value hvalue
      split at h
      · cases h
      · rename_i hne
        split at h
        · cases h
        · rename_i factor hfactor
          unfold checkedMul at h
          split at h
          · cases h
          · rename_i product hproduct
            split at hproduct
            · rename_i hlt
              cases hproduct
              cases h
              refine ⟨value, factor, hvalue, hne, hfactor, hlt, UInt64.toNat_ofNat_of_lt' ?_⟩
              change _ < usizeCount
              exact max_lt hlt (by decide)
            · cases hproduct
  · rintro ⟨value, factor, hvalue, hne, hfactor, hlt, hsecs⟩
    unfold intervalSecs
    rw [hvalue]
    dsimp only
    rw [if_neg hne, hfactor]
    dsimp only
    rw [checkedMul, if_pos hlt]
    dsimp only
    rw [← hsecs, UInt64.ofNat_toNat]

/-- An interval is accepted for the seconds it stands for. -/
theorem parseInterval_ok_iff (debug : Text → Text) (s : Text) (secs : UInt64) :
    parseInterval debug s = some (.ok secs) ↔ StandsFor s secs.toNat := by
  constructor
  · intro h
    unfold parseInterval at h
    rcases List.eq_nil_or_concat (trim s) with hnil | ⟨digits, unit, hconcat⟩
    · simp [hnil] at h
    · rw [List.concat_eq_append] at hconcat
      simp only [hconcat, splitBytes_last] at h
      split at h
      · simp at h
      · split at h
        · cases h
        · rename_i hsplit
          split at hsplit
          · cases hsplit
            obtain ⟨value, factor, hvalue, hne, hfactor, hlt, hsecs⟩ :=
              (intervalSecs_ok_iff _ _ _ _ _).mp (Option.some.inj h)
            exact ⟨digits, unit, value, factor, hconcat, hvalue, hne, hfactor, hlt, hsecs⟩
          · cases hsplit
  · rintro ⟨digits, unit, value, factor, htrim, hvalue, hne, hfactor, hlt, hsecs⟩
    have hempty : (digits ++ [unit]).isEmpty = false := by simp
    have hok : intervalSecs debug (digits ++ [unit]) digits [unit] = .ok secs :=
      (intervalSecs_ok_iff _ _ _ _ _).mpr ⟨value, factor, hvalue, hne, hfactor, hlt, hsecs⟩
    unfold parseInterval
    dsimp only
    rw [htrim, hempty, splitBytes_last, if_pos (utf8Size_of_unitSecs hfactor)]
    dsimp only
    rw [hok]
    rfl

/-! ### The times of a task -/

namespace ScheduledTask

variable {τ : Type}

/-- The time the next fire is counted from. -/
def anchor (task : ScheduledTask τ) : τ := task.lastFiredAt.getD task.createdAt

end ScheduledTask

/-- The days a recurring task lives. -/
def recurringTaskTtlDays : ℤ := 7

namespace Calendar

open ScheduledTask

variable {cal : Calendar}

/-- The life of a recurring task. -/
def ttl : ℤ := unitsPerSecond * (86400 * recurringTaskTtlDays)

/-- When a new task was created; one that is to fire immediately is created in the past. -/
def creation (intervalSecs : UInt64) (fireImmediately : Bool) (now : cal.DateTime) :
    Option cal.DateTime :=
  if fireImmediately then do
    let interval ← durationSeconds (asI64 intervalSecs)
    cal.date (now.1 - interval)
  else some now

/-- When a new task ends, if it does. -/
def expiry (recurring : Bool) (now : cal.DateTime) : Option (Option cal.DateTime) :=
  if recurring then (cal.date (now.1 + ttl)).map some else some none

/-- A new task. -/
def withFireImmediately (cal : Calendar) (id : String) (intervalSecs : UInt64) (prompt : String)
    (recurring durable fireImmediately : Bool) (now : cal.DateTime) :
    Option (ScheduledTask cal.DateTime) := do
  let createdAt ← creation intervalSecs fireImmediately now
  let expiresAt ← expiry recurring now
  return {
    id, intervalSecs, prompt, recurring, durable, createdAt, lastFiredAt := none, expiresAt,
    lastSubagentId := none, iterationsSinceFresh := 0, chainResetPending := false }

/-- When a task fires next. -/
def nextFireAt (task : ScheduledTask cal.DateTime) : Option cal.DateTime := do
  let interval ← durationSeconds (asI64 task.intervalSecs)
  cal.date (task.anchor.1 + interval)

/-- When the actor must wake up for a task: for its next fire or for its end. -/
def nextWakeAt (task : ScheduledTask cal.DateTime) : Option cal.DateTime :=
  match task.expiresAt with
  | some expiresAt => (nextFireAt task).map fun fireAt => min fireAt expiresAt
  | none => nextFireAt task

/-- A task whose interval is changed in place; where its next fire has passed by now, it counts
from a later reading of the clock. -/
def withInterval (task : ScheduledTask cal.DateTime) (intervalSecs : UInt64)
    (now later : cal.DateTime) : Option (ScheduledTask cal.DateTime) := do
  let timed := { task with intervalSecs }
  let fireAt ← nextFireAt timed
  return if fireAt.1 ≤ now.1 then { timed with lastFiredAt := some later } else timed

/-- The next fire of a task is as many seconds after its anchor as the interval says. -/
def FiresAfter (task : ScheduledTask cal.DateTime) (secs : ℕ) : Prop :=
  (∃ fireAt, nextFireAt task = some fireAt ∧ fireAt.1 = task.anchor.1 + unitsPerSecond * secs) ∧
    (nextWakeAt task).isSome

theorem isSome_nextWakeAt (task : ScheduledTask cal.DateTime) :
    (nextWakeAt task).isSome = (nextFireAt task).isSome := by
  unfold nextWakeAt
  split
  · rw [Option.isSome_map]
  · rfl

/-- A task fires as its interval says if the interval is a duration and its end is a date. -/
theorem firesAfter_iff (task : ScheduledTask cal.DateTime) :
    FiresAfter task task.intervalSecs.toNat ↔
      (task.intervalSecs.toNat : ℤ) ≤ i64Max / 1000 ∧
        task.anchor.1 + unitsPerSecond * task.intervalSecs.toNat ≤ cal.last := by
  constructor
  · rintro ⟨⟨fireAt, hfire, hsum⟩, -⟩
    refine ⟨?_, hsum ▸ fireAt.2.2⟩
    by_contra hlt
    unfold nextFireAt at hfire
    obtain ⟨d, hd, hdate⟩ := Option.bind_eq_some_iff.mp hfire
    have hneg := durationSeconds_of_lt (Int.not_le.mp hlt) hd
    rw [date_eq_some_iff] at hdate
    unfold unitsPerSecond at hsum
    omega
  · rintro ⟨hsecs, hlast⟩
    have hfirst := task.anchor.2.1
    have hmem : cal.first ≤ task.anchor.1 + unitsPerSecond * task.intervalSecs.toNat ∧
        task.anchor.1 + unitsPerSecond * task.intervalSecs.toNat ≤ cal.last := by
      refine ⟨?_, hlast⟩
      unfold unitsPerSecond
      omega
    have hfire : nextFireAt task = some ⟨_, hmem⟩ := by
      unfold nextFireAt
      rw [durationSeconds_asI64 hsecs]
      exact date_of_mem hmem
    refine ⟨⟨_, hfire, rfl⟩, ?_⟩
    rw [isSome_nextWakeAt, hfire]
    rfl

/-- The end of a new task is a date if its life is over before the calendar is. -/
theorem exists_expiry_iff (recurring : Bool) (now : cal.DateTime) :
    (∃ expiresAt, expiry recurring now = some expiresAt) ↔
      (recurring = true → now.1 + ttl ≤ cal.last) := by
  cases recurring with
  | false => exact iff_of_true ⟨none, rfl⟩ nofun
  | true =>
    constructor
    · rintro ⟨expiresAt, h⟩ -
      obtain ⟨d, hd, -⟩ := Option.map_eq_some_iff.mp h
      exact date_eq_some_iff.mp hd ▸ d.2.2
    · intro h
      have hmem : cal.first ≤ now.1 + ttl ∧ now.1 + ttl ≤ cal.last := by
        have hnow := now.2
        refine ⟨?_, h rfl⟩
        unfold ttl unitsPerSecond recurringTaskTtlDays
        omega
      exact ⟨some ⟨_, hmem⟩, Option.map_eq_some_iff.mpr ⟨_, date_of_mem hmem, rfl⟩⟩

/-- A new task is created at a date from which the interval leads to a date. -/
theorem exists_creation_iff {secs : UInt64} (hsecs : (secs.toNat : ℤ) ≤ i64Max / 1000)
    (fireImmediately : Bool) (now : cal.DateTime) :
    (∃ createdAt, creation secs fireImmediately now = some createdAt ∧
        createdAt.1 + unitsPerSecond * secs.toNat ≤ cal.last) ↔
      if fireImmediately then cal.first ≤ now.1 - unitsPerSecond * secs.toNat
      else now.1 + unitsPerSecond * secs.toNat ≤ cal.last := by
  have hnow := now.2
  cases fireImmediately with
  | false =>
    constructor
    · rintro ⟨createdAt, h, hlast⟩
      cases h
      exact hlast
    · intro h
      exact ⟨now, rfl, h⟩
  | true =>
    have hcreation : creation secs true now = cal.date (now.1 - unitsPerSecond * secs.toNat) := by
      unfold creation
      rw [durationSeconds_asI64 hsecs]
      rfl
    rw [if_pos rfl]
    constructor
    · rintro ⟨createdAt, h, -⟩
      rw [hcreation, date_eq_some_iff] at h
      exact h ▸ createdAt.2.1
    · intro h
      have hmem : cal.first ≤ now.1 - unitsPerSecond * secs.toNat ∧
          now.1 - unitsPerSecond * secs.toNat ≤ cal.last := by
        refine ⟨h, ?_⟩
        unfold unitsPerSecond
        omega
      refine ⟨⟨_, hmem⟩, ?_, ?_⟩
      · rw [hcreation]
        exact date_of_mem hmem
      · change now.1 - _ + _ ≤ _
        omega

/-- A new task fires as its interval says if the interval is a duration and the dates it is made of
are there. -/
theorem withFireImmediately_iff (id : String) (secs : UInt64) (prompt : String)
    (recurring durable fireImmediately : Bool) (now : cal.DateTime) :
    (∃ task, cal.withFireImmediately id secs prompt recurring durable fireImmediately now = some task ∧
        FiresAfter task secs.toNat) ↔
      (secs.toNat : ℤ) ≤ i64Max / 1000 ∧
        (recurring = true → now.1 + ttl ≤ cal.last) ∧
        (if fireImmediately then cal.first ≤ now.1 - unitsPerSecond * secs.toNat
          else now.1 + unitsPerSecond * secs.toNat ≤ cal.last) := by
  constructor
  · rintro ⟨task, htask, hfires⟩
    unfold withFireImmediately at htask
    obtain ⟨createdAt, hcreated, hrest⟩ := Option.bind_eq_some_iff.mp htask
    obtain ⟨expiresAt, hexpires, hmake⟩ := Option.bind_eq_some_iff.mp hrest
    obtain rfl := Option.some.inj hmake
    obtain ⟨hsecs, hlast⟩ := (firesAfter_iff _).mp hfires
    exact ⟨hsecs, (exists_expiry_iff _ _).mp ⟨_, hexpires⟩,
      (exists_creation_iff hsecs _ _).mp ⟨createdAt, hcreated, hlast⟩⟩
  · rintro ⟨hsecs, httl, hdate⟩
    obtain ⟨expiresAt, hexpires⟩ := (exists_expiry_iff _ _).mpr httl
    obtain ⟨createdAt, hcreated, hlast⟩ := (exists_creation_iff hsecs _ _).mpr hdate
    have hmake : cal.withFireImmediately id secs prompt recurring durable fireImmediately now =
        some {
          id, intervalSecs := secs, prompt, recurring, durable, createdAt, lastFiredAt := none,
          expiresAt, lastSubagentId := none, iterationsSinceFresh := 0, chainResetPending := false } := by
      unfold withFireImmediately
      rw [hcreated, hexpires]
      rfl
    exact ⟨_, hmake, (firesAfter_iff _).mpr ⟨hsecs, hlast⟩⟩

/-- A task that is changed in place fires as its interval says if the interval is a duration and the
dates it is counted to are there. -/
theorem withInterval_iff (task : ScheduledTask cal.DateTime) (secs : UInt64) (now later : cal.DateTime) :
    (∃ task', withInterval task secs now later = some task' ∧ FiresAfter task' secs.toNat) ↔
      (secs.toNat : ℤ) ≤ i64Max / 1000 ∧
        task.anchor.1 + unitsPerSecond * secs.toNat ≤ cal.last ∧
        (task.anchor.1 + unitsPerSecond * secs.toNat ≤ now.1 →
          later.1 + unitsPerSecond * secs.toNat ≤ cal.last) := by
  let timed := { task with intervalSecs := secs }
  constructor
  · rintro ⟨task', htask, hfires⟩
    unfold withInterval at htask
    obtain ⟨fireAt, hfire, hmake⟩ := Option.bind_eq_some_iff.mp htask
    obtain rfl := Option.some.inj hmake
    have hsecs : (secs.toNat : ℤ) ≤ i64Max / 1000 := by
      split at hfires
      · exact ((firesAfter_iff _).mp hfires).1
      · exact ((firesAfter_iff _).mp hfires).1
    unfold nextFireAt at hfire
    rw [durationSeconds_asI64 hsecs] at hfire
    have hsum : fireAt.1 = task.anchor.1 + unitsPerSecond * secs.toNat := date_eq_some_iff.mp hfire
    refine ⟨hsecs, hsum ▸ fireAt.2.2, ?_⟩
    intro hpast
    rw [← hsum] at hpast
    rw [if_pos hpast] at hfires
    exact ((firesAfter_iff _).mp hfires).2
  · rintro ⟨hsecs, hlast, hlater⟩
    obtain ⟨⟨fireAt, hfire, hsum⟩, -⟩ := (firesAfter_iff timed).mpr ⟨hsecs, hlast⟩
    have hchange : withInterval task secs now later =
        some (if fireAt.1 ≤ now.1 then { timed with lastFiredAt := some later } else timed) := by
      unfold withInterval
      change (nextFireAt timed).bind _ = _
      rw [hfire]
      rfl
    refine ⟨_, hchange, ?_⟩
    split
    · rename_i hpast
      rw [hsum] at hpast
      exact (firesAfter_iff { timed with lastFiredAt := some later }).mpr ⟨hsecs, hlater hpast⟩
    · exact (firesAfter_iff timed).mpr ⟨hsecs, hlast⟩

/-- What is asked of an interval: it is read or refused, and for an interval that is accepted a new
task and a task that is changed in place fire as it says. -/
def Safe (debug : Text → Text) (s : Text) (id prompt : String)
    (recurring durable fireImmediately : Bool) (task : ScheduledTask cal.DateTime)
    (now later : cal.DateTime) : Prop :=
  parseInterval debug s ≠ none ∧
    ∀ secs, parseInterval debug s = some (.ok secs) →
      (∃ new, cal.withFireImmediately id secs prompt recurring durable fireImmediately now = some new ∧
        FiresAfter new secs.toNat) ∧
      ∃ changed, withInterval task secs now later = some changed ∧ FiresAfter changed secs.toNat

/-- An interval is safe exactly if its last character is one byte and the seconds it stands for are
a duration that leads from date to date. -/
theorem safe_iff (debug : Text → Text) (s : Text) (id prompt : String)
    (recurring durable fireImmediately : Bool) (task : ScheduledTask cal.DateTime)
    (now later : cal.DateTime) :
    Safe debug s id prompt recurring durable fireImmediately task now later ↔
      EndsInByte s ∧ ∀ secs : ℕ, StandsFor s secs →
        (secs : ℤ) ≤ i64Max / 1000 ∧
        (recurring = true → now.1 + ttl ≤ cal.last) ∧
        (if fireImmediately then cal.first ≤ now.1 - unitsPerSecond * secs
          else now.1 + unitsPerSecond * secs ≤ cal.last) ∧
        task.anchor.1 + unitsPerSecond * secs ≤ cal.last ∧
        (task.anchor.1 + unitsPerSecond * secs ≤ now.1 →
          later.1 + unitsPerSecond * secs ≤ cal.last) := by
  unfold Safe
  rw [parseInterval_ne_none_iff]
  refine and_congr_right fun _ => ?_
  constructor
  · intro h secs hsecs
    have hword : (UInt64.ofNat secs).toNat = secs := UInt64.toNat_ofNat_of_lt' hsecs.lt
    have hok : parseInterval debug s = some (.ok (UInt64.ofNat secs)) := by
      rw [parseInterval_ok_iff, hword]
      exact hsecs
    obtain ⟨hnew, hchanged⟩ := h _ hok
    rw [withFireImmediately_iff, hword] at hnew
    rw [withInterval_iff, hword] at hchanged
    exact ⟨hnew.1, hnew.2.1, hnew.2.2, hchanged.2⟩
  · intro h secs hok
    obtain ⟨hsecs, httl, hdate, hchanged⟩ := h _ ((parseInterval_ok_iff _ _ _).mp hok)
    exact ⟨(withFireImmediately_iff _ _ _ _ _ _ _).mpr ⟨hsecs, httl, hdate⟩,
      (withInterval_iff _ _ _ _).mpr ⟨hsecs, hchanged⟩⟩

/-- A few years around the beginning of time. -/
private def aFewYears : Calendar := ⟨-(10 ^ 18), 10 ^ 18⟩

private def atZero : aFewYears.DateTime := ⟨0, by decide⟩

private def hourly : ScheduledTask aFewYears.DateTime :=
  { id := "t", intervalSecs := 3600, prompt := "p", recurring := false, durable := false,
    createdAt := atZero, lastFiredAt := none, expiresAt := none, lastSubagentId := none,
    iterationsSinceFresh := 0, chainResetPending := false }

/-- An interval that ends in an accented letter is cut inside the letter, and the largest number of
seconds turns into one second less than none. -/
theorem not_safe :
    ¬ Safe id "5é".toList "u" "p" false false false hourly atZero atZero ∧
      ¬ Safe id "18446744073709551615s".toList "u" "p" false false false hourly atZero atZero ∧
      parseInterval id "18446744073709551615s".toList = some (.ok 18446744073709551615) ∧
      nextFireAt { hourly with intervalSecs := 18446744073709551615 } =
        aFewYears.date (-unitsPerSecond) := by
  have hlargest : parseInterval id "18446744073709551615s".toList = some (.ok 18446744073709551615) := by
    decide +kernel
  refine ⟨?_, ?_, hlargest, rfl⟩
  · intro h
    exact absurd h.1 (by decide +kernel)
  · intro h
    obtain ⟨hnew, -⟩ := h.2 _ hlargest
    exact absurd ((withFireImmediately_iff _ _ _ _ _ _ _).mp hnew).1 (by decide +kernel)

end Calendar

end Ezer.Scheduler
