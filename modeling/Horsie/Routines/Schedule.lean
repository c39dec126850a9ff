import Mathlib.Algebra.Order.Ring.Nat
import Mathlib.Algebra.Ring.Int.Defs
import Mathlib.Data.List.Basic

/-!
# Schedules of routines

When a schedule fires next, as `next_run_at` computes it: `u64` milliseconds, with the calendar
arms through civil dates and time zones, whose library is `Jiff` here. `nextRunAtExact` is the same
over all integers.
-/

namespace Horsie.Routines

/-- The shortest interval a recurring routine may use. -/
def minIntervalSecs : ℕ := 60

inductive Weekday
  | mon
  | tue
  | wed
  | thu
  | fri
  | sat
  | sun
deriving DecidableEq

/-- Also jiff's Monday-based offset. -/
def weekdayRank : Weekday → ℕ
  | .mon => 1
  | .tue => 2
  | .wed => 3
  | .thu => 4
  | .fri => 5
  | .sat => 6
  | .sun => 7

inductive RoutineSchedule
  | manual
  | every (intervalSecs : ℕ)
  | once (atMs : ℕ)
  | daily (timezone : String) (hour minute : ℕ)
  | weekly (timezone : String) (hour minute : ℕ) (weekdays : List Weekday)
  | monthly (timezone : String) (hour minute dayOfMonth : ℕ)
  | yearly (timezone : String) (hour minute month dayOfMonth : ℕ)
deriving DecidableEq

/-- The arms that `next_occurrence` answers. -/
def RoutineSchedule.isCalendar : RoutineSchedule → Bool
  | .daily _ _ _ | .weekly _ _ _ _ | .monthly _ _ _ _ | .yearly _ _ _ _ _ => true
  | .manual | .every _ | .once _ => false

/-! ## Machine integers -/

/-- `as i64`, of a `u64`. -/
def asI64 (n : ℕ) : ℤ := if n % 2 ^ 64 < 2 ^ 63 then (n % 2 ^ 64 : ℕ) else (n % 2 ^ 64 : ℕ) - 2 ^ 64

/-- `as i8`, of a `u32`. -/
def asI8 (n : ℕ) : ℤ := if n % 2 ^ 8 < 2 ^ 7 then (n % 2 ^ 8 : ℕ) else (n % 2 ^ 8 : ℕ) - 2 ^ 8

/-- `as u64`, of an `i64`. -/
def asU64 (n : ℤ) : ℕ := (n % 2 ^ 64).toNat

/-- `wrapping_mul`, which `*` is where overflow is not checked. -/
def mulU64 (a b : ℕ) : ℕ := a * b % 2 ^ 64

def saturatingAdd (a b : ℕ) : ℕ := min (a + b) (2 ^ 64 - 1)

theorem asI64_le (n : ℕ) : asI64 n ≤ n := by
  unfold asI64
  have hmod := Nat.mod_le n (2 ^ 64)
  split_ifs <;> omega

theorem asI64_of_lt {n : ℕ} (h : n < 2 ^ 63) : asI64 n = n := by
  unfold asI64
  rw [Nat.mod_eq_of_lt (by omega), if_pos h]

/-! ## The calendar -/

/-- The last instant jiff has a `Timestamp` for, in milliseconds. -/
def timestampMax : ℤ := 253402207200999

def timestampMin : ℤ := -377705023201000

/-- Civil dates and time zones. A `Timestamp` is its milliseconds since the epoch. -/
structure Jiff where
  TimeZone : Type
  Date : Type
  /-- `TimeZone::get`. -/
  timeZone : String → Option TimeZone
  date : ℤ → TimeZone → Date
  tomorrow : Date → Option Date
  mondayOneOffset : Date → ℕ
  year : Date → ℤ
  month : Date → ℤ
  newDate : ℤ → ℤ → ℤ → Option Date
  /-- `checked_add(1.month())`. -/
  addMonth : Date → Option Date
  timestamp : Date → ℤ → ℤ → TimeZone → Option ℤ
  timestamp_le : ∀ date hour minute tz ts, timestamp date hour minute tz = some ts →
    ts ≤ timestampMax

namespace Jiff

variable (j : Jiff)

def fromMillisecond (ms : ℤ) : Option ℤ :=
  if timestampMin ≤ ms ∧ ms ≤ timestampMax then some ms else none

/-- The firing at a time of a date strictly after `now`, if any. -/
def occurrenceAfter (date : j.Date) (tz : j.TimeZone) (hour minute : ℕ) (now : ℤ) : Option ℤ :=
  (j.timestamp date (asI8 hour) (asI8 minute) tz).bind fun ts => if now < ts then some ts else none

def daily (timezone : String) (hour minute : ℕ) (now : ℤ) : Option ℤ :=
  (j.timeZone timezone).bind fun tz =>
    (j.tomorrow (j.date now tz)).bind fun tomorrow =>
      [j.date now tz, tomorrow].findSome? fun date => j.occurrenceAfter date tz hour minute now

/-- The scan of `weekly`, for so many days. -/
def weeklyFrom (tz : j.TimeZone) (hour minute : ℕ) (weekdays : List Weekday) (now : ℤ) :
    ℕ → j.Date → Option ℤ
  | 0, _ => none
  | days + 1, date =>
    match
      if j.mondayOneOffset date ∈ weekdays.map weekdayRank then
        j.occurrenceAfter date tz hour minute now
      else none with
    | some ts => some ts
    | none => (j.tomorrow date).bind (weeklyFrom tz hour minute weekdays now days)

def weekly (timezone : String) (hour minute : ℕ) (weekdays : List Weekday) (now : ℤ) : Option ℤ :=
  (j.timeZone timezone).bind fun tz =>
    j.weeklyFrom tz hour minute weekdays now 8 (j.date now tz)

/-- The scan of `monthly`, for so many months. -/
def monthlyFrom (tz : j.TimeZone) (hour minute dayOfMonth : ℕ) (now : ℤ) :
    ℕ → j.Date → Option ℤ
  | 0, _ => none
  | months + 1, first =>
    match
      (j.newDate (j.year first) (j.month first) (asI8 dayOfMonth)).bind fun date =>
        j.occurrenceAfter date tz hour minute now with
    | some ts => some ts
    | none => (j.addMonth first).bind (monthlyFrom tz hour minute dayOfMonth now months)

def monthly (timezone : String) (hour minute dayOfMonth : ℕ) (now : ℤ) : Option ℤ :=
  (j.timeZone timezone).bind fun tz =>
    let start := j.date now tz
    (j.newDate (j.year start) (j.month start) 1).bind
      (j.monthlyFrom tz hour minute dayOfMonth now 14)

def yearly (timezone : String) (hour minute month dayOfMonth : ℕ) (now : ℤ) : Option ℤ :=
  (j.timeZone timezone).bind fun tz =>
    (List.range 8).findSome? fun k =>
      (j.newDate (j.year (j.date now tz) + k) (asI8 month) (asI8 dayOfMonth)).bind fun date =>
        j.occurrenceAfter date tz hour minute now

/-- The first instant after `now` at which a calendar schedule fires. -/
def nextOccurrence (s : RoutineSchedule) (now : ℤ) : Option ℤ :=
  (fromMillisecond now).bind fun now =>
    match s with
    | .daily timezone hour minute => j.daily timezone hour minute now
    | .weekly timezone hour minute weekdays => j.weekly timezone hour minute weekdays now
    | .monthly timezone hour minute dayOfMonth => j.monthly timezone hour minute dayOfMonth now
    | .yearly timezone hour minute month dayOfMonth =>
      j.yearly timezone hour minute month dayOfMonth now
    | .manual | .every _ | .once _ => none

/-- No time zones, and dates that nothing asks for. -/
def noZones : Jiff where
  TimeZone := Empty
  Date := Unit
  timeZone _ := none
  date _ _ := ()
  tomorrow _ := none
  mondayOneOffset _ := 0
  year _ := 0
  month _ := 0
  newDate _ _ _ := none
  addMonth _ := none
  timestamp _ _ _ _ := none
  timestamp_le _ _ _ _ _ h := by cases h

variable {j}

/-- An instant that a schedule may fire at, strictly after `now`. -/
def After (now : ℤ) (r : Option ℤ) : Prop := ∀ ts, r = some ts → now < ts ∧ ts ≤ timestampMax

theorem occurrenceAfter_after (date : j.Date) (tz : j.TimeZone) (hour minute : ℕ) (now : ℤ) :
    After now (j.occurrenceAfter date tz hour minute now) := by
  intro ts h
  obtain ⟨ts', hts, h⟩ := Option.bind_eq_some_iff.mp h
  split_ifs at h with hlt
  cases h
  exact ⟨hlt, j.timestamp_le _ _ _ _ _ hts⟩

theorem weeklyFrom_after (tz : j.TimeZone) (hour minute : ℕ) (weekdays : List Weekday) (now : ℤ)
    (days : ℕ) (date : j.Date) :
    After now (j.weeklyFrom tz hour minute weekdays now days date) := by
  induction days generalizing date with
  | zero => exact fun _ h => by cases h
  | succ days ih =>
    intro ts h
    unfold weeklyFrom at h
    split at h
    · rename_i found hfound
      obtain ⟨-, hfound⟩ := Option.ite_none_right_eq_some.mp hfound
      exact occurrenceAfter_after _ _ _ _ _ ts (hfound.trans h)
    · obtain ⟨next, -, h⟩ := Option.bind_eq_some_iff.mp h
      exact ih next ts h

theorem monthlyFrom_after (tz : j.TimeZone) (hour minute dayOfMonth : ℕ) (now : ℤ)
    (months : ℕ) (first : j.Date) :
    After now (j.monthlyFrom tz hour minute dayOfMonth now months first) := by
  induction months generalizing first with
  | zero => exact fun _ h => by cases h
  | succ months ih =>
    intro ts h
    unfold monthlyFrom at h
    split at h
    · rename_i found hfound
      obtain ⟨date, -, hfound⟩ := Option.bind_eq_some_iff.mp hfound
      exact occurrenceAfter_after _ _ _ _ _ ts (hfound.trans h)
    · obtain ⟨next, -, h⟩ := Option.bind_eq_some_iff.mp h
      exact ih next ts h

/-- A calendar schedule fires strictly after `now`, within what jiff has timestamps for. -/
theorem nextOccurrence_after (s : RoutineSchedule) (now : ℤ) :
    After now (j.nextOccurrence s now) := by
  intro ts h
  obtain ⟨now', hnow, h⟩ := Option.bind_eq_some_iff.mp h
  obtain ⟨-, hnow⟩ := Option.ite_none_right_eq_some.mp hnow
  cases hnow
  cases s with
  | manual | every _ | once _ => cases h
  | daily timezone hour minute =>
    obtain ⟨tz, -, h⟩ := Option.bind_eq_some_iff.mp h
    obtain ⟨tomorrow, -, h⟩ := Option.bind_eq_some_iff.mp h
    obtain ⟨date, -, h⟩ := List.exists_of_findSome?_eq_some h
    exact occurrenceAfter_after _ _ _ _ _ ts h
  | weekly timezone hour minute weekdays =>
    obtain ⟨tz, -, h⟩ := Option.bind_eq_some_iff.mp h
    exact weeklyFrom_after _ _ _ _ _ _ _ ts h
  | monthly timezone hour minute dayOfMonth =>
    obtain ⟨tz, -, h⟩ := Option.bind_eq_some_iff.mp h
    obtain ⟨first, -, h⟩ := Option.bind_eq_some_iff.mp h
    exact monthlyFrom_after _ _ _ _ _ _ _ ts h
  | yearly timezone hour minute month dayOfMonth =>
    obtain ⟨tz, -, h⟩ := Option.bind_eq_some_iff.mp h
    obtain ⟨k, -, h⟩ := List.exists_of_findSome?_eq_some h
    obtain ⟨date, -, h⟩ := Option.bind_eq_some_iff.mp h
    exact occurrenceAfter_after _ _ _ _ _ ts h

end Jiff

/-! ## When a schedule fires -/

section

variable (j : Jiff)

/-- When a schedule should next fire, given the moment it was armed. -/
def nextRunAt (s : RoutineSchedule) (enabled : Bool) (nowMs : ℕ) : Option ℕ :=
  if enabled = false then none
  else
    match s with
    | .manual => none
    | .every intervalSecs => some (saturatingAdd nowMs (mulU64 intervalSecs 1000))
    | .once atMs => if nowMs < atMs then some atMs else none
    | s => (j.nextOccurrence s (asI64 nowMs)).map asU64

/-- The same over all integers. -/
def nextRunAtExact (s : RoutineSchedule) (enabled : Bool) (nowMs : ℕ) : Option ℤ :=
  if enabled = false then none
  else
    match s with
    | .manual => none
    | .every intervalSecs => some (nowMs + intervalSecs * 1000)
    | .once atMs => if nowMs < atMs then some atMs else none
    | s => j.nextOccurrence s nowMs

/-- The next instant is one that a signed 64-bit integer holds, and so is the time if a calendar is
asked. -/
def armable (s : RoutineSchedule) (enabled : Bool) (nowMs : ℕ) : Bool :=
  (nextRunAtExact j s enabled nowMs).all (fun ms => decide (ms < 2 ^ 63)) &&
    (!enabled || !s.isCalendar || decide (nowMs < 2 ^ 63))

variable {j}

/-- Next instants that the machine integers hold are computed and stored as they are. -/
theorem asI64_nextRunAt {s : RoutineSchedule} {enabled : Bool} {nowMs : ℕ}
    (h : armable j s enabled nowMs = true) :
    (nextRunAt j s enabled nowMs).map asI64 = nextRunAtExact j s enabled nowMs := by
  unfold armable at h
  rw [Bool.and_eq_true, Option.all_eq_true] at h
  obtain ⟨hnext, hnow⟩ := h
  simp only [decide_eq_true_eq] at hnext
  unfold nextRunAt nextRunAtExact at *
  cases enabled with
  | false => rfl
  | true =>
    have hcalendar : s.isCalendar = true →
        ((j.nextOccurrence s (asI64 nowMs)).map asU64).map asI64 = j.nextOccurrence s nowMs := by
      intro hs
      rw [hs] at hnow
      have hnow' : nowMs < 2 ^ 63 := by simpa using hnow
      rw [asI64_of_lt hnow']
      cases hts : j.nextOccurrence s nowMs with
      | none => rfl
      | some ts =>
        obtain ⟨hlt, hle⟩ := Jiff.nextOccurrence_after s nowMs ts hts
        have hts' : ((asU64 ts : ℕ) : ℤ) = ts ∧ asU64 ts < 2 ^ 63 := by
          unfold asU64
          unfold timestampMax at hle
          omega
        show some (asI64 (asU64 ts)) = some ts
        rw [asI64_of_lt hts'.2, hts'.1]
    simp only [Bool.true_eq_false, if_false] at hnext ⊢
    cases s with
    | manual => rfl
    | every intervalSecs =>
      have hlt := hnext _ rfl
      have hsame : saturatingAdd nowMs (mulU64 intervalSecs 1000) =
          nowMs + intervalSecs * 1000 := by
        unfold saturatingAdd mulU64
        omega
      show some (asI64 _) = _
      rw [hsame, asI64_of_lt (by omega)]
      push_cast
      rfl
    | once atMs =>
      dsimp only at hnext ⊢
      split_ifs at hnext ⊢
      · have hlt := hnext _ rfl
        show some (asI64 atMs) = _
        rw [asI64_of_lt (by omega)]
      · rfl
    | daily _ _ _ | weekly _ _ _ _ | monthly _ _ _ _ | yearly _ _ _ _ _ => exact hcalendar rfl

/-- The instant of a `Once` schedule is not computed again once it has come. -/
theorem nextRunAt_once_past {atMs armedAt nowMs : ℕ} {enabled : Bool} {ms : ℤ}
    (h : nextRunAtExact j (.once atMs) enabled armedAt = some ms) (hle : ms ≤ nowMs) :
    nextRunAt j (.once atMs) enabled nowMs = none := by
  unfold nextRunAtExact at h
  obtain ⟨henabled, h⟩ := Option.ite_none_left_eq_some.mp h
  obtain ⟨-, h⟩ := Option.ite_none_right_eq_some.mp h
  have hms := Option.some.inj h
  unfold nextRunAt
  rw [if_neg henabled]
  exact if_neg (by omega)

end

/-! ## What may be saved -/

section

variable (j : Jiff)

inductive RoutineError
  | invalid (message : String)
deriving DecidableEq

def validateClock (timezone : String) (hour minute : ℕ) : Except RoutineError Unit :=
  match j.timeZone timezone with
  | none => .error (.invalid s!"unknown timezone '{timezone}'")
  | some _ =>
    if 23 < hour then .error (.invalid s!"hour must be 0–23, got {hour}")
    else if 59 < minute then .error (.invalid s!"minute must be 0–59, got {minute}")
    else .ok ()

def validateDayOfMonth (day : ℕ) : Except RoutineError Unit :=
  if 1 ≤ day ∧ day ≤ 31 then .ok ()
  else .error (.invalid s!"day of month must be 1–31, got {day}")

/-- Two neighbours that are not in Mon–Sun order. -/
def outOfOrder : List Weekday → Bool
  | a :: b :: rest => decide (weekdayRank b ≤ weekdayRank a) || outOfOrder (b :: rest)
  | _ => false

def validateSchedule : RoutineSchedule → Except RoutineError Unit
  | .every intervalSecs =>
    if intervalSecs < minIntervalSecs then
      .error (.invalid s!"interval must be at least {minIntervalSecs} seconds")
    else .ok ()
  | .daily timezone hour minute => validateClock j timezone hour minute
  | .weekly timezone hour minute weekdays => do
    validateClock j timezone hour minute
    if weekdays.isEmpty then
      throw (.invalid "weekly schedule needs at least one weekday")
    else if outOfOrder weekdays then
      throw (.invalid "weekdays must be unique and in Mon–Sun order")
    else pure ()
  | .monthly timezone hour minute dayOfMonth => do
    validateClock j timezone hour minute
    validateDayOfMonth dayOfMonth
  | .yearly timezone hour minute month dayOfMonth => do
    validateClock j timezone hour minute
    if 1 ≤ month ∧ month ≤ 12 then validateDayOfMonth dayOfMonth
    else throw (.invalid s!"month must be 1–12, got {month}")
  | .manual | .once _ => .ok ()

variable {j}

theorem lt_nextRunAtExact {s : RoutineSchedule} {enabled : Bool} {nowMs : ℕ} {ms : ℤ}
    (hs : validateSchedule j s = .ok ()) (h : nextRunAtExact j s enabled nowMs = some ms) :
    nowMs < ms := by
  unfold nextRunAtExact at h
  split_ifs at h
  cases s with
  | manual => cases h
  | every intervalSecs =>
    unfold validateSchedule at hs
    dsimp only at hs
    split_ifs at hs with hmin
    unfold minIntervalSecs at hmin
    have hms := Option.some.inj h
    omega
  | once atMs =>
    obtain ⟨hlt, h⟩ := Option.ite_none_right_eq_some.mp h
    have hms := Option.some.inj h
    omega
  | daily _ _ _ | weekly _ _ _ _ | monthly _ _ _ _ | yearly _ _ _ _ _ =>
    exact (Jiff.nextOccurrence_after _ _ ms h).1

end

end Horsie.Routines
