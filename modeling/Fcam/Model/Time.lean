import Mathlib.Tactic.Common

/-!
# Instants and business days

An aware `datetime` is its distance in microseconds from the epoch, a `date` its ordinal. Adding a
`timedelta` raises `OverflowError` when the sum leaves the range a `datetime` can hold.
-/

namespace Fcam

/-- An aware datetime, in microseconds since the epoch. -/
abbrev Instant := Int

/-- A calendar date, as its proleptic ordinal. -/
abbrev Day := Int

/-- `0001-01-01T00:00:00Z`. -/
def datetimeMin : Instant := -62135596800000000

/-- `9999-12-31T23:59:59.999999Z`. -/
def datetimeMax : Instant := 253402300799999999

/-- `t + timedelta(seconds=seconds)`, or nothing where it overflows. -/
def plusSeconds (t : Instant) (seconds : Int) : Option Instant :=
  let sum := t + seconds * 1000000
  if datetimeMin ≤ sum ∧ sum ≤ datetimeMax then some sum else none

/-- `t + timedelta(minutes=minutes)`, or nothing where it overflows. -/
def plusMinutes (t : Instant) (minutes : Int) : Option Instant := plusSeconds t (minutes * 60)

/-- A day, in microseconds. -/
def dayLength : Int := 86400000000

/-- The day of the month of a day counted from the epoch, in the proleptic Gregorian calendar: the
day's place in its 400-year era, then in the year that starts in March, then in the month. -/
def dayOfMonth (epochDay : Int) : Int :=
  let dayOfEra := (epochDay + 719468) % 146097
  let yearOfEra := (dayOfEra - dayOfEra / 1460 + dayOfEra / 36524 - dayOfEra / 146096) / 365
  let dayOfYear := dayOfEra - (365 * yearOfEra + yearOfEra / 4 - yearOfEra / 100)
  let month := (5 * dayOfYear + 2) / 153
  dayOfYear - (153 * month + 2) / 5 + 1

/-- `t.replace(day=1, hour=0, minute=0, second=0, microsecond=0)`, in UTC. -/
def monthStart (t : Instant) : Instant :=
  let epochDay := t / dayLength
  (epochDay - (dayOfMonth epochDay - 1)) * dayLength

/-- The first of the month after `t`: 32 days past the first of its month, back to that month's
first. -/
def nextMonthStart (t : Instant) : Option Instant :=
  (plusSeconds (monthStart t) (32 * 86400)).map monthStart

-- 2024-02-29T12:00:00Z is followed by 2024-03-01.
example : nextMonthStart 1709208000000000 = some 1709251200000000 := by decide

/-- `int((later - earlier).total_seconds())`, which truncates towards zero. -/
def wholeSeconds (later earlier : Instant) : Int := (later - earlier).tdiv 1000000

theorem plusSeconds_eq_some {t sum : Instant} {seconds : Int}
    (h : plusSeconds t seconds = some sum) :
    sum = t + seconds * 1000000 := by
  simp only [plusSeconds] at h
  split at h
  · exact (Option.some.inj h).symm
  · cases h

/-- A time zone: the seconds by which its wall clock is ahead of UTC, at each instant. -/
structure Zone where
  utcoffset : Instant → Int

/-- `timezone.utc`. -/
def Zone.utc : Zone := { utcoffset := fun _ => 0 }

/-- `datetime.now(tz)`, as its wall clock reads. -/
def Zone.wallTime (zone : Zone) (t : Instant) : Int := t + zone.utcoffset t * 1000000

/-- `today_in_timezone`, for a clock that reads `t`. -/
def todayInTimezone (zone : Zone) (t : Instant) : Day := zone.wallTime t / dayLength

/-- `seconds_until_next_midnight`, or nothing where the day after overflows. Two times of one zone
are subtracted as their wall clocks read. -/
def secondsUntilNextMidnight (zone : Zone) (t : Instant) : Option Int :=
  let now := zone.wallTime t
  if datetimeMax < now + dayLength then none
  else
    let nextMidnight := (now + dayLength) / dayLength * dayLength
    some (max (wholeSeconds nextMidnight now) 0)

/-- What a clock read gives: the instant, and the date it falls on in the quota's time zone. -/
structure Reading where
  now : Instant
  today : Day
deriving DecidableEq

end Fcam
