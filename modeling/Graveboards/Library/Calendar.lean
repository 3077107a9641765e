import Mathlib.Tactic

/-!
The proleptic Gregorian calendar as Python's `datetime` counts it: ordinals of
dates, the date of an ordinal, and timestamps of UTC datetimes. A day number
counts days from the epoch, 1 January 1970.
-/

namespace Graveboards.Library

namespace Calendar

def isLeap (year : Nat) : Bool := year % 4 = 0 && (year % 100 ≠ 0 || year % 400 = 0)

/-- Days before 1 January of a year. -/
def daysBeforeYear (year : Nat) : Nat :=
  (year - 1) * 365 + (year - 1) / 4 - (year - 1) / 100 + (year - 1) / 400

def cumulativeDays (month : Nat) : Nat :=
  [0, 0, 31, 59, 90, 120, 151, 181, 212, 243, 273, 304, 334].getD month 0

/-- Days of a year before the first day of a month. -/
def daysBeforeMonth (leap : Bool) (month : Nat) : Nat :=
  cumulativeDays month + if 2 < month ∧ leap then 1 else 0

/-- `date.toordinal`; 1 January of year 1 is day 1. -/
def toOrdinal (year month day : Nat) : Nat :=
  daysBeforeYear year + daysBeforeMonth (isLeap year) month + day

/-- Month and day of the day with `r` days of its year before it, from the
estimate `(r + 50) >> 5`, which is at most one month too late. -/
def monthDay (leap : Bool) (r : Nat) : Nat × Nat :=
  let month := (r + 50) / 32
  let month := if r < daysBeforeMonth leap month then month - 1 else month
  (month, r - daysBeforeMonth leap month + 1)

/-- `date.fromordinal`. -/
def fromOrdinal (ordinal : Nat) : Nat × Nat × Nat :=
  let n := ordinal - 1
  let n400 := n / 146097
  let n := n % 146097
  let n100 := n / 36524
  let n := n % 36524
  let n4 := n / 1461
  let n := n % 1461
  let n1 := n / 365
  let r := n % 365
  let year := n400 * 400 + 1 + n100 * 100 + n4 * 4 + n1
  if n1 = 4 ∨ n100 = 4 then (year - 1, 12, 31)
  else (year, monthDay (n1 = 3 && (n4 ≠ 24 || n100 = 3)) r)

/-! UTC datetimes. -/

structure DateTime where
  year : Nat
  month : Nat
  day : Nat
  hour : Nat
  minute : Nat
  second : Nat
  microsecond : Nat
  deriving DecidableEq

/-- The ordinal of 1 January 1970. -/
def epochOrdinal : Nat := 719163

/-- Days since the epoch. -/
def dayNumber (clock : Nat) : Nat := clock / 86400000000

/-- A date with the time of day of a clock. -/
def DateTime.combine (date : Nat × Nat × Nat) (clock : Nat) : DateTime where
  year := date.1
  month := date.2.1
  day := date.2.2
  hour := clock / 3600000000 % 24
  minute := clock / 60000000 % 60
  second := clock / 1000000 % 60
  microsecond := clock % 1000000

/-- The datetime so many microseconds after the epoch. -/
def ofMicroseconds (clock : Nat) : DateTime :=
  DateTime.combine (fromOrdinal (dayNumber clock + epochOrdinal)) clock

namespace DateTime

def ordinal (t : DateTime) : Nat := toOrdinal t.year t.month t.day

/-- Monday is 0. -/
def weekday (t : DateTime) : Nat := (t.ordinal + 6) % 7

/-- `t.replace(hour=0, minute=0, second=0, microsecond=0)`. -/
def midnight (t : DateTime) : DateTime :=
  { t with hour := 0, minute := 0, second := 0, microsecond := 0 }

/-- The same time of day on another date. -/
def onDate (t : DateTime) (date : Nat × Nat × Nat) : DateTime :=
  { t with year := date.1, month := date.2.1, day := date.2.2 }

/-- `t - timedelta(days=days)`. -/
def minusDays (t : DateTime) (days : Nat) : DateTime := t.onDate (fromOrdinal (t.ordinal - days))

/-- `int(t.timestamp())`. -/
def timestamp (t : DateTime) : Int :=
  ((t.ordinal : Int) - epochOrdinal) * 86400 + t.hour * 3600 + t.minute * 60 + t.second

end DateTime

end Calendar

end Graveboards.Library
