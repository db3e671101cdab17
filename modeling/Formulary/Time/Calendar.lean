set_option autoImplicit false

/-!
# The Gregorian calendar

The calendar is extended in both directions; the year before 1 is 0. Days are counted from
1970-01-01.
-/

namespace Formulary.Time

structure Date where
  year : Int
  month : Nat
  day : Nat
  deriving DecidableEq, Repr

/-- The first year that a valid date can have. -/
def firstYear : Int := -262143

def lastYear : Int := 262142

def isLeap (year : Int) : Bool :=
  year % 4 == 0 && (year % 100 != 0 || year % 400 == 0)

def monthLengths (year : Int) : List Nat :=
  [31, if isLeap year then 29 else 28, 31, 30, 31, 30, 31, 31, 30, 31, 30, 31]

def totalDays (months : List Nat) : Nat :=
  months.foldr (· + ·) 0

/-- The days between 0001-01-01 and the start of a year. -/
def daysBeforeYear (year : Int) : Int :=
  let past := year - 1
  365 * past + past / 4 - past / 100 + past / 400

/-- 1970-01-01 in days from 0001-01-01. -/
def epoch : Int := 719162

namespace Date

def isValid (d : Date) : Bool :=
  firstYear ≤ d.year && d.year ≤ lastYear && 1 ≤ d.month && 1 ≤ d.day &&
    ((monthLengths d.year)[d.month - 1]?).any (d.day ≤ ·)

def toDays (d : Date) : Int :=
  daysBeforeYear d.year + totalDays ((monthLengths d.year).take (d.month - 1)) + (d.day - 1) - epoch

end Date

/-- The year that holds a day counted from 0001-01-01. A year of mean length misses it by no more
than one. -/
def yearOf (days : Int) : Int :=
  let guess := 400 * days / 146097 + 1
  if days < daysBeforeYear guess then guess - 1
  else if daysBeforeYear (guess + 1) ≤ days then guess + 1
  else guess

/-- The month and day of a day of the year, both counted from zero. -/
def splitMonths : List Nat → Nat → Nat × Nat
  | [], day => (0, day)
  | length :: rest, day =>
    if day < length then (0, day)
    else
      let (month, day) := splitMonths rest (day - length)
      (month + 1, day)

def Date.ofDays (days : Int) : Date :=
  let days := days + epoch
  let year := yearOf days
  let (month, day) := splitMonths (monthLengths year) (days - daysBeforeYear year).toNat
  ⟨year, month + 1, day + 1⟩

/-- A date and a time of day without leap seconds. -/
structure Reading where
  date : Date
  hour : Nat
  minute : Nat
  second : Nat
  deriving DecidableEq, Repr

namespace Reading

def isValid (r : Reading) : Bool :=
  r.date.isValid && r.hour < 24 && r.minute < 60 && r.second < 60

/-- The seconds from the start of 1970 on the same clock. -/
def toSeconds (r : Reading) : Int :=
  r.date.toDays * 86400 + r.hour * 3600 + r.minute * 60 + r.second

def ofSeconds (seconds : Int) : Reading :=
  let rest := (seconds % 86400).toNat
  ⟨.ofDays (seconds / 86400), rest / 3600, rest / 60 % 60, rest % 60⟩

end Reading

end Formulary.Time
