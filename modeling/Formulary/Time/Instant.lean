import Formulary.Time.Calendar

set_option autoImplicit false

/-!
# Points in time and spans of time

Both are whole numbers of nanoseconds within fixed limits. An instant lies in the years of valid
dates, told in UTC; a duration lasts at most `2 ^ 63 - 1` milliseconds either way, which is more
than any two instants are apart.
-/

namespace Formulary.Time

def nanosPerSecond : Int := 1000000000

/-- The start of the first year. -/
def firstInstant : Int := -8334601228800000000000

/-- The last nanosecond of the last year. -/
def lastInstant : Int := 8210266876799999999999

def longestDuration : Int := 9223372036854775807000000

/-- A leap second has no instants of its own: date-times that lie within one, written with a fraction
of a second or more after the 59th, are left out. -/
structure Instant where
  nanos : Int
  first_le : firstInstant ≤ nanos
  le_last : nanos ≤ lastInstant
  deriving DecidableEq

structure Duration where
  nanos : Int
  neg_longest_le : -longestDuration ≤ nanos
  le_longest : nanos ≤ longestDuration
  deriving DecidableEq

def Instant.ofNanos? (n : Int) : Option Instant :=
  if h : firstInstant ≤ n ∧ n ≤ lastInstant then some ⟨n, h.1, h.2⟩ else none

def Duration.ofNanos? (n : Int) : Option Duration :=
  if h : -longestDuration ≤ n ∧ n ≤ longestDuration then some ⟨n, h.1, h.2⟩ else none

namespace Duration

def ofMillis? (n : Int) : Option Duration :=
  ofNanos? (n * 1000000)

def add? (d e : Duration) : Option Duration :=
  ofNanos? (d.nanos + e.nanos)

def sub? (d e : Duration) : Option Duration :=
  ofNanos? (d.nanos - e.nanos)

instance : Neg Duration where
  neg d := ⟨-d.nanos, Int.neg_le_neg d.le_longest, by have := d.neg_longest_le; omega⟩

end Duration

namespace Instant

def add? (t : Instant) (d : Duration) : Option Instant :=
  ofNanos? (t.nanos + d.nanos)

def sub? (t : Instant) (d : Duration) : Option Instant :=
  ofNanos? (t.nanos - d.nanos)

/-- The time that passes from `u` to `t`. -/
def since (t u : Instant) : Duration where
  nanos := t.nanos - u.nanos
  neg_longest_le := by
    have := t.first_le
    have := u.le_last
    simp only [firstInstant, lastInstant, longestDuration] at *
    omega
  le_longest := by
    have := t.le_last
    have := u.first_le
    simp only [firstInstant, lastInstant, longestDuration] at *
    omega

end Instant

theorem Instant.ofNanos?_eq_some {n : Int} {t : Instant} : ofNanos? n = some t ↔ n = t.nanos := by
  unfold ofNanos?
  constructor
  · intro h
    split at h
    · exact congrArg Instant.nanos (Option.some.inj h)
    · contradiction
  · rintro rfl
    simp [t.first_le, t.le_last]

theorem Duration.ofNanos?_eq_some {n : Int} {d : Duration} :
    ofNanos? n = some d ↔ n = d.nanos := by
  unfold ofNanos?
  constructor
  · intro h
    split at h
    · exact congrArg Duration.nanos (Option.some.inj h)
    · contradiction
  · rintro rfl
    simp [d.neg_longest_le, d.le_longest]

end Formulary.Time
