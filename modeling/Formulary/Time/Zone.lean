import Formulary.Time.Instant

set_option autoImplicit false

/-!
# Time zones

A zone is known by its name and by the instants at which its clocks show a reading. When the clocks
are set forward some readings do not occur; when they are set back some occur twice, and the first
time counts.
-/

namespace Formulary.Time

structure Zone where
  id : String
  /-- The first instant at which the clocks show a valid reading. -/
  earliest? : Reading → Option Instant

namespace Zone

def utc : Zone where
  id := "UTC"
  earliest? reading := Instant.ofNanos? (reading.toSeconds * nanosPerSecond)

/-- The instant of a reading on the clocks of a zone. -/
def instant? (zone : Zone) (reading : Reading) : Option Instant :=
  if reading.isValid then zone.earliest? reading else none

/-- The zone has the clocks of UTC, whatever its name. -/
def KeepsUtc (zone : Zone) : Prop :=
  ∀ reading, zone.earliest? reading = utc.earliest? reading

end Zone

end Formulary.Time
