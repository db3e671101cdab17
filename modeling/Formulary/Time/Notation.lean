import Formulary.Time.Instant

set_option autoImplicit false

/-!
# Written instants and durations

An instant is written by its clock reading in UTC, as in `2024-01-15T08:30:00.250+00:00`, with as
many groups of three fraction digits as it needs. A duration is written in seconds, as in
`-PT90.5S`.
-/

namespace Formulary.Time

def padded (width n : Nat) : String :=
  let digits := Nat.toDigits 10 n
  String.ofList (List.replicate (width - digits.length) '0' ++ digits)

/-- Years of four digits have no sign, and others always have one. -/
def yearText (year : Int) : String :=
  if 0 ≤ year ∧ year ≤ 9999 then padded 4 year.toNat
  else (if year < 0 then "-" else "+") ++ padded 4 year.natAbs

def fractionText (nanos : Nat) : String :=
  if nanos = 0 then ""
  else if nanos % 1000000 = 0 then "." ++ padded 3 (nanos / 1000000)
  else if nanos % 1000 = 0 then "." ++ padded 6 (nanos / 1000)
  else "." ++ padded 9 nanos

def Reading.toText (r : Reading) : String :=
  yearText r.date.year ++ "-" ++ padded 2 r.date.month ++ "-" ++ padded 2 r.date.day ++ "T" ++
    padded 2 r.hour ++ ":" ++ padded 2 r.minute ++ ":" ++ padded 2 r.second

def Instant.toText (t : Instant) : String :=
  (Reading.ofSeconds (t.nanos / nanosPerSecond)).toText ++
    fractionText (t.nanos % nanosPerSecond).toNat ++ "+00:00"

def dropTrailingZeros (s : String) : String :=
  String.ofList (s.toList.reverse.dropWhile (· == '0')).reverse

def Duration.toText (d : Duration) : String :=
  let nanos := d.nanos.natAbs
  let seconds := toString (nanos / 1000000000)
  let fraction := nanos % 1000000000
  if nanos = 0 then "P0D"
  else (if d.nanos < 0 then "-PT" else "PT") ++ seconds ++
    (if fraction = 0 then "" else "." ++ dropTrailingZeros (padded 9 fraction)) ++ "S"

end Formulary.Time
