/-!
# Timestamps

Instants are counted in seconds and nanoseconds since the start of 1970 in
UTC. They are written as in RFC 3339, with the offset `+00:00` and with no, three,
six or nine digits of the second's fraction, as few as the instant needs. Years
beyond four digits carry a sign.
-/

namespace ServerFractions

/-- An instant; the nanoseconds count on from the second. -/
structure Instant where
  seconds : Int
  nanoseconds : Nat := 0
  deriving DecidableEq, Repr, Inhabited

/-- A day of the Gregorian calendar. -/
structure CivilDate where
  year : Int
  month : Nat
  day : Nat
  deriving DecidableEq, Repr, Inhabited

/-- The day that lies `days` after the first of January 1970. Years are taken
to begin in March, so that a leap day ends its year, and are counted in periods
of four hundred years, which all have 146097 days. -/
def CivilDate.ofDays (days : Int) : CivilDate :=
  let shifted := days + 719468
  let period := shifted / 146097
  let dayOfPeriod := (shifted % 146097).toNat
  let yearOfPeriod :=
    (dayOfPeriod - dayOfPeriod / 1460 + dayOfPeriod / 36524 - dayOfPeriod / 146096) / 365
  let dayOfYear := dayOfPeriod - (365 * yearOfPeriod + yearOfPeriod / 4 - yearOfPeriod / 100)
  let monthFromMarch := (5 * dayOfYear + 2) / 153
  let day := dayOfYear - (153 * monthFromMarch + 2) / 5 + 1
  let month := if monthFromMarch < 10 then monthFromMarch + 3 else monthFromMarch - 9
  let year := yearOfPeriod + period * 400
  { year := if month ≤ 2 then year + 1 else year, month, day }

/-- A number with at least `width` digits. -/
def padded (width n : Nat) : String :=
  let digits := toString n
  String.ofList (List.replicate (width - digits.length) '0') ++ digits

namespace Instant

def yearText (year : Int) : String :=
  if 0 ≤ year && year ≤ 9999 then padded 4 year.toNat
  else (if year < 0 then "-" else "+") ++ padded 4 year.natAbs

/-- The fraction of a second, with its point. -/
def fractionText (nanoseconds : Nat) : String :=
  if nanoseconds = 0 then ""
  else if nanoseconds % 1000000 = 0 then "." ++ padded 3 (nanoseconds / 1000000)
  else if nanoseconds % 1000 = 0 then "." ++ padded 6 (nanoseconds / 1000)
  else "." ++ padded 9 nanoseconds

/-- The text of an instant, such as `2024-01-01T00:00:00+00:00`. -/
def render (i : Instant) : String :=
  let date := CivilDate.ofDays (i.seconds / 86400)
  let second := (i.seconds % 86400).toNat
  yearText date.year ++ "-" ++ padded 2 date.month ++ "-" ++ padded 2 date.day ++ "T" ++
    padded 2 (second / 3600) ++ ":" ++ padded 2 (second / 60 % 60) ++ ":" ++
    padded 2 (second % 60) ++ fractionText i.nanoseconds ++ "+00:00"

example : Instant.render ⟨1704067200, 123000000⟩ = "2024-01-01T00:00:00.123+00:00" := by decide +kernel

example : Instant.render ⟨-1, 1⟩ = "1969-12-31T23:59:59.000000001+00:00" := by decide +kernel

end Instant

end ServerFractions
