import SeriesTable.Instant

/-
  The calendar text of an instant: date and time of day in UTC, with as many fraction digits
  (none, three, six or nine) as the nanoseconds need.
-/

namespace SeriesTable.Instant

/-- A date of the proleptic Gregorian calendar. -/
structure Date where
  year : Int
  month : Nat
  day : Nat
  deriving DecidableEq, Repr

/-- The date that lies `days` after 1 January 1970.

Years are counted from March, so that a leap day ends its year, and in eras of 400 years, which
have 146097 days each. -/
def Date.ofDays (days : Int) : Date :=
  let shifted := days + 719468
  let era := shifted / 146097
  let dayOfEra := (shifted % 146097).toNat
  let yearOfEra :=
    (dayOfEra - dayOfEra / 1460 + dayOfEra / 36524 - dayOfEra / 146096) / 365
  let dayOfYear := dayOfEra - (365 * yearOfEra + yearOfEra / 4 - yearOfEra / 100)
  let fromMarch := (5 * dayOfYear + 2) / 153
  let month := if fromMarch < 10 then fromMarch + 3 else fromMarch - 9
  { year := era * 400 + yearOfEra + (if month ≤ 2 then 1 else 0)
    month
    day := dayOfYear - (153 * fromMarch + 2) / 5 + 1 }

/-- The decimal digits of `n`, filled up with zeros on the left. -/
def padded (width n : Nat) : String :=
  let digits := toString n
  String.ofList (List.replicate (width - digits.length) '0') ++ digits

def nanosPerSecond : Int := 1000000000

/-- The fraction of a second, in the coarsest of milli-, micro- and nanoseconds that is exact. -/
def fractionText (nanos : Nat) : String :=
  if nanos = 0 then ""
  else if nanos % 1000000 = 0 then "." ++ padded 3 (nanos / 1000000)
  else if nanos % 1000 = 0 then "." ++ padded 6 (nanos / 1000)
  else "." ++ padded 9 nanos

/-- Date and time of day, such as `1970-01-01T00:00:01.500Z`. -/
def text (t : Int) : String :=
  let seconds := t / nanosPerSecond
  let nanos := (t % nanosPerSecond).toNat
  let date := Date.ofDays (seconds / 86400)
  let time := (seconds % 86400).toNat
  padded 4 date.year.toNat ++ "-" ++ padded 2 date.month ++ "-" ++ padded 2 date.day ++ "T"
    ++ padded 2 (time / 3600) ++ ":" ++ padded 2 (time / 60 % 60) ++ ":" ++ padded 2 (time % 60)
    ++ fractionText nanos ++ "Z"

end SeriesTable.Instant
