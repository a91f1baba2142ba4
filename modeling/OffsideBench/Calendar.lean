/-!
# Calendar

The date and time of day at a number of seconds after the start of 1970, by the Gregorian calendar
without leap seconds.

Years are counted from the first of March, so that a leap day is the last day of its year; the
calendar then repeats every 400 years, an era. Within an era the year is found from the day by
taking out the leap days in front of it, and within a year the month, since the lengths of the
months from March on follow the line `(153 m + 2) / 5`.
-/

namespace OffsideBench

/-- A date and time of day. -/
structure Instant where
  year : Nat
  month : Nat
  day : Nat
  hour : Nat
  minute : Nat
  second : Nat
deriving DecidableEq, Repr, Inhabited

namespace Instant

/-- The days of an era. -/
def eraDays : Nat := 146097

/-- The days from the first of March of the year zero to the first of January 1970. -/
def daysBefore1970 : Nat := 719468

/-- The year of an era in which its day `d` lies. -/
def yearOfEra (d : Nat) : Nat := (d - d / 1460 + d / 36524 - d / 146096) / 365

/-- The days of an era in front of its year `y`. -/
def daysBeforeYear (y : Nat) : Nat := 365 * y + y / 4 - y / 100

/-- The month, counted from March, in which day `d` of a year lies. -/
def monthOfYear (d : Nat) : Nat := (5 * d + 2) / 153

/-- The days of a year in front of its month `m`, counted from March. -/
def daysBeforeMonth (m : Nat) : Nat := (153 * m + 2) / 5

/-- The date and time of day after a number of seconds. -/
def ofSeconds (seconds : UInt64) : Instant :=
  let days := seconds.toNat / 86400
  let rest := seconds.toNat % 86400
  let sinceMarch := days + daysBefore1970
  let dayOfEra := sinceMarch % eraDays
  let yearOfEra := yearOfEra dayOfEra
  let dayOfYear := dayOfEra - daysBeforeYear yearOfEra
  let monthOfYear := monthOfYear dayOfYear
  let month := if monthOfYear < 10 then monthOfYear + 3 else monthOfYear - 9
  { year := yearOfEra + sinceMarch / eraDays * 400 + if month ≤ 2 then 1 else 0
    month
    day := dayOfYear - daysBeforeMonth monthOfYear + 1
    hour := rest / 3600
    minute := rest % 3600 / 60
    second := rest % 60 }

/-- A number with at least `width` digits. -/
def padded (width n : Nat) : List Char :=
  let digits := Nat.toDigits 10 n
  List.replicate (width - digits.length) '0' ++ digits

/-- A date and time of day as `YYYY-MM-DDTHH:MM:SSZ`. -/
def text (t : Instant) : String :=
  String.ofList <|
    padded 4 t.year ++ '-' :: padded 2 t.month ++ '-' :: padded 2 t.day ++ 'T' :: padded 2 t.hour ++
      ':' :: padded 2 t.minute ++ ':' :: padded 2 t.second ++ ['Z']

end Instant

end OffsideBench
