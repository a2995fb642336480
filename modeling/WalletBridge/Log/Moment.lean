import WalletBridge.Text.Decimal

/-!
# Moments

A reading of a calendar and a clock. The calendar is the Gregorian one, before its beginning too.
-/

namespace WalletBridge.Log

open Text

structure Moment where
  year : Int
  month : Nat
  day : Nat
  hour : Nat
  minute : Nat
  second : Nat
deriving DecidableEq, Repr

namespace Moment

def isLeap (year : Int) : Bool := year % 4 == 0 && (year % 100 != 0 || year % 400 == 0)

def daysIn (year : Int) (month : Nat) : Nat :=
  if month == 2 then if isLeap year then 29 else 28
  else if month == 4 || month == 6 || month == 9 || month == 11 then 30
  else 31

/-- The first and the last year of the calendar. -/
def years : Int × Int := (-262143, 262142)

def exists? (m : Moment) : Bool :=
  years.1 ≤ m.year && m.year ≤ years.2
    && 1 ≤ m.month && m.month ≤ 12 && 1 ≤ m.day && m.day ≤ daysIn m.year m.month
    && m.hour < 24 && m.minute < 60 && m.second < 60

/-- A year in at least four digits; one that needs more, or lies before the year zero, has a
sign. -/
def yearText (year : Int) : String :=
  if 0 ≤ year && year ≤ 9999 then padded 4 year.toNat
  else (if year < 0 then "-" else "+") ++ padded 4 year.natAbs

/-- The year, month and day of a day that is so many days after the first of March of the year
zero; in this count a leap day is the last day of a year. -/
def dateOf (day : Int) : Int × Nat × Nat :=
  let era := day.fdiv 146097
  let inEra := (day.fmod 146097).toNat
  let yearOfEra := (inEra - inEra / 1460 + inEra / 36524 - inEra / 146096) / 365
  let dayOfYear := inEra - (365 * yearOfEra + yearOfEra / 4 - yearOfEra / 100)
  let month := (5 * dayOfYear + 2) / 153
  let year := era * 400 + yearOfEra
  (if month < 10 then year else year + 1, if month < 10 then month + 3 else month - 9,
    dayOfYear - (153 * month + 2) / 5 + 1)

/-- The days from the first of March of the year zero to the first of January 1970. -/
def epochDay : Int := 719468

/-- The moment that is so many seconds after the beginning of the year 1970. -/
def ofSeconds (n : Int) : Moment :=
  let (year, month, day) := dateOf (n.fdiv 86400 + epochDay)
  let inDay := (n.fmod 86400).toNat
  { year, month, day
    hour := inDay / 3600, minute := inDay / 60 % 60, second := inDay % 60 }

def stamp (m : Moment) (millionths : Nat) : String :=
  yearText m.year ++ "-" ++ padded 2 m.month ++ "-" ++ padded 2 m.day ++ "T"
    ++ padded 2 m.hour ++ ":" ++ padded 2 m.minute ++ ":" ++ padded 2 m.second ++ "."
    ++ padded 6 millionths ++ "Z"

end Moment

end WalletBridge.Log
