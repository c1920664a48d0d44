/-!
# Creation times

A fresh chain file shows when it was made, as a date and a time of day in Coordinated Universal
Time. Years are counted from March here, so that the leap day is the last day of its year.
-/

namespace BuildChain

/-- A date of the Gregorian calendar. -/
structure Date where
  year : Nat
  month : Nat
  day : Nat
deriving DecidableEq

namespace Date

/-- The days of 400 years, after which the calendar repeats. -/
def cycleDays : Nat := 146097

/-- The days from the first of March of the year 0 to the first of January 1970. -/
def epochOffset : Nat := 719468

/-- The date a number of days after the first of January 1970. -/
def ofDays (days : Nat) : Date :=
  let z := days + epochOffset
  let inCycle := z % cycleDays
  let yearInCycle := (inCycle - inCycle / 1460 + inCycle / 36524 - inCycle / 146096) / 365
  let inYear := inCycle - (365 * yearInCycle + yearInCycle / 4 - yearInCycle / 100)
  let fromMarch := (5 * inYear + 2) / 153
  let month := if fromMarch < 10 then fromMarch + 3 else fromMarch - 9
  let year := z / cycleDays * 400 + yearInCycle
  { year := if month ≤ 2 then year + 1 else year
    month := month
    day := inYear - (153 * fromMarch + 2) / 5 + 1 }

end Date

namespace Stamp

/-- A number with zeros in front of it up to a width. -/
def padded (width n : Nat) : String :=
  let digits := (toString n).toList
  String.ofList (List.replicate (width - digits.length) '0' ++ digits)

/-- The time a number of seconds after the first of January 1970. -/
def ofSeconds (seconds : Nat) : String :=
  let date := Date.ofDays (seconds / 86400)
  let time := seconds % 86400
  padded 4 date.year ++ "-" ++ padded 2 date.month ++ "-" ++ padded 2 date.day ++ " " ++
    padded 2 (time / 3600) ++ ":" ++ padded 2 (time / 60 % 60) ++ ":" ++ padded 2 (time % 60) ++
    " UTC"

end Stamp

end BuildChain
