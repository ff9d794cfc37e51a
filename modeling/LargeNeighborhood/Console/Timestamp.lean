set_option autoImplicit false

/-! # Timestamps

A moment is counted in seconds from the beginning of 1970. Its timestamp is the date and the time
of day, as `2000-01-01_00-00-00`. Days are turned into dates by counting years from March on, so
that the leap day is the last day of its year, and in eras of four hundred years, after which
leap years repeat.
-/

namespace LargeNeighborhood

structure Date where
  year : Nat
  month : Nat
  day : Nat
  deriving DecidableEq, Repr

namespace Date

def daysPerEra : Nat := 146097

/-- The days from the first of March of the year zero to the first of January of 1970. -/
def daysBefore1970 : Nat := 719468

/-- The year of an era, counted from March on, that a day of the era belongs to. -/
def yearOfEra (day : Nat) : Nat := (day - day / 1460 + day / 36524 - day / 146096) / 365

/-- How many days of an era come before one of its years. -/
def daysBeforeYear (year : Nat) : Nat := 365 * year + year / 4 - year / 100

/-- The date that is a number of days after the first of January of 1970. -/
def ofDays (days : Nat) : Date :=
  let day := days + daysBefore1970
  let year := yearOfEra (day % daysPerEra)
  let dayOfYear := day % daysPerEra - daysBeforeYear year
  -- years begin in March here, so that a leap day is the last of its year
  let monthsFromMarch := (5 * dayOfYear + 2) / 153
  let month := if monthsFromMarch < 10 then monthsFromMarch + 3 else monthsFromMarch - 9
  { year := 400 * (day / daysPerEra) + year + if month ≤ 2 then 1 else 0
    month
    day := dayOfYear - (153 * monthsFromMarch + 2) / 5 + 1 }

end Date

namespace Timestamp

/-- A number with at least `width` digits. -/
def padded (width n : Nat) : String :=
  let digits := Nat.toDigits 10 n
  String.ofList (List.replicate (width - digits.length) '0' ++ digits)

/-- The timestamp of a moment. -/
def ofSeconds (seconds : Nat) : String :=
  let date := Date.ofDays (seconds / 86400)
  let time := seconds % 86400
  "-".intercalate [padded 4 date.year, padded 2 date.month, padded 2 date.day] ++ "_" ++
    "-".intercalate [padded 2 (time / 3600), padded 2 (time / 60 % 60), padded 2 (time % 60)]

end Timestamp

end LargeNeighborhood
