/-!
# The calendar

Dates of the Gregorian calendar, extended to the year 1.  `Date.number` counts the days from the
first of January of the year 1, which is a Monday and has the number 1; `Date.ofNumber` is the
date of a day.  `Date.ofWeek?` reads a date given by week and weekday, where the first week of a
year is the one with its first Thursday.
-/

namespace ChatHistory

/-- A day of the calendar. -/
structure Date where
  year : Nat
  month : Nat
  day : Nat
  deriving DecidableEq, Repr

namespace Date

/-- The last year of the calendar. -/
def maxYear : Nat := 9999

/-- A year with a 29th of February. -/
def isLeap (year : Nat) : Bool :=
  year % 4 == 0 && (year % 100 != 0 || year % 400 == 0)

/-- The lengths of the months of a year. -/
def monthLengths (year : Nat) : List Nat :=
  [31, if isLeap year then 29 else 28, 31, 30, 31, 30, 31, 31, 30, 31, 30, 31]

/-- The number of days of a month, zero for a number that is no month. -/
def monthLength (year month : Nat) : Nat :=
  if month = 0 then 0 else ((monthLengths year)[month - 1]?).getD 0

/-- A date that exists and lies within the years of the calendar. -/
def isValid (date : Date) : Bool :=
  decide (1 ≤ date.year) && decide (date.year ≤ maxYear) && decide (1 ≤ date.day) &&
    decide (date.day ≤ monthLength date.year date.month)

/-- The number of days before the first of January of a year. -/
def daysBeforeYear (year : Nat) : Nat :=
  let past := year - 1
  365 * past + past / 4 - past / 100 + past / 400

/-- The number of a date, counted from the first of January of the year 1. -/
def number (date : Date) : Nat :=
  let before := (monthLengths date.year).take (date.month - 1)
  daysBeforeYear date.year + before.foldl (· + ·) 0 + date.day

/-- The month and day of the day with the given index, from zero, in months of the given
lengths. -/
def monthDay : List Nat → Nat → Nat → Nat × Nat
  | [], month, index => (month, index + 1)
  | length :: lengths, month, index =>
    if index < length then (month, index + 1) else monthDay lengths (month + 1) (index - length)

/-- The year of the day with the given index from zero: cycles of 400, 100, 4 years and single
years.  The last day of a long cycle belongs to its last year. -/
def yearOfIndex (index : Nat) : Nat :=
  let quadricentury := index / 146097
  let rest := index % 146097
  let century := min (rest / 36524) 3
  let rest := rest - century * 36524
  let quadrennium := rest / 1461
  let rest := rest % 1461
  400 * quadricentury + 100 * century + 4 * quadrennium + min (rest / 365) 3 + 1

/-- The date with the given number. -/
def ofNumber (number : Nat) : Date :=
  let index := number - 1
  let year := yearOfIndex index
  let (month, day) := monthDay (monthLengths year) 1 (index - daysBeforeYear year)
  ⟨year, month, day⟩

/-- The weekday of a date, from zero for Monday. -/
def weekday (date : Date) : Nat :=
  (date.number + 6) % 7

/-- The number of weeks of a year: 53 if it begins on a Thursday, or on a Wednesday and is a leap
year. -/
def weeksOfYear (year : Nat) : Nat :=
  let start := weekday ⟨year, 1, 1⟩
  if start = 3 || (start = 2 && isLeap year) then 53 else 52

/-- The number of the Monday of the first week of a year, which may lie in the year before. -/
def firstMonday (year : Nat) : Int :=
  let newYear : Date := ⟨year, 1, 1⟩
  let monday : Int := newYear.number - newYear.weekday
  if newYear.weekday ≤ 3 then monday else monday + 7

/-- The date of a weekday, from one for Monday, in a week of a year. -/
def ofWeek? (year week day : Nat) : Option Date :=
  if 1 ≤ year ∧ year ≤ maxYear ∧ 1 ≤ week ∧ week ≤ weeksOfYear year ∧ 1 ≤ day ∧ day ≤ 7 then
    some (ofNumber (firstMonday year + 7 * (week - 1) + (day - 1)).toNat)
  else
    none

end Date

end ChatHistory
