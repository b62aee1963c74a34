import ChatHistory.Fault
import ChatHistory.Time.Calendar

/-!
# Timestamps

A timestamp is a date and a time of day, to the microsecond, with or without an offset from
universal time.  `iso` writes it in the international format.  `inZone` is its reading in a time
zone with a fixed offset; a timestamp without offset is taken for local time there already.
-/

namespace ChatHistory

/-- A date and time of day; the offset from universal time is in microseconds. -/
structure Timestamp where
  date : Date
  hour : Nat
  minute : Nat
  second : Nat
  microsecond : Nat
  offset : Option Int
  deriving DecidableEq, Repr

namespace Timestamp

/-- The date exists and the time of day is in range. -/
def isValid (time : Timestamp) : Bool :=
  time.date.isValid && decide (time.hour < 24) && decide (time.minute < 60) &&
    decide (time.second < 60)

/-- A number with at least the given number of decimal digits. -/
def padded (width n : Nat) : String :=
  let digits := Nat.toDigits 10 n
  String.ofList (List.replicate (width - digits.length) '0' ++ digits)

/-- The microseconds in a second. -/
def perSecond : Nat := 1000000

/-- A fraction of a second behind a point, if it is not zero. -/
def fractionText (microsecond : Nat) : String :=
  if microsecond = 0 then "" else "." ++ padded 6 microsecond

/-- An offset as hours and minutes, with seconds and their fraction where they are not zero. -/
def offsetText (offset : Int) : String :=
  let sign := if offset < 0 then "-" else "+"
  let microsecond := offset.natAbs % perSecond
  let seconds := offset.natAbs / perSecond
  let hours := padded 2 (seconds / 3600)
  let minutes := padded 2 (seconds / 60 % 60)
  let fine :=
    if seconds % 60 = 0 ∧ microsecond = 0 then ""
    else ":" ++ padded 2 (seconds % 60) ++ fractionText microsecond
  s!"{sign}{hours}:{minutes}{fine}"

/-- The timestamp in the international format. -/
def iso (time : Timestamp) : String :=
  let date := padded 4 time.date.year ++ "-" ++ padded 2 time.date.month ++ "-" ++
    padded 2 time.date.day
  let clock := padded 2 time.hour ++ ":" ++ padded 2 time.minute ++ ":" ++ padded 2 time.second
  date ++ "T" ++ clock ++ fractionText time.microsecond ++
    (time.offset.map offsetText).getD ""

/-! ## Instants -/

/-- The microseconds in a day. -/
def perDay : Nat := 86400 * perSecond

/-- The microseconds from the day with number zero to a timestamp, its offset set aside. -/
def instant (time : Timestamp) : Int :=
  time.date.number * perDay +
    ((time.hour * 60 + time.minute) * 60 + time.second) * perSecond + time.microsecond

/-- The first instant of the calendar. -/
def firstInstant : Int := perDay

/-- The last instant of the calendar. -/
def lastInstant : Int :=
  ((⟨Date.maxYear, 12, 31⟩ : Date).number + 1) * perDay - 1

/-- An instant within the years of the calendar. -/
def inCalendar (instant : Int) : Bool :=
  decide (firstInstant ≤ instant) && decide (instant ≤ lastInstant)

/-- The timestamp without offset at an instant of the calendar. -/
def ofInstant (instant : Int) : Timestamp :=
  let day := (instant / perDay).toNat
  let rest := (instant % perDay).toNat
  let seconds := rest / perSecond
  ⟨Date.ofNumber day, seconds / 3600, seconds / 60 % 60, seconds % 60, rest % perSecond, none⟩

/-- The reading of a timestamp in the zone with the given offset in minutes.  Universal time and
the reading have to lie within the calendar.  A timestamp without offset is its own reading, but
for those so near to the ends of the calendar that the zone has no clock for them. -/
def inZone (minutes : Int) (time : Timestamp) : Except Fault Timestamp :=
  let shift := minutes * 60 * perSecond
  match time.offset with
  | some offset =>
    let universal := time.instant - offset
    if inCalendar universal && inCalendar (universal + shift) then
      .ok (ofInstant (universal + shift))
    else
      .error .dateOutOfRange
  | none =>
    if !inCalendar (time.instant + shift) || !inCalendar (time.instant - perDay) then
      .error .noLocalTime
    else if !inCalendar (time.instant - shift) then
      .error .dateOutOfRange
    else
      .ok time

/-- The minute, or the second, of a timestamp in running text.  The year is not padded. -/
def shortText (time : Timestamp) (withSeconds : Bool) : String :=
  let date := s!"{time.date.year}-" ++ padded 2 time.date.month ++ "-" ++ padded 2 time.date.day
  let clock := padded 2 time.hour ++ ":" ++ padded 2 time.minute
  date ++ "T" ++ clock ++ (if withSeconds then ":" ++ padded 2 time.second else "")

end Timestamp

end ChatHistory
