import ChatHistory.Text.DecimalDigit
import ChatHistory.Time.Timestamp

/-!
# Reading timestamps

`Timestamp.read` accepts the usual forms of the international format: a calendar date or a week
date, with or without dashes; any one character; hours, minutes, seconds and a fraction, with or
without colons; and an offset, where `Z` means none.  A text that ends in `Z` is in universal time.
The form is read leniently: one stray character may stand between the time and its offset, and
digits of a fraction beyond the sixth do not count.
-/

namespace ChatHistory.Timestamp

open Text

/-- The number that the first digits of a text write, of exactly the given count. -/
def readDigits (count : Nat) (text : List Char) : Option (Nat × List Char) :=
  let digits := text.take count
  if digits.length = count ∧ digits.all isAsciiDigit then
    some (asciiNumber digits, text.drop count)
  else
    none

/-- Nothing counts from here on: the text is at its end, or at a character that ends it. -/
def isOver : List Char → Bool
  | [] => true
  | c :: _ => c = '\x00'

/-! ## Dates -/

/-- How many characters at the beginning of a text belong to the date, by the positions of dashes,
of the week mark and of digits. -/
def dateLength (text : List Char) : Nat :=
  let isDigitAt (i : Nat) : Bool := (text[i]?).any isAsciiDigit
  if text[4]? = some '-' then
    if text[5]? = some 'W' then
      if text[8]? = some '-' then
        if isDigitAt 10 then 8 else 10
      else
        8
    else
      10
  else if text[4]? = some 'W' then
    let run := 7 + ((text.drop 7).takeWhile isAsciiDigit).length
    if run < 9 then run else if run % 2 = 0 then 7 else 8
  else
    8

/-- The weekday of a week date: Monday if there is none. -/
def readWeekday (dashed : Bool) : List Char → Option Nat
  | [] => some 1
  | c :: rest =>
    if dashed then
      if c = '-' then (readDigits 1 rest).map (·.1) else none
    else
      (readDigits 1 (c :: rest)).map (·.1)

/-- The date that a text writes, in one of the forms with or without dashes. -/
def readDate (text : List Char) : Option Date := do
  let (year, rest) ← readDigits 4 text
  let (dashed, rest) := match rest with
    | '-' :: more => (true, more)
    | more => (false, more)
  match rest with
  | 'W' :: rest =>
    let (week, rest) ← readDigits 2 rest
    let day ← readWeekday dashed rest
    Date.ofWeek? year week day
  | rest =>
    let (month, rest) ← readDigits 2 rest
    let rest ← if dashed then ['-'].isPrefixOf? rest else some rest
    let (day, _) ← readDigits 2 rest
    return ⟨year, month, day⟩

/-! ## Times of day -/

/-- The parts of a time of day or an offset, and whether text is left over behind them. -/
structure Clock where
  parts : List Nat
  microsecond : Nat
  leftover : Bool

/-- The microseconds of a fraction: its first six digits, padded with zeros. -/
def readFraction (parts : List Nat) (text : List Char) : Option Clock := do
  let count := min 6 text.length
  let (value, rest) ← readDigits count text
  return ⟨parts, value * Nat.pow 10 (6 - count), !isOver (rest.dropWhile isAsciiDigit)⟩

/-- The parts of a time of day from a text behind some of them.  The first argument counts the
parts still to come, and the flag says whether colons separate them. -/
def readParts : Nat → Bool → List Nat → List Char → Option Clock
  | 0, _, parts, text => readFraction parts text
  | count + 1, colons, parts, text => do
    let (part, rest) ← readDigits 2 text
    let parts := parts ++ [part]
    match rest with
    | [] => return ⟨parts, 0, false⟩
    | [c] => if c.toNat < 0x80 then return ⟨parts, 0, !isOver [c]⟩ else none
    | c :: more =>
      let colons := if parts.length = 1 then c = ':' else colons
      if colons && c = ':' then readParts count colons parts more
      else if c = '.' || c = ',' then readFraction parts more
      else if colons then none
      else readParts count colons parts (c :: more)

/-- A time of day, or an offset without its sign. -/
def readClock (text : List Char) : Option Clock :=
  readParts 3 false [] text

/-- The seconds that hours, minutes and seconds make. -/
def secondsOf (parts : List Nat) : Nat :=
  (parts[0]?).getD 0 * 3600 + (parts[1]?).getD 0 * 60 + (parts[2]?).getD 0

/-- The offset behind its sign, in microseconds; it has to be less than a day.  An offset of less
than a second is none. -/
def readOffset (negative : Bool) (text : List Char) : Option Int := do
  let clock ← readClock text
  if clock.leftover then none else
    let seconds := secondsOf clock.parts
    let magnitude : Int := if seconds = 0 then 0 else seconds * perSecond + clock.microsecond
    if magnitude < perDay then return (if negative then -magnitude else magnitude) else none

/-- The time of day and the offset that a text writes on a date. -/
def readTime (date : Date) (text : List Char) : Option Timestamp := do
  let isMark (c : Char) : Bool := c = '+' || c = '-' || c = 'Z'
  let clock ← readClock (text.takeWhile fun c => !isMark c)
  let offset ← match text.dropWhile fun c => !isMark c with
    | [] => if clock.leftover then none else some none
    | 'Z' :: rest => if isOver rest then some (some 0) else none
    | mark :: rest => (readOffset (mark = '-') rest).map some
  return ⟨date, (clock.parts[0]?).getD 0, (clock.parts[1]?).getD 0, (clock.parts[2]?).getD 0,
    clock.microsecond, offset⟩

/-- The timestamp that a text writes in the international format. -/
def readIso (text : List Char) : Option Timestamp := do
  if text.length < 7 then none else
    let length := if text.length = 7 then 7 else dateLength text
    let date ← readDate (text.take length)
    let time ← match text.drop length with
      | [] => some ⟨date, 0, 0, 0, 0, none⟩
      | _ :: rest => readTime date rest
    if time.isValid then return time else none

/-- The timestamp that a text writes; a `Z` at the end stands for an offset of zero. -/
def read (text : String) : Option Timestamp :=
  match text.toList.getLast? with
  | some 'Z' => readIso (text.toList.dropLast ++ "+00:00".toList)
  | _ => readIso text.toList

end ChatHistory.Timestamp
