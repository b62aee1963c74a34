import ChatHistory.Text.Blank
import ChatHistory.Text.DecimalDigit

/-!
# Whole numbers written as text

A numeral is a sign, if any, followed by decimal digits of any script, with single underscores
allowed between digits; blanks may stand around it.  A numeral of more than `maxDigits` digits is
refused, leading zeros counted.  `readInt?` is the value of a numeral, and `isWritable` tells which
whole numbers have one.
-/

namespace ChatHistory.Numeral

open Text

/-- The greatest number of digits that a numeral may have. -/
def maxDigits : Nat := 4300

/-- A whole number that numerals can write. -/
def isWritable (n : Int) : Bool :=
  n.natAbs < Nat.pow 10 maxDigits

/-- Blanks that may stand around a numeral: all but the four ASCII separators. -/
def isPadding (c : Char) : Bool :=
  isBlank c && !(decide ('\x1c' ≤ c) && decide (c ≤ '\x1f'))

/-- Text without the padding around it. -/
def unpad (text : List Char) : List Char :=
  ((text.dropWhile isPadding).reverse.dropWhile isPadding).reverse

/-- The digit values of a run of digits in which single underscores may separate digits.  At least
one digit is needed. -/
def digits? : List Char → Option (List Nat)
  | [] => none
  | [c] => (digitValue? c).map ([·])
  | c :: '_' :: rest => do
    let d ← digitValue? c
    let ds ← digits? rest
    return d :: ds
  | c :: rest => do
    let d ← digitValue? c
    let ds ← digits? rest
    return d :: ds

/-- The natural number written by digits with separators, unless there are too many digits. -/
def readNat? (text : List Char) : Option Nat := do
  let ds ← digits? text
  if ds.length ≤ maxDigits then some (ofDigits 10 ds) else none

/-- The integer that a text writes, with an optional sign and padding around it. -/
def readInt? (text : List Char) : Option Int :=
  match unpad text with
  | '-' :: rest => (readNat? rest).map fun n => -(n : Int)
  | '+' :: rest => (readNat? rest).map fun n => (n : Int)
  | rest => (readNat? rest).map fun n => (n : Int)

end ChatHistory.Numeral
