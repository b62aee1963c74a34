import ChatHistory.Json.Basic
import ChatHistory.Number.Shortest

/-!
# Writing JSON

`Json.write` writes a value on one line and `Json.indentedText` with one item or field on each
line.  Characters are written as they are, but for the quote, the backslash and the control
characters below the space.  Doubles are written with the fewest digits that read back, and those
that are no numbers as `NaN`, `Infinity` and `-Infinity`.

A value of any depth is written, where a writer whose stack is bounded gives up; that a value which
was written is read back is therefore said of every value, and meant of those that such a writer can
follow.  No string holds half a surrogate pair, so none is written.
-/

namespace ChatHistory.Json

/-- Doubles stand in positional form from `0.0001` up to below `1e16`; the exponent of others has a
sign and two digits at least. -/
def doubleLayout : Layout := ⟨-4, 16, 2, "NaN", "Infinity"⟩

/-- The decimal digits of an integer, behind its sign. -/
def intDigits (n : Int) : List Char :=
  if n < 0 then '-' :: Nat.toDigits 10 n.natAbs else Nat.toDigits 10 n.natAbs

/-- A digit of base sixteen, in lower case. -/
def hexDigit (n : Nat) : Char :=
  Nat.digitChar (n % 16)

/-- One character inside a string. -/
def escape (c : Char) : List Char :=
  if c = '"' then ['\\', '"']
  else if c = '\\' then ['\\', '\\']
  else if c = '\n' then ['\\', 'n']
  else if c = '\r' then ['\\', 'r']
  else if c = '\t' then ['\\', 't']
  else if c = '\x08' then ['\\', 'b']
  else if c = '\x0c' then ['\\', 'f']
  else if c < ' ' then ['\\', 'u', '0', '0', hexDigit (c.toNat / 16), hexDigit c.toNat]
  else [c]

/-- A string between quotes. -/
def writeString (s : String) : List Char :=
  '"' :: s.toList.flatMap escape ++ ['"']

/-- What stands between the brackets of a composite value and its members, by depth. -/
structure Spacing where
  /-- Behind an opening bracket. -/
  opening : Nat → List Char
  /-- Behind a comma. -/
  between : Nat → List Char
  /-- In front of a closing bracket. -/
  closing : Nat → List Char

namespace Spacing

/-- Everything on one line, with one space behind a comma. -/
def inline : Spacing := ⟨fun _ => [], fun _ => [' '], fun _ => []⟩

/-- A line break, and two spaces for each level of depth. -/
def newline (depth : Nat) : List Char :=
  '\n' :: List.replicate (2 * depth) ' '

/-- Each member on a line of its own, indented by two spaces for each level. -/
def indented : Spacing :=
  ⟨fun depth => newline (depth + 1), fun depth => newline (depth + 1), newline⟩

end Spacing

mutual

/-- The text of a value at a given depth. -/
def writeWith (spacing : Spacing) (depth : Nat) : Json → List Char
  | .null => "null".toList
  | .bool true => "true".toList
  | .bool false => "false".toList
  | .int n => intDigits n
  | .double x => (doubleLayout.text x).toList
  | .string s => writeString s
  | .array [] => ['[', ']']
  | .array (item :: items) =>
    '[' :: spacing.opening depth ++ writeWith spacing (depth + 1) item ++
      writeItems spacing depth items ++ spacing.closing depth ++ [']']
  | .object [] => ['{', '}']
  | .object ((name, value) :: fields) =>
    '{' :: spacing.opening depth ++ writeString name ++ [':', ' '] ++
      writeWith spacing (depth + 1) value ++ writeFields spacing depth fields ++
      spacing.closing depth ++ ['}']

/-- The items of an array behind the first, each with the comma in front of it. -/
def writeItems (spacing : Spacing) (depth : Nat) : List Json → List Char
  | [] => []
  | item :: items =>
    ',' :: spacing.between depth ++ writeWith spacing (depth + 1) item ++
      writeItems spacing depth items

/-- The fields of an object behind the first, each with the comma in front of it. -/
def writeFields (spacing : Spacing) (depth : Nat) : List (String × Json) → List Char
  | [] => []
  | (name, value) :: fields =>
    ',' :: spacing.between depth ++ writeString name ++ [':', ' '] ++
      writeWith spacing (depth + 1) value ++ writeFields spacing depth fields

end

/-- The text of a value on one line. -/
def write (value : Json) : List Char :=
  writeWith .inline 0 value

/-- The text of a value on one line. -/
def text (value : Json) : String :=
  String.ofList value.write

/-- The text of a value over several lines. -/
def indentedText (value : Json) : String :=
  String.ofList (writeWith .indented 0 value)

end ChatHistory.Json
