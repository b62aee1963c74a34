import ChatHistory.Json.Basic
import ChatHistory.Number.Shortest
import ChatHistory.Text.Printable

/-!
# Values in diagnostics

Where a message quotes a value, the value stands as a literal: texts between quotes, `None`,
`True` and `False` for the constants, brackets and braces around composite values.  The quote is an
apostrophe, or a double quote where the text has an apostrophe and no double quote.
`Json.display` is the looser form in running text, where a string stands for itself.
-/

namespace ChatHistory

/-- The form of a value that is quoted in a message. -/
inductive Literal where
  /-- A number or another value that is a single word. -/
  | word (text : String)
  /-- A text between quotes. -/
  | quoted (text : String)
  /-- A sequence of values. -/
  | list (items : List Literal)
  /-- Named values. -/
  | table (entries : List (String × Literal))

namespace Literal

/-- Doubles stand in positional form from `0.0001` up to below `1e16`. -/
def doubleLayout : Layout := ⟨-4, 16, 2, "nan", "inf"⟩

/-- The digits of base sixteen of a number, in lower case and at least as many as asked for. -/
def hexDigits (width n : Nat) : List Char :=
  let digits := Nat.toDigits 16 n
  List.replicate (width - digits.length) '0' ++ digits

/-- One character between the given quotes. -/
def escape (quote c : Char) : List Char :=
  if c = quote ∨ c = '\\' then ['\\', c]
  else if c = '\t' then ['\\', 't']
  else if c = '\n' then ['\\', 'n']
  else if c = '\r' then ['\\', 'r']
  else if Text.isPrintable c then [c]
  else if c.toNat < 0x100 then '\\' :: 'x' :: hexDigits 2 c.toNat
  else if c.toNat < 0x10000 then '\\' :: 'u' :: hexDigits 4 c.toNat
  else '\\' :: 'U' :: hexDigits 8 c.toNat

/-- A text between quotes. -/
def quote (text : List Char) : List Char :=
  let mark := if text.contains '\'' && !text.contains '"' then '"' else '\''
  mark :: text.flatMap (escape mark) ++ [mark]

mutual

/-- The text of a literal. -/
def write : Literal → List Char
  | .word text => text.toList
  | .quoted text => quote text.toList
  | .list [] => ['[', ']']
  | .list (item :: items) => '[' :: write item ++ writeItems items ++ [']']
  | .table [] => ['{', '}']
  | .table ((name, value) :: entries) =>
    '{' :: quote name.toList ++ [':', ' '] ++ write value ++ writeEntries entries ++ ['}']

/-- The items of a sequence behind the first. -/
def writeItems : List Literal → List Char
  | [] => []
  | item :: items => ',' :: ' ' :: write item ++ writeItems items

/-- The named values behind the first. -/
def writeEntries : List (String × Literal) → List Char
  | [] => []
  | (name, value) :: entries =>
    ',' :: ' ' :: quote name.toList ++ [':', ' '] ++ write value ++ writeEntries entries

end

/-- The text of a literal. -/
def text (literal : Literal) : String :=
  String.ofList literal.write

end Literal

namespace Json

mutual

/-- The literal of a JSON value. -/
def literal : Json → Literal
  | .null => .word "None"
  | .bool true => .word "True"
  | .bool false => .word "False"
  | .int n => .word (toString n)
  | .double x => .word (Literal.doubleLayout.text x)
  | .string s => .quoted s
  | .array items => .list (literalItems items)
  | .object fields => .table (literalFields fields)

/-- The literals of the items of an array. -/
def literalItems : List Json → List Literal
  | [] => []
  | item :: items => item.literal :: literalItems items

/-- The literals of the fields of an object. -/
def literalFields : List (String × Json) → List (String × Literal)
  | [] => []
  | (name, value) :: fields => (name, value.literal) :: literalFields fields

end

/-- A value in running text: a string as it is, any other value as its literal. -/
def display : Json → String
  | .string s => s
  | value => value.literal.text

end Json

end ChatHistory
