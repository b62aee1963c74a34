import ChatHistory.Json.Writer
import ChatHistory.Text.Blank

/-!
# Previews

A preview shows a value on one line: its words with single spaces between them, cut after
`maxLength` characters.
-/

namespace ChatHistory.Preview

open Text

/-- The number of characters after which a preview is cut. -/
def maxLength : Nat := 200

/-- The words of a text with single spaces between them. -/
def singleLine (text : List Char) : List Char :=
  List.intercalate [' '] (words text)

/-- A text cut after `maxLength` characters, with an ellipsis where something is missing. -/
def shorten (text : List Char) : List Char :=
  if maxLength < text.length then text.take maxLength ++ ['…'] else text

/-- The characters of a value that a preview shows: nothing for `null`, a string itself, and the
JSON text of any other value. -/
def source : Json → List Char
  | .null => []
  | .string s => s.toList
  | value => value.write

/-- The preview of a value. -/
def ofJson (value : Json) : String :=
  String.ofList (shorten (singleLine (source value)))

end ChatHistory.Preview
