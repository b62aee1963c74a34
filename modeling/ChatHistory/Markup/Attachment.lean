import ChatHistory.Markup.Entity
import ChatHistory.Text.Blank

/-!
# Attached files

The text of a user may hold tags that name attached files.  `Attachment.parse` collects the names
and removes the tags.  A tag runs up to the first `>`; its attributes are what stands behind the
blanks after the tag name, without one slash at the end.
-/

namespace ChatHistory.Attachment

open Text

/-- The beginning of a tag. -/
def opening : List Char :=
  "<attached_file_path".toList

/-- The beginning of the attribute that holds the name. -/
def nameAttribute : List Char :=
  "name=\"".toList

/-- The attributes without one slash at the end, unless the slash is all there is. -/
def withoutSlash (attributes : List Char) : List Char :=
  if attributes.length ≥ 2 ∧ attributes.getLast? = some '/' then attributes.dropLast
  else attributes

/-- The attributes between the tag name and the closing `>`: what follows the blanks, or the last
of several blanks if nothing else does. -/
def attributes? (inner : List Char) : Option (List Char) :=
  let blanks := inner.takeWhile isBlank
  match blanks, inner.dropWhile isBlank with
  | [], _ => none
  | [_], [] => none
  | _, [] => some (blanks.drop (blanks.length - 1))
  | _, rest => some (withoutSlash rest)

/-- The attributes of a tag at the beginning of a text, and how many characters the tag has beyond
the first. -/
def tag (text : List Char) : Option (List Char × Nat) := do
  let rest ← opening.isPrefixOf? text
  let inner := rest.takeWhile (· ≠ '>')
  if inner.length = rest.length then none else
    let attributes ← attributes? inner
    return (attributes, opening.length + inner.length)

/-- The value of the name attribute at the beginning of a text. -/
def nameValue (text : List Char) : Option (List Char) := do
  let rest ← nameAttribute.isPrefixOf? text
  let value := rest.takeWhile (· ≠ '"')
  if value.isEmpty || value.length = rest.length then none else some value

/-- The file name that the attributes of a tag give. -/
def name? (attributes : List Char) : Option String :=
  (search nameValue attributes).map fun value => String.ofList (Entity.decode value)

/-- The names of the attached files in order, and the text without the tags and without blanks
around it. -/
def parse (text : String) : List String × String :=
  let pieces := scan tag text.toList
  ((found pieces).filterMap name?, String.ofList (strip (unmatched pieces)))

end ChatHistory.Attachment
