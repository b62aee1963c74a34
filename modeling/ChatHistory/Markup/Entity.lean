import ChatHistory.Text.Scan

/-!
# Character entities

The four characters that have a meaning in tags are written as entities inside attributes.
`decode` replaces one kind of entity after the other, the ampersand last.  `decodeOnce` is the same
decoding as a single scan that never looks at its own output.
-/

namespace ChatHistory.Entity

open Text

/-- The entities and their characters, in the order in which they are replaced. -/
def table : List (List Char × Char) :=
  [("&quot;".toList, '"'), ("&lt;".toList, '<'), ("&gt;".toList, '>'), ("&amp;".toList, '&')]

/-- The text with every entity replaced by its character. -/
def decode (text : List Char) : List Char :=
  table.foldl (fun t entry => replaceAll entry.1 [entry.2] t) text

/-- The entity at the beginning of a text, and how many characters it has beyond the first. -/
def matchAt (text : List Char) : Option (Char × Nat) :=
  table.findSome? fun (entity, c) =>
    if entity.isPrefixOf text then some (c, entity.length - 1) else none

/-- The text with every entity replaced by its character, in one scan. -/
def decodeOnce (text : List Char) : List Char :=
  (scan matchAt text).map fun
    | .inl c => c
    | .inr c => c

end ChatHistory.Entity
