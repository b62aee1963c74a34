/-!
# Scanning a text for matches

A matcher looks at the beginning of a text and answers with a value and with how many characters
it takes beyond the first.  `scan` walks once from left to right and splits a text into the matches
and the characters between them; matches never overlap and what they cover is not looked at again.
Replacing, erasing and collecting are all read off the scan.  `search` finds the first place where
a matcher answers at all.
-/

namespace ChatHistory.Text

/-- The matches of a text in order, with the characters left between them.  The number counts the
characters still covered by the last match. -/
def scanFrom {α : Type} (matchAt : List Char → Option (α × Nat)) :
    Nat → List Char → List (α ⊕ Char)
  | _, [] => []
  | covered + 1, _ :: rest => scanFrom matchAt covered rest
  | 0, c :: rest =>
    match matchAt (c :: rest) with
    | some (a, more) => .inl a :: scanFrom matchAt more rest
    | none => .inr c :: scanFrom matchAt 0 rest

/-- The matches of a text in order, with the characters left between them. -/
def scan {α : Type} (matchAt : List Char → Option (α × Nat)) (text : List Char) :
    List (α ⊕ Char) :=
  scanFrom matchAt 0 text

/-- The matches among the pieces of a scan. -/
def found {α : Type} (pieces : List (α ⊕ Char)) : List α :=
  pieces.filterMap fun
    | .inl a => some a
    | .inr _ => none

/-- The characters that no match covers. -/
def unmatched {α : Type} (pieces : List (α ⊕ Char)) : List Char :=
  pieces.filterMap fun
    | .inl _ => none
    | .inr c => some c

/-- The answer of a matcher at the first place of the text where it has one. -/
def search {α : Type} (matchAt : List Char → Option α) : List Char → Option α
  | [] => matchAt []
  | c :: rest =>
    match matchAt (c :: rest) with
    | some a => some a
    | none => search matchAt rest

/-- The pattern occurs somewhere in the text. -/
def occursIn (pattern : List Char) (text : List Char) : Bool :=
  (search (fun rest => pattern.isPrefixOf? rest) text).isSome

/-- Matches exactly the given pattern; an empty pattern matches nowhere. -/
def literally (pattern : List Char) (text : List Char) : Option (Unit × Nat) :=
  if pattern ≠ [] ∧ pattern.isPrefixOf text then some ((), pattern.length - 1) else none

/-- Every occurrence of the pattern replaced, from left to right.  The empty pattern stands in
front of every character and at the end. -/
def replaceAll (pattern replacement text : List Char) : List Char :=
  if pattern = [] then
    replacement ++ text.flatMap fun c => c :: replacement
  else
    (scan (literally pattern) text).flatMap fun
      | .inl _ => replacement
      | .inr c => [c]

/-- The first occurrence of the pattern replaced. -/
def replaceFirst (pattern replacement : List Char) : List Char → List Char
  | [] => if pattern = [] then replacement else []
  | c :: rest =>
    match pattern.isPrefixOf? (c :: rest) with
    | some after => replacement ++ after
    | none => c :: replaceFirst pattern replacement rest

/-- The pieces of a text between the occurrences of a separator; there is always one more piece
than there are separators. -/
def splitAtChar (separator : Char) : List Char → List (List Char)
  | [] => [[]]
  | c :: rest =>
    if c = separator then
      [] :: splitAtChar separator rest
    else
      match splitAtChar separator rest with
      | [] => [[c]]
      | piece :: more => (c :: piece) :: more

end ChatHistory.Text
