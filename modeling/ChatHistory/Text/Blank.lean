/-!
# Blank characters

`isBlank` is the class of characters that separate words: the Unicode white space characters and
the four ASCII information separators.  `strip` removes the blanks around a text, `stripEnd` those
behind it, and `words` cuts a text at its blanks, so that `words` never yields an empty word.
-/

namespace ChatHistory.Text

/-- The code points of the blank characters. -/
def blankCodes : List Nat :=
  [0x09, 0x0A, 0x0B, 0x0C, 0x0D, 0x1C, 0x1D, 0x1E, 0x1F, 0x20, 0x85, 0xA0, 0x1680,
   0x2000, 0x2001, 0x2002, 0x2003, 0x2004, 0x2005, 0x2006, 0x2007, 0x2008, 0x2009, 0x200A,
   0x2028, 0x2029, 0x202F, 0x205F, 0x3000]

/-- A character that separates words. -/
def isBlank (c : Char) : Bool :=
  blankCodes.contains c.toNat

/-- The text without the blanks in front of it. -/
def stripStart (text : List Char) : List Char :=
  text.dropWhile isBlank

/-- The text without the blanks behind it. -/
def stripEnd : List Char → List Char
  | [] => []
  | c :: rest =>
    match stripEnd rest with
    | [] => if isBlank c then [] else [c]
    | kept => c :: kept

/-- The text without the blanks around it. -/
def strip (text : List Char) : List Char :=
  stripEnd (stripStart text)

/-- The maximal runs of characters that are not blank, in order. -/
def words : List Char → List (List Char)
  | [] => []
  | c :: rest =>
    if isBlank c then
      words rest
    else
      match rest, words rest with
      | d :: _, w :: more => if isBlank d then [c] :: w :: more else (c :: w) :: more
      | _, more => [c] :: more

end ChatHistory.Text
