/-!
# Headings inside a transcript

The headings of a transcript have the levels one and two, so headings in the text of the assistant
are moved down to the levels four to six.
-/

namespace ChatHistory.Heading

/-- The greatest level of a heading. -/
def maxLevel : Nat := 6

/-- The level that a heading of the given level is moved to. -/
def lowered (level : Nat) : Nat :=
  if level = 1 then 4 else min (level + 2) maxLevel

/-- A line with its heading, if it has one, moved down: a run of `#` with a space behind it. -/
def lower (line : List Char) : List Char :=
  let marks := line.takeWhile (· = '#')
  match line.dropWhile (· = '#') with
  | ' ' :: rest =>
    if marks.isEmpty then line else List.replicate (lowered marks.length) '#' ++ ' ' :: rest
  | _ => line

end ChatHistory.Heading
