import ChatHistory.Text.Scan

/-!
# Control sequences

A control sequence asks a terminal for a colour, a movement or the like.  It is an escape character
and an opening bracket, then parameters, and a letter at the end.  `ControlSequence.erase` takes all
of them out of a text, for readers that are not terminals; an escape character that begins no
control sequence stays.
-/

namespace ChatHistory.Text.ControlSequence

/-- The beginning of a control sequence. -/
def introducer : List Char :=
  ['\x1b', '[']

/-- A character of the parameters: a digit, or one of two marks. -/
def isParameter (c : Char) : Bool :=
  c.isDigit || c = ';' || c = '?'

/-- Matches a control sequence: parameters may be missing, the letter at the end may not. -/
def control (text : List Char) : Option (Unit × Nat) := do
  let rest ← introducer.isPrefixOf? text
  let parameters := rest.takeWhile isParameter
  let final ← (rest.dropWhile isParameter).head?
  if final.isAlpha then return ((), introducer.length + parameters.length) else none

/-- The text without its control sequences.  What comes together when one is taken out is not looked
at again. -/
def erase (text : String) : String :=
  String.ofList (unmatched (scan control text.toList))

end ChatHistory.Text.ControlSequence
