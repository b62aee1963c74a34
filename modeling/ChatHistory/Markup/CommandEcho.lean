import ChatHistory.Text.Blank
import ChatHistory.Text.Scan

/-!
# Echoes of commands

When a user types a command, the client records an echo of it: the name and the arguments between
tags, with further tags around messages and output.  `CommandEcho.parse` reads the name of the
command and the text that the user typed behind it.
-/

namespace ChatHistory

open Text

/-- A command and the text that was typed behind it. -/
structure CommandEcho where
  name : String
  userText : String
  deriving DecidableEq, Repr

namespace CommandEcho

/-- The opening tag of a name. -/
def openTag (tag : String) : List Char :=
  '<' :: tag.toList ++ ['>']

/-- The closing tag of a name. -/
def closeTag (tag : String) : List Char :=
  '<' :: '/' :: tag.toList ++ ['>']

/-- The body of an element at the beginning of a text, and how many characters the element has
beyond the first.  A body holds no `<`. -/
def element (tag : String) (text : List Char) : Option (List Char × Nat) := do
  let inner ← (openTag tag).isPrefixOf? text
  let body := inner.takeWhile (· ≠ '<')
  let rest ← (closeTag tag).isPrefixOf? (inner.drop body.length)
  return (body, text.length - rest.length - 1)

/-- The body of the first element of a name. -/
def body? (tag : String) (text : List Char) : Option (List Char) :=
  search (fun rest => (element tag rest).map (·.1)) text

/-- The tags that surround parts of an echo. -/
def tags : List String :=
  ["command-message", "command-name", "command-args", "local-command-caveat",
    "local-command-stdout"]

/-- The text without the elements of the given tags, removed tag by tag. -/
def withoutElements (tags : List String) (text : List Char) : List Char :=
  tags.foldl (fun t tag => unmatched (scan (element tag) t)) text

/-- A command name without one slash in front of it. -/
def commandName : List Char → List Char
  | '/' :: rest => rest
  | name => name

/-- The command that a text echoes, if it has the name of one.  The user's text is what stands in
the arguments, and if that is blank, what the text holds outside the tags. -/
def parse (text : String) : Option CommandEcho :=
  (body? "command-name" text.toList).map fun name =>
    let arguments := strip ((body? "command-args" text.toList).getD [])
    let typed := if arguments.isEmpty then strip (withoutElements tags text.toList) else arguments
    ⟨String.ofList (commandName name), String.ofList typed⟩

/-- The text mentions the name of a command. -/
def isMarked (text : String) : Bool :=
  occursIn (openTag "command-name") text.toList

end CommandEcho

end ChatHistory
