import ChatHistory.Fault
import ChatHistory.Json.Reader
import ChatHistory.Text.Blank

/-!
# Log entries on lines

A log holds one JSON object on each line.  Lines that are blank, that are not JSON, or that hold
another value are skipped, so that a line that was not written completely hides nothing else.  The
reports on skipped lines that the verbose setting asks for are left out: they go to the error stream
and leave the entries as they are.
-/

namespace ChatHistory.Entry

open Text

/-- What a line of a log holds. -/
inductive Line where
  /-- Nothing but blanks. -/
  | blank
  /-- A text that is not JSON, or a value that is not an object. -/
  | unusable
  /-- An entry. -/
  | entry (fields : Fields)

/-- What a line holds.  A number with too many digits is a fault. -/
def readLine (line : List Char) : Except Fault Line :=
  match strip line with
  | [] => .ok .blank
  | text =>
    match Json.read text with
    | .ok (.object fields) => .ok (.entry fields)
    | .ok _ => .ok .unusable
    | .error .grammar => .ok .unusable
    | .error .tooManyDigits => .error .tooManyDigits

/-- The entries of a log, in order. -/
def readLines : List (List Char) → Except Fault (List Fields)
  | [] => .ok []
  | line :: rest => do
    match ← readLine line with
    | .entry fields =>
      let entries ← readLines rest
      return fields :: entries
    | _ => readLines rest

/-- The entry on the first line that is not blank, if that line holds one. -/
def readFirst : List (List Char) → Except Fault (Option Fields)
  | [] => .ok none
  | line :: rest => do
    match ← readLine line with
    | .blank => readFirst rest
    | .unusable => return none
    | .entry fields => return some fields

end ChatHistory.Entry
