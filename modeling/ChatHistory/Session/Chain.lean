import ChatHistory.Fault
import ChatHistory.Files.Path

/-!
# Chains of log files

When a session is resumed, its log may go on in a new file: the first entry of that file still
carries the identifier of the session that it continues, and the file is named for the identifier
of the new session.  `Chain.follow` finds the files that continue a session, those that continue
these, and so on, in breadth: the continuations of a file stand together, in the order of the
candidates, behind those of earlier files.
-/

namespace ChatHistory

/-- What stands at the beginning of a log file. -/
inductive Head where
  /-- The file may not be read. -/
  | unreadable
  /-- The first line that is not blank is no entry, or there is none. -/
  | nothing
  /-- The first line holds a number with too many digits. -/
  | oversized
  /-- An entry. -/
  | entry (fields : Fields)

/-- A file that may continue a session. -/
structure Candidate where
  path : Path
  head : Head

namespace Candidate

/-- The identifier of the session that a file is named for. -/
def sessionId (candidate : Candidate) : String :=
  candidate.path.stem

/-- A file whose first entry carries the given identifier. -/
def continues (candidate : Candidate) (id : String) : Bool :=
  match candidate.head with
  | .entry fields => (Json.field fields "sessionId").isString id
  | _ => false

end Candidate

namespace Chain

/-- The candidates that continue a session, at most as many as there is room for, and those that
remain for later.  Files that may not be read do not remain. -/
def continuations (id : String) :
    Nat → List Candidate → Except Fault (List Candidate × List Candidate)
  | 0, candidates => .ok ([], candidates)
  | _ + 1, [] => .ok ([], [])
  | room + 1, candidate :: rest =>
    match candidate.head with
    | .oversized => .error .tooManyDigits
    | .unreadable => continuations id (room + 1) rest
    | _ =>
      if candidate.continues id then do
        let (found, remaining) ← continuations id room rest
        return (candidate :: found, remaining)
      else do
        let (found, remaining) ← continuations id (room + 1) rest
        return (found, candidate :: remaining)

/-- The files that continue one of the pending sessions, directly or through others.  The first
argument bounds the number of sessions that are looked at. -/
def followFrom :
    Nat → Nat → List String → List Candidate → Except Fault (List Candidate)
  | 0, _, _, _ => .ok []
  | _ + 1, _, [], _ => .ok []
  | bound + 1, room, id :: pending, candidates =>
    if room = 0 then .ok []
    else do
      let (found, remaining) ← continuations id room candidates
      let more ← followFrom bound (room - found.length)
        (pending ++ found.map Candidate.sessionId) remaining
      return found ++ more

/-- The files that continue a session, at most as many as there is room for.  Every session that is
looked at, but for the first, is that of a file found before. -/
def follow (id : String) (room : Nat) (candidates : List Candidate) :
    Except Fault (List Candidate) :=
  followFrom (candidates.length + 1) room [id] candidates

end Chain

end ChatHistory
