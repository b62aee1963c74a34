import ChatHistory.Fault
import ChatHistory.Message.Basic
import ChatHistory.Markup.CommandEcho

/-!
# What becomes of a log entry

An entry of a session log is shown as a message, replaced by a fixed notice, or dropped.
`Treatment.ofEntry` decides by the first rule that applies: the entry type, the flags of entries
that the client writes for itself, and the shape of the message.
-/

namespace ChatHistory

/-- What becomes of a log entry. -/
inductive Treatment where
  /-- The entry carries no conversation. -/
  | drop
  /-- The entry marks that the context was compacted. -/
  | compactNotice
  /-- The entry records that the session failed. -/
  | sessionError
  /-- The entry is a message. -/
  | message
  deriving DecidableEq, Repr

namespace Treatment

/-- The name of a treatment. -/
def name : Treatment → String
  | .drop => "drop"
  | .compactNotice => "compact_notice"
  | .sessionError => "session_error"
  | .message => "message"

/-- The flags of the entries that the client writes for itself. -/
def hiddenFlags : List String :=
  ["isMeta", "isVisibleInTranscriptOnly", "isCompactSummary"]

/-- The beginning of the text of an entry that reports the result of a background task. -/
def taskNotification : String := "<task-notification>"

/-- A content that reports the result of a background task. -/
def reportsTask : Json → Bool
  | .string text => taskNotification.toList.isPrefixOf text.toList
  | _ => false

/-- What becomes of the entry of a user or an assistant, by its message. -/
def ofMessage (byUser : Bool) : Json → Treatment
  | .object fields =>
    match Json.field fields "content" with
    | .array [] => .drop
    | content => if byUser && reportsTask content then .drop else .message
  | _ => .drop

/-- What becomes of an entry.  The type of an entry may be any value that is not composite. -/
def ofEntry (entry : Fields) : Except Fault Treatment :=
  let type := Json.field entry "type"
  let subtype := Json.field entry "subtype"
  if type.isComposite then
    .error .compositeName
  else if type.isString "progress" || type.isString "queue-operation" then
    .ok .drop
  else if hiddenFlags.any fun flag => (Json.field entry flag).isTrue then
    .ok .drop
  else if type.isString "system" then
    .ok (if subtype.isString "compact_boundary" then .compactNotice else .drop)
  else if type.isString "result" then
    .ok (if subtype.isString "error_during_execution" && (Json.field entry "is_error").isTrue
      then .sessionError else .drop)
  else if type.isString "user" || type.isString "assistant" then
    .ok (ofMessage (type.isString "user") (Json.field entry "message"))
  else
    .ok .drop

end Treatment

/-- The beginning of the text that the client writes where the user stops a turn. -/
def interruptionMark : String := "[Request interrupted"

/-- A text that the client writes where the user stops a turn. -/
def isInterruption (text : String) : Bool :=
  interruptionMark.toList.isPrefixOf text.toList

namespace Message

/-- A message of the user that echoes a command. -/
def isCommandEcho (message : Message) : Bool :=
  message.kind = .user && message.content.any fun
    | .text text => CommandEcho.isMarked text
    | _ => false

/-- The messages that do not echo a command. -/
def withoutCommandEchoes (messages : List Message) : List Message :=
  messages.filter fun message => !message.isCommandEcho

end Message

end ChatHistory
