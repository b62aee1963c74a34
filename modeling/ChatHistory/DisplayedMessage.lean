import ChatHistory.Entry.Treatment
import ChatHistory.Markup.Attachment
import ChatHistory.Markup.CommandEcho
import ChatHistory.Message.Turns
import ChatHistory.Part.Nesting
import ChatHistory.Time.Reader

/-!
# Messages for display

`DisplayedMessage.ofAnswered` makes the displayed form of a message: who speaks, the parts, the
time, and metadata with the command and the attached files of the user.
`DisplayedMessage.ofMessages` does so for a whole log: echoes of commands are dropped and the rest
is grouped into turns.
-/

namespace ChatHistory

/-- Who speaks in a displayed message. -/
inductive Role where
  | user
  | assistant
  | system
  /-- A role that this library gives no meaning to. -/
  | other (name : String)
  deriving DecidableEq, Repr

namespace Role

/-- The name of a role. -/
def name : Role → String
  | .user => "user"
  | .assistant => "assistant"
  | .system => "system"
  | .other name => name

/-- The role of a given name. -/
def ofName (name : String) : Role :=
  ([Role.user, .assistant, .system].find? fun role => role.name = name).getD (.other name)

end Role

/-- A message in its displayed form. -/
structure DisplayedMessage where
  id : String
  role : Role
  content : List Part
  createdAt : Option Timestamp
  metadata : Fields
  deriving Repr

namespace ToolResult

/-- The result of a tool call: the content, together with what happened to the file if there is a
patch. -/
def callResult (result : ToolResult) : Json :=
  let fileJson (file : Option String) : Json := (file.map Json.string).getD .null
  if result.patch.isEmpty then
    .string result.content
  else
    .object [("content", .string result.content), ("structuredPatch", result.patchJson),
      ("originalFile", fileJson result.fileBefore),
      ("modifiedFile", fileJson result.fileAfter)]

/-- The text that stands in place of a result whose tool use is unknown. -/
def orphanText (result : ToolResult) : String :=
  "[Tool Result] " ++ result.content

end ToolResult

namespace DisplayedMessage

/-- The parts, or an empty text if there are none. -/
def orEmptyText (parts : List Part) : List Part :=
  if parts.isEmpty then [.text ""] else parts

/-! ## Messages of the user -/

/-- The metadata of the command that a text echoes. -/
def commandMetadata (text : String) : Fields :=
  match CommandEcho.parse text with
  | none => []
  | some echo =>
    [("command",
        .object [("name", .string echo.name), ("userText", .string echo.userText)]),
      ("cleanText", .string echo.userText)]

/-- The metadata of the files attached in a text. -/
def attachmentMetadata (text : String) : Fields :=
  match (Attachment.parse text).1 with
  | [] => []
  | names =>
    [("attachedFiles", .array (names.map fun name => .object [("name", .string name)]))]

/-- What is shown of a text of the user: the text, without the tags if it attaches files, and
nothing if that is blank. -/
def userTextParts (text : String) : List Part :=
  let (names, clean) := Attachment.parse text
  let shown := if names.isEmpty then text else clean
  if (Text.strip shown.toList).isEmpty then [] else [.text shown]

/-- The parts of a block of the user. -/
def userParts : Block → List Part
  | .image mediaType data => [.image mediaType data]
  | .text text => if isInterruption text then [] else userTextParts text
  | _ => []

/-- The metadata that a block of the user gives. -/
def userMetadata : Block → Fields
  | .text text =>
    if isInterruption text then [] else commandMetadata text ++ attachmentMetadata text
  | _ => []

/-! ## Turns of the assistant -/

/-- The call of a tool, with its result where it is known. -/
def callOf (results : Assoc ToolResult) (use : ToolUse) : Call :=
  let result := Assoc.get? results use.id
  { id := use.id
    args := use.input
    result := (result.map ToolResult.callResult).getD .null
    isError := result.map ToolResult.isError
    name := use.name }

/-- The part of a block of a turn; hidden tools have none. -/
def turnPart? (vocabulary : ToolVocabulary) (results : Assoc ToolResult) : Block → Option Part
  | .text text => some (.text text)
  | .thinking text => some (.reasoning text)
  | .toolUse use =>
    if vocabulary.hides use.name then none else some (.call (callOf results use))
  | .toolResult result => some (.text result.orphanText)
  | .error message => some (.error message)
  | .permissionRequest request => some (.permission request)
  | .image _ _ => none

/-- The parts of a turn, folded and nested. -/
def turnParts (vocabulary : ToolVocabulary) (message : AnsweredMessage) : List Part :=
  orEmptyText (arrangeParts vocabulary
    (message.content.filterMap (turnPart? vocabulary message.toolResults)))

/-! ## All messages -/

/-- Who speaks in a message of the given kind. -/
def roleOf : MessageKind → Role
  | .user => .user
  | .system => .system
  | _ => .assistant

/-- The parts of a message. -/
def partsOf (vocabulary : ToolVocabulary) (message : AnsweredMessage) : List Part :=
  match message.kind with
  | .user => orEmptyText (message.content.flatMap userParts)
  | .system =>
    orEmptyText (message.content.filterMap fun
      | .text text => some (.text text)
      | _ => none)
  | .assistant | .toolUse | .toolResult => turnParts vocabulary message
  | .error =>
    let messages := message.content.filterMap fun
      | .error text => some text
      | _ => none
    [.error (messages.head?.getD "")]
  | .permission =>
    let requests := message.content.filterMap fun
      | .permissionRequest request => some request
      | _ => none
    [.permission (requests.head?.getD .null)]
  | .other _ => [.text ""]

/-- The metadata of a message, with what the user's texts give set in turn. -/
def metadataOf (message : AnsweredMessage) : Fields :=
  if message.kind = .user then
    Assoc.merge message.metadata (message.content.flatMap userMetadata)
  else
    message.metadata

/-- The displayed form of a message. -/
def ofAnswered (vocabulary : ToolVocabulary) (message : AnsweredMessage) : DisplayedMessage :=
  { id := message.id
    role := roleOf message.kind
    content := partsOf vocabulary message
    createdAt := Timestamp.read message.timestamp
    metadata := metadataOf message }

/-- The displayed form of a log. -/
def ofMessages (vocabulary : ToolVocabulary) (messages : List Message) : List DisplayedMessage :=
  (Turns.group (Message.withoutCommandEchoes messages)).map (ofAnswered vocabulary)

/-- The displayed message as a JSON object. -/
def toJson (message : DisplayedMessage) : Json :=
  .object [("id", .string message.id), ("role", .string message.role.name),
    ("content", .array (Part.listJson message.content)),
    ("createdAt", (message.createdAt.map fun time => Json.string time.iso).getD .null),
    ("metadata", .object message.metadata)]

end DisplayedMessage

end ChatHistory
