import ChatHistory.Entry.Treatment
import ChatHistory.Entry.ToolResults

/-!
# Messages of log entries

`Entry.toMessage` makes the message of a log entry.  An entry without an identifier gets a fresh
one, and one without a time the present instant; `Origin` is where both come from.
-/

namespace ChatHistory

/-- The supply of what entries may lack: fresh identifiers by number, and the present instant. -/
structure Origin where
  freshId : Nat → String
  now : String

namespace Entry

/-- The metadata that every message of a log carries. -/
def sourceMetadata : Fields :=
  [("source", .string "history")]

/-- The notice shown where the context was compacted. -/
def compactNotice : String := "Context compacted"

/-- The error shown where a session failed. -/
def sessionFailure : String := "Session ended unexpectedly"

/-- The message of an entry with the given kind, content and metadata.  The number of identifiers
drawn so far grows only if the entry has none of its own. -/
def stamp (origin : Origin) (entry : Fields) (chatId : String) (kind : MessageKind)
    (content : List Block) (metadata : Fields) (drawn : Nat) : Message × Nat :=
  let own := fieldText (Json.field entry "uuid")
  let (id, drawn) := if own.isEmpty then (origin.freshId (drawn + 1), drawn + 1) else (own, drawn)
  let time := fieldText (Json.field entry "timestamp")
  (⟨id, chatId, kind, content, if time.isEmpty then origin.now else time, metadata⟩, drawn)

/-- The image that an item of a content holds. -/
def imageOf? (item : Fields) : Option Block :=
  match Json.field item "source" with
  | .object source =>
    if (Json.field source "type").isString "base64" then
      some (.image (fieldText (Json.field source "media_type"))
        (fieldText (Json.field source "data")))
    else
      none
  | _ => none

/-- The block of an item of a user's content; interruptions and tool results have none. -/
def userBlock? : Json → Option Block
  | .object item =>
    match Json.field item "type" with
    | .string "text" =>
      let text := fieldText (Json.field item "text")
      if isInterruption text then none else some (.text text)
    | .string "image" => imageOf? item
    | _ => none
  | _ => none

/-- The block of an item of an assistant's content. -/
def assistantBlock? : Json → Option Block
  | .object item =>
    match Json.field item "type" with
    | .string "text" => some (.text (fieldText (Json.field item "text")))
    | .string "thinking" => some (.thinking (fieldText (Json.field item "thinking")))
    | .string "tool_use" =>
      some (.toolUse ⟨fieldText (Json.field item "id"), fieldText (Json.field item "name"),
        ((Json.field item "input").object?).getD []⟩)
    | .string "image" => imageOf? item
    | _ => none
  | _ => none

/-- The blocks of a user's content: the tool results, then the user's own text and images. -/
def userBlocks (entry : Fields) : Json → Except Fault (List Block)
  | .string text => .ok [.text text]
  | .array items => do
    let results ← toolResultBlocks (.array items) (Json.field entry "toolUseResult")
    return results.map .toolResult ++ items.filterMap userBlock?
  | _ => .ok []

/-- The blocks of an assistant's content. -/
def assistantBlocks : Json → List Block
  | .string text => [.text text]
  | .array items => items.filterMap assistantBlock?
  | _ => []

/-- The metadata of an assistant's message: the model and the usage, where they are given. -/
def assistantMetadata (message : Fields) : Fields :=
  let model := Json.field message "model"
  let usage := Json.field message "usage"
  sourceMetadata ++
    (if model.isTruthy then [("model", model)] else []) ++
    (if usage.object?.isSome then [("usage", usage)] else [])

/-- The message of an entry that is neither dropped nor a notice. -/
def conversation (origin : Origin) (entry : Fields) (chatId : String) (drawn : Nat) :
    Except Fault (Option Message × Nat) := do
  let message := ((Json.field entry "message").object?).getD []
  let content := Json.field message "content"
  let stamped (kind : MessageKind) (blocks : List Block) (metadata : Fields) :
      Option Message × Nat :=
    let (made, drawn) := stamp origin entry chatId kind blocks metadata drawn
    (some made, drawn)
  match content with
  | .string _ | .array _ =>
    if (Json.field entry "type").isString "user" then
      let blocks ← userBlocks entry content
      if blocks.isEmpty then return (none, drawn)
      let kind := if blocks.any Block.isToolResult then .toolResult else .user
      return stamped kind blocks sourceMetadata
    else
      let blocks := assistantBlocks content
      if blocks.isEmpty then return (none, drawn)
      return stamped .assistant blocks (assistantMetadata message)
  | _ => return stamped .assistant [.text ""] sourceMetadata

/-- The message of an entry, if it has one, and how many identifiers have been drawn then. -/
def toMessage (origin : Origin) (chatId : String) (entry : Fields) (drawn : Nat) :
    Except Fault (Option Message × Nat) := do
  match ← Treatment.ofEntry entry with
  | .drop => return (none, drawn)
  | .compactNotice =>
    let (notice, drawn) := stamp origin entry chatId .system [.text compactNotice]
      (sourceMetadata ++ [("internal", .bool true)]) drawn
    return (some notice, drawn)
  | .sessionError =>
    let (failure, drawn) := stamp origin entry chatId .error [.error sessionFailure]
      sourceMetadata drawn
    return (some failure, drawn)
  | .message => conversation origin entry chatId drawn

/-- The messages of entries, in order, or the first fault, and how many identifiers have been drawn
then. -/
def toMessages (origin : Origin) (chatId : String) :
    List Fields → Nat → Except Fault (List Message) × Nat
  | [], drawn => (.ok [], drawn)
  | entry :: rest, drawn =>
    match toMessage origin chatId entry drawn with
    | .error fault => (.error fault, drawn)
    | .ok (message, drawn) =>
      let (messages, drawn) := toMessages origin chatId rest drawn
      (messages.map (message.toList ++ ·), drawn)

end Entry

end ChatHistory
