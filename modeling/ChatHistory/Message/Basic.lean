import ChatHistory.Block

/-!
# Messages

A message has a kind, a list of blocks, and metadata.  Assistant messages and messages of the kind
`toolUse` make up the turns of the assistant; `AnsweredMessage` is a message together with the
results of the tools that it uses.
-/

namespace ChatHistory

/-- The kind of a message. -/
inductive MessageKind where
  | user
  | assistant
  | system
  | toolUse
  | toolResult
  | error
  | permission
  /-- A kind that this library gives no meaning to. -/
  | other (name : String)
  deriving DecidableEq, Repr

namespace MessageKind

/-- The name of a kind. -/
def name : MessageKind → String
  | .user => "user"
  | .assistant => "assistant"
  | .system => "system"
  | .toolUse => "tool_use"
  | .toolResult => "tool_result"
  | .error => "error"
  | .permission => "permission"
  | .other name => name

/-- The kinds that have a meaning. -/
def known : List MessageKind :=
  [.user, .assistant, .system, .toolUse, .toolResult, .error, .permission]

/-- The kind of a given name. -/
def ofName (name : String) : MessageKind :=
  (known.find? fun kind => kind.name = name).getD (.other name)

/-- The kinds that belong to a turn of the assistant. -/
def isTurn : MessageKind → Bool
  | .assistant | .toolUse => true
  | _ => false

theorem name_ofName (text : String) : (ofName text).name = text := by
  unfold ofName
  cases h : known.find? fun kind => kind.name = text with
  | none => rfl
  | some kind => simpa using List.find?_some h

end MessageKind

/-- A message of a chat. -/
structure Message where
  id : String
  chatId : String
  kind : MessageKind
  content : List Block
  timestamp : String
  metadata : Fields
  deriving Repr

/-- A message with the results of the tools that it uses, by the identifier of the use. -/
structure AnsweredMessage extends Message where
  toolResults : Assoc ToolResult
  deriving Repr

namespace Message

/-- The message as a JSON object. -/
def toJson (message : Message) : Json :=
  .object [("id", .string message.id), ("chatId", .string message.chatId),
    ("type", .string message.kind.name), ("content", .array (message.content.map Block.toJson)),
    ("timestamp", .string message.timestamp), ("metadata", .object message.metadata)]

end Message

end ChatHistory
