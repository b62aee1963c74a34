import ChatHistory.Json.Basic

/-!
# Parts

A message is displayed as a list of parts.  Besides texts, reasoning, images and markers there are
tool calls, and the units that tool calls are folded into: a group of explorations, the gathered
reports of progress, and a task with the calls of its sub-agent nested under it.
-/

namespace ChatHistory

/-- A call with its arguments, and its result where there is one. -/
structure Invocation where
  id : String
  args : Fields
  result : Json
  isError : Option Bool
  deriving Repr

/-- A call of a named tool. -/
structure Call extends Invocation where
  name : String
  deriving Repr

/-- One unit of the display of a message. -/
inductive Part where
  | text (text : String)
  | reasoning (text : String)
  | image (mediaType data : String)
  | error (message : String)
  | permission (request : Json)
  | call (call : Call)
  /-- Explorations that follow one another. -/
  | toolGroup (id : String) (items : List Call)
  /-- All reports of progress of a message. -/
  | taskProgress (id : String) (items : List Call)
  /-- The call of a sub-agent with the calls that it made. -/
  | taskGroup (task : Invocation) (children : List Part)
  deriving Inhabited, Repr

namespace Part

/-- A part that is a tool call or a unit of tool calls. -/
def isCall : Part → Bool
  | .call _ | .toolGroup .. | .taskProgress .. | .taskGroup .. => true
  | _ => false

/-- A truth value as JSON, `null` if it is not known. -/
def flagJson : Option Bool → Json
  | none => .null
  | some flag => .bool flag

/-- A call as an item of a group. -/
def itemFields (call : Call) : Fields :=
  [("toolCallId", .string call.id), ("toolName", .string call.name), ("args", .object call.args),
    ("result", call.result), ("isError", flagJson call.isError)]

/-- The JSON object of a unit of tool calls. -/
def unitJson (id name : String) (items : List Call) (result : String) : Json :=
  .object [("type", .string "tool-call"), ("toolCallId", .string id), ("toolName", .string name),
    ("args", .object [("items", .array (items.map fun call => .object (itemFields call)))]),
    ("result", .string result)]

mutual

/-- The part as a JSON object. -/
def toJson : Part → Json
  | .text shown => .object [("type", .string "text"), ("text", .string shown)]
  | .reasoning thought => .object [("type", .string "reasoning"), ("text", .string thought)]
  | .image mediaType data =>
    .object [("type", .string "image"), ("mediaType", .string mediaType), ("data", .string data)]
  | .error message => .object [("type", .string "error"), ("message", .string message)]
  | .permission request => .object [("type", .string "permission"), ("request", request)]
  | .call made => .object (("type", .string "tool-call") :: itemFields made)
  | .toolGroup id items => unitJson id "_ToolGroup" items "grouped"
  | .taskProgress id items => unitJson id "_TaskProgress" items "accumulated"
  | .taskGroup task children =>
    .object [("type", .string "tool-call"), ("toolCallId", .string task.id),
      ("toolName", .string "_TaskGroup"),
      ("args", .object [("taskArgs", .object task.args), ("children", .array (listJson children))]),
      ("result", task.result), ("isError", flagJson task.isError)]

/-- The parts as JSON objects. -/
def listJson : List Part → List Json
  | [] => []
  | part :: parts => part.toJson :: listJson parts

end

end Part

end ChatHistory
