import ChatHistory.Fault
import ChatHistory.Number.Numeral

/-!
# Content blocks

A message is made of blocks: text, reasoning, images, uses of tools, results of tools, errors and
requests for permission.  The result of a tool that edits files carries the hunks of the patch and
the contents of the file before and after.
-/

namespace ChatHistory

/-- One hunk of a patch: where it starts and how many lines it spans before and after, and its
lines. -/
structure Hunk where
  oldStart : Int
  oldLines : Int
  newStart : Int
  newLines : Int
  lines : List String
  deriving DecidableEq, Repr

namespace Hunk

/-- The integer that a position field holds: a number without its fraction, or the value of a
numeral.  Missing and empty values count as zero. -/
def position (value : Json) : Except NotInteger Int :=
  if value.isTruthy then
    match value with
    | .bool b => .ok b.toNat
    | .int n => .ok n
    | .double (.infinite _) => .error .infinite
    | .double x =>
      match x.truncate? with
      | some n => .ok n
      | none => .error .malformed
    | .string s =>
      match Numeral.readInt? s.toList with
      | some n => .ok n
      | none => .error .malformed
    | _ => .error .kind
  else
    .ok 0

/-- The hunk that the fields of an object describe.  Lines that are not texts stand in their
displayed form. -/
def ofFields (fields : Fields) : Except NotInteger Hunk := do
  let oldStart ← position (Json.field fields "oldStart")
  let oldLines ← position (Json.field fields "oldLines")
  let newStart ← position (Json.field fields "newStart")
  let newLines ← position (Json.field fields "newLines")
  let lines := match Json.field fields "lines" with
    | .array items => items.map Json.display
    | _ => []
  return ⟨oldStart, oldLines, newStart, newLines, lines⟩

/-- The hunk as a JSON object. -/
def toJson (hunk : Hunk) : Json :=
  .object [("oldStart", .int hunk.oldStart), ("oldLines", .int hunk.oldLines),
    ("newStart", .int hunk.newStart), ("newLines", .int hunk.newLines),
    ("lines", .array (hunk.lines.map .string))]

end Hunk

/-- The use of a tool: its identifier, the name of the tool, and its arguments. -/
structure ToolUse where
  id : String
  name : String
  input : Fields
  deriving Repr

/-- The result of the tool use with the given identifier.  An empty patch means that there is
none. -/
structure ToolResult where
  toolUseId : String
  content : String
  isError : Bool
  patch : List Hunk
  fileBefore : Option String
  fileAfter : Option String
  deriving DecidableEq, Repr

/-- One piece of the content of a message. -/
inductive Block where
  | text (text : String)
  | thinking (text : String)
  | image (mediaType data : String)
  | toolUse (use : ToolUse)
  | toolResult (result : ToolResult)
  | error (message : String)
  | permissionRequest (request : Json)
  deriving Repr

namespace ToolResult

/-- The patch as a JSON array. -/
def patchJson (result : ToolResult) : Json :=
  .array (result.patch.map Hunk.toJson)

/-- The result as a JSON object; of the file details only those that are there. -/
def toJson (result : ToolResult) : Json :=
  .object <|
    [("type", .string "tool_result"), ("toolUseId", .string result.toolUseId),
      ("content", .string result.content), ("isError", .bool result.isError)] ++
    (if result.patch.isEmpty then [] else [("structuredPatch", result.patchJson)]) ++
    (result.fileBefore.toList.map fun file => ("originalFile", .string file)) ++
    (result.fileAfter.toList.map fun file => ("modifiedFile", .string file))

end ToolResult

namespace Block

/-- The tool use of a block. -/
def toolUse? : Block → Option ToolUse
  | .toolUse use => some use
  | _ => none

/-- The tool result of a block. -/
def toolResult? : Block → Option ToolResult
  | .toolResult result => some result
  | _ => none

/-- A block that is a tool result. -/
def isToolResult : Block → Bool
  | .toolResult _ => true
  | _ => false

/-- The block as a JSON object. -/
def toJson : Block → Json
  | .text shown => .object [("type", .string "text"), ("text", .string shown)]
  | .thinking thought => .object [("type", .string "thinking"), ("thinking", .string thought)]
  | .image mediaType data =>
    .object [("type", .string "image"), ("mediaType", .string mediaType), ("data", .string data)]
  | .toolUse use =>
    .object [("type", .string "tool_use"), ("id", .string use.id), ("name", .string use.name),
      ("input", .object use.input)]
  | .toolResult result => result.toJson
  | .error message => .object [("type", .string "error"), ("message", .string message)]
  | .permissionRequest request =>
    .object [("type", .string "permission_request"), ("request", request)]

end Block

end ChatHistory
