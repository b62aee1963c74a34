import ChatHistory.Fault
import ChatHistory.Block
import ChatHistory.Json.Writer
import ChatHistory.Text.Scan

/-!
# Tool results in log entries

The results of tools stand in the content of a user's entry.  What a tool did to a file stands
beside the message, in the field `toolUseResult`, and belongs to every result of the entry: the
hunks of the patch, the file before, and the file after, which is derived where the entry does not
give it.
-/

namespace ChatHistory.Entry

open Text

/-- The text of a field that should hold one: nothing for `null`, and the JSON text of a value of
another kind. -/
def fieldText : Json → String
  | .string s => s
  | .null => ""
  | value => value.text

/-- The content of a file after a tool edited it.  A tool that writes whole files gives the
content; otherwise the text that the tool replaced is replaced in the file before. -/
def fileAfter? (details : Fields) (before : Option String) : Option String :=
  let content := Json.field details "content"
  let kind := Json.field details "type"
  let replacement := match Json.field details "newString" with
    | .null => .string ""
    | value => value
  match content with
  | .string written =>
    if kind.isString "create" || kind.isString "update" then some written
    else replaced (Json.field details "oldString") replacement
  | _ => replaced (Json.field details "oldString") replacement
where
  /-- The file before with the replaced text exchanged, if both texts are given. -/
  replaced : Json → Json → Option String
    | .string old, .string new =>
      match before with
      | none => none
      | some file =>
        if file.isEmpty then none
        else
          let exchange :=
            if (Json.field details "replaceAll").isTruthy then replaceAll else replaceFirst
          some (String.ofList (exchange old.toList new.toList file.toList))
    | _, _ => none

/-- The content of a tool result as a text. -/
def resultText : Json → String
  | .string s => s
  | .null => (Json.string "").text
  | value => value.text

/-- The hunks of a patch.  Hunks that are no objects or whose positions are not numbers are left
out; an infinite position is a fault. -/
def hunks : List Json → Except Fault (List Hunk)
  | [] => .ok []
  | .object fields :: rest =>
    match Hunk.ofFields fields with
    | .ok hunk => do
      let more ← hunks rest
      return hunk :: more
    | .error .infinite => .error (.notInteger .infinite)
    | .error _ => hunks rest
  | _ :: rest => hunks rest

/-- What a tool did to a file. -/
structure FileChange where
  patch : List Hunk
  fileBefore : Option String
  fileAfter : Option String

/-- What a tool did to a file, from the value beside the message. -/
def fileChange : Json → Except Fault FileChange
  | .object [] => .ok ⟨[], none, none⟩
  | .object details => do
    let patch ← match Json.field details "structuredPatch" with
      | .array items => hunks items
      | _ => pure []
    let before := (Json.field details "originalFile").string?
    return ⟨patch, before, fileAfter? details before⟩
  | _ => .ok ⟨[], none, none⟩

/-- The tool results among the items of a content, all with the same file change. -/
def toolResults (items : List Json) (change : FileChange) : List ToolResult :=
  items.filterMap fun
    | .object item =>
      if (Json.field item "type").isString "tool_result" then
        some ⟨fieldText (Json.field item "tool_use_id"), resultText (Json.field item "content"),
          (Json.field item "is_error").isTruthy, change.patch, change.fileBefore,
          change.fileAfter⟩
      else
        none
    | _ => none

/-- The tool results of an entry, from its content and the value beside the message. -/
def toolResultBlocks (content details : Json) : Except Fault (List ToolResult) :=
  match content with
  | .array items => do
    let change ← fileChange details
    return toolResults items change
  | _ => .ok []

end ChatHistory.Entry
