import ChatHistory.DisplayedMessage
import ChatHistory.Text.Scan
import ChatHistory.Transcript.Duration
import ChatHistory.Transcript.Heading
import ChatHistory.Transcript.Preview

/-!
# Transcripts

A transcript shows displayed messages as a Markdown document: a title, the time of its making, the
number of messages and their period, and then every message under a heading of its own.
-/

namespace ChatHistory

/-- What a transcript depends on besides the messages: the present instant, in universal time, and
the offset of the local zone in whole minutes.  The offset is the same at every instant, and one
with seconds, such as the local mean times of the past, has no place here. -/
structure LocalClock where
  now : Timestamp
  zone : Int

namespace Transcript

open Text

/-- The lines of a text. -/
def textLines (text : String) : List String :=
  (splitAtChar '\n' text.toList).map String.ofList

/-- The local reading of a timestamp to the minute, empty if there is none. -/
def shortTime (clock : LocalClock) : Option Timestamp → Except Fault String
  | none => .ok ""
  | some time => do
    let reading ← time.inZone clock.zone
    return reading.shortText false

/-! ## Parts -/

/-- What marks a failed call. -/
def errorMark : String := " **(error)**"

/-- The line of a tool call: the name and a preview of the arguments. -/
def callLine (indent : String) (call : Call) : String :=
  let args := if call.args.isEmpty then "" else Preview.ofJson (.object call.args)
  let line := s!"{indent}- `{call.name}` {args}"
  String.ofList (stripEnd line.toList) ++ (if call.isError = some true then errorMark else "")

/-- What a preview of a call's result shows: the content, where the result has file details. -/
def shownResult : Json → Json
  | .object fields => Json.field fields "content"
  | result => result

/-- The line with a preview of a call's result, if there is something to show. -/
def resultLines (indent : String) (call : Call) : List String :=
  let preview := Preview.ofJson (shownResult call.result)
  if preview.isEmpty then [] else [s!"{indent}  - → {preview}"]

/-- The lines of a unit of tool calls under a heading line. -/
def unitLines (indent heading : String) (items : List Call) : List String :=
  heading :: items.map (callLine (indent ++ "  "))

/-- The description of a task: the one in its arguments, or else its identifier. -/
def taskDescription (task : Invocation) : String :=
  let description := Json.field task.args "description"
  if description.isTruthy then description.display else task.id

mutual

/-- The lines of a part.  Headings are moved down where the flag asks for it. -/
def partLines (lowerHeadings : Bool) (indent : String) : Part → List String
  | .text shown =>
    if shown.isEmpty then []
    else
      let lower (line : String) : String := String.ofList (Heading.lower line.toList)
      (textLines shown).map (if lowerHeadings then lower else id) ++ [""]
  | .reasoning thought => (textLines thought).map ("> " ++ ·) ++ [""]
  | .image mediaType _ => [s!"{indent}[Image: {mediaType}]", ""]
  | .call made => callLine indent made :: resultLines indent made
  | .toolGroup _ items => unitLines indent s!"{indent}- Explored ({items.length} calls)" items
  | .taskProgress _ items =>
    unitLines indent s!"{indent}- Task progress ({items.length} updates)" items
  | .taskGroup task children =>
    (s!"{indent}- Task: {taskDescription task}" ++
        (if task.isError = some true then errorMark else "")) ::
      childLines lowerHeadings (indent ++ "  ") children
  | .error message => [s!"**Error**: {message}", ""]
  | .permission _ => ["**Permission requested**", ""]

/-- The lines of the parts nested under a task. -/
def childLines (lowerHeadings : Bool) (indent : String) : List Part → List String
  | [] => []
  | part :: parts =>
    partLines lowerHeadings indent part ++ childLines lowerHeadings indent parts

end

/-- The lines of the parts of a message.  Tool calls form a list; an empty line ends it. -/
def contentLines (lowerHeadings : Bool) : Bool → List Part → List String
  | inList, [] => if inList then [""] else []
  | inList, part :: parts =>
    (if inList && !part.isCall then [""] else []) ++ partLines lowerHeadings "" part ++
      contentLines lowerHeadings part.isCall parts

/-! ## Messages -/

/-- The icon of a role. -/
def icon : Role → String
  | .user => "👤"
  | .assistant => "🤖"
  | _ => "📄"

/-- The duration of a turn behind a dash, if it is known and can be shown. -/
def durationText (metadata : Fields) : Except Fault String :=
  match Milliseconds.ofJson? (Json.field metadata turnDurationField) with
  | none => .ok ""
  | some duration => do
    let shown ← duration.text
    return if shown.isEmpty then "" else " - " ++ shown

/-- The lines of one message under its heading. -/
def messageLines (clock : LocalClock) (number : Nat) (message : DisplayedMessage) :
    Except Fault (List String) := do
  let time ← shortTime clock message.createdAt
  let duration ← durationText message.metadata
  let heading := s!"## {number}. {icon message.role} {time} ({message.role.name}){duration}"
  return [heading, ""] ++ contentLines (message.role = .assistant) false message.content ++
    ["---", ""]

/-- The lines of messages that are numbered from the given number on. -/
def messagesLines (clock : LocalClock) : Nat → List DisplayedMessage → Except Fault (List String)
  | _, [] => .ok []
  | number, message :: rest => do
    let lines ← messageLines clock number message
    let more ← messagesLines clock (number + 1) rest
    return lines ++ more

/-- The lines about the period that messages span, if there are any. -/
def periodLines (clock : LocalClock) (messages : List DisplayedMessage) :
    Except Fault (List String) :=
  match messages.head?, messages.getLast? with
  | some first, some last => do
    let start ← shortTime clock first.createdAt
    let finish ← shortTime clock last.createdAt
    return [s!"- **Period**: {start} - {finish}"]
  | _, _ => .ok []

/-- The time of making in the local zone. -/
def generatedText (clock : LocalClock) : String :=
  let universal := { clock.now with offset := some 0 }
  let reading := match universal.inZone clock.zone with
    | .ok reading => reading
    | .error _ => clock.now
  String.ofList ((reading.shortText true).toList.map fun c => if c = 'T' then ' ' else c)

/-- The transcript of messages under a title. -/
def ofMessages (clock : LocalClock) (title : String) (messages : List DisplayedMessage) :
    Except Fault String := do
  let period ← periodLines clock messages
  let body ← messagesLines clock 1 messages
  let lines :=
    [s!"# {title} - Export", "", s!"**Generated**: {generatedText clock}", "",
      s!"- **Messages**: {messages.length}"] ++ period ++ ["", "---", ""] ++ body
  return "\n".intercalate lines

end Transcript

end ChatHistory
