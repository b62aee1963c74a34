import ChatHistory.ToolOwners
import ChatHistory.Message.Basic

/-!
# Turns

`Turns.group` makes turns of the messages of a log, so that every tool use stands in one message
with its result.  Consecutive messages of the assistant become one; tool results go to the turn
that uses the tool, however long ago that was, and results of unknown uses stay where they are; a
marker with the duration of a turn goes to the latest turn.  At last, tool uses that repeat an
earlier identifier are removed.  Nothing changes its place.
-/

namespace ChatHistory

/-- The name of the metadata field with the duration of a turn. -/
def turnDurationField : String := "turnDurationMs"

namespace Message

/-- The duration that a marker gives for the latest turn: a number in a system message. -/
def statedDuration? (message : Message) : Option Json :=
  if message.kind = .system then
    match Json.field message.metadata turnDurationField with
    | .int n => some (.int n)
    | .double x => some (.double x)
    | _ => none
  else
    none

/-- The blocks of a message that cannot be delivered anywhere: results of unknown tool uses,
and all blocks that are no results. -/
def leftovers {κ : Type} (owners : ToolOwners κ) (message : Message) : List Block :=
  message.content.filter fun block =>
    match block with
    | .toolResult result => !owners.accepts result
    | _ => true

end Message

/-- What is behind the identifier of the message that holds the user's own blocks, where these are
split off from results of unknown tool uses. -/
def userSplitMark : String := ":user"

/-- The messages grouped so far, the latest first, with the owners of tool uses.  An owner is named
by the position of its message. -/
structure Turns where
  latest : List Message
  owners : ToolOwners Nat

namespace Turns

/-- No messages. -/
def empty : Turns := ⟨[], .empty⟩

/-- The messages with a duration noted on the latest turn, if there is one. -/
def annotate (duration : Json) : List Message → List Message
  | [] => []
  | message :: earlier =>
    if message.kind.isTurn then
      { message with metadata := Assoc.set message.metadata turnDurationField duration } :: earlier
    else
      message :: annotate duration earlier

/-- The messages that remain of a message with tool results: the results of unknown uses, then the
blocks that are no results as a message of the user. -/
def residue {κ : Type} (owners : ToolOwners κ) (message : Message) : List Message :=
  let leftovers := message.leftovers owners
  let orphans := leftovers.filter Block.isToolResult
  let others := leftovers.filter fun block => !block.isToolResult
  let userId := if orphans.isEmpty then message.id else message.id ++ userSplitMark
  (if orphans.isEmpty then [] else [{ message with content := orphans }]) ++
    (if others.isEmpty then []
      else [{ message with id := userId, kind := .user, content := others }])

/-- The grouping with the results of a message attached to their owners and the rest appended. -/
def addResults (turns : Turns) (message : Message) : Turns :=
  { latest := (residue turns.owners message).reverse ++ turns.latest
    owners :=
      (message.content.filterMap Block.toolResult?).foldl ToolOwners.deliver turns.owners }

/-- The grouping with one more message, which continues the latest turn if both are of the
assistant. -/
def addMessage (turns : Turns) (message : Message) : Turns :=
  match turns.latest with
  | last :: earlier =>
    if last.kind.isTurn && message.kind.isTurn then
      { latest := { last with content := last.content ++ message.content } :: earlier
        owners := turns.owners.assign earlier.length message.content }
    else
      { latest := message :: turns.latest
        owners := turns.owners.assign turns.latest.length message.content }
  | [] => ⟨[message], turns.owners.assign 0 message.content⟩

/-- The grouping with the next message of the log. -/
def add (turns : Turns) (message : Message) : Turns :=
  match message.statedDuration? with
  | some duration => { turns with latest := annotate duration turns.latest }
  | none =>
    if message.kind = .toolResult then turns.addResults message else turns.addMessage message

/-! ## Repeated tool uses -/

/-- The blocks without the tool uses whose identifiers have been seen, and the identifiers seen
then. -/
def dropRepeated : List String → List Block → List Block × List String
  | seen, [] => ([], seen)
  | seen, .toolUse use :: rest =>
    if seen.contains use.id then
      dropRepeated seen rest
    else
      let (kept, seen) := dropRepeated (use.id :: seen) rest
      (.toolUse use :: kept, seen)
  | seen, block :: rest =>
    let (kept, seen) := dropRepeated seen rest
    (block :: kept, seen)

/-- The messages with every tool use of a turn kept only where its identifier comes first. -/
def withoutRepeatedUses : List String → List Message → List Message
  | _, [] => []
  | seen, message :: rest =>
    if message.kind.isTurn then
      let (kept, seen) := dropRepeated seen message.content
      { message with content := kept } :: withoutRepeatedUses seen rest
    else
      message :: withoutRepeatedUses seen rest

/-- The grouped messages in order, each with the results of its tool uses. -/
def toList (turns : Turns) : List AnsweredMessage :=
  (withoutRepeatedUses [] turns.latest.reverse).zipIdx.map fun (message, position) =>
    { message with toolResults := turns.owners.resultsOf position }

/-- The messages of a log, grouped into turns. -/
def group (messages : List Message) : List AnsweredMessage :=
  (messages.foldl add empty).toList

end Turns

end ChatHistory
