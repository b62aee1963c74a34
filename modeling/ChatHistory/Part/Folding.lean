import ChatHistory.Part.Basic
import ChatHistory.ToolVocabulary

/-!
# Folding tool calls

`foldCalls` passes once over the parts of a message.  Two or more explorations that follow one
another become a group; progress reports do not interrupt them.  All progress reports are gathered
in one entry, which stands where the first of them was, or behind the explorations that it
interrupted.  A tool in both categories counts as progress.
-/

namespace ChatHistory

/-- The state of the pass: the parts placed so far with `none` at the place of the progress entry,
the explorations that may still be continued, the progress reports, and whether their place is
behind the explorations. -/
structure Folding where
  placed : List (Option Part)
  run : List Call
  progress : List Call
  progressBehindRun : Bool

namespace Folding

/-- The start of the pass. -/
def start : Folding := ⟨[], [], [], false⟩

/-- Explorations that follow one another as parts: one alone stays a call. -/
def runParts : List Call → List Part
  | [] => []
  | [call] => [.call call]
  | first :: more => [.toolGroup first.id (first :: more)]

/-- The explorations end here. -/
def endRun (state : Folding) : Folding :=
  { state with
    placed := state.placed ++ (runParts state.run).map some ++
      (if state.progressBehindRun then [none] else [])
    run := []
    progressBehindRun := false }

/-- A progress report; the first one determines the place of the progress entry. -/
def addProgress (state : Folding) (call : Call) : Folding :=
  let gathered := { state with progress := state.progress ++ [call] }
  if state.progress.isEmpty then
    if state.run.isEmpty then { gathered with placed := state.placed ++ [none] }
    else { gathered with progressBehindRun := true }
  else
    gathered

/-- A part that is neither progress nor exploration. -/
def addOther (state : Folding) (part : Part) : Folding :=
  let closed := state.endRun
  { closed with placed := closed.placed ++ [some part] }

/-- The next part. -/
def add (vocabulary : ToolVocabulary) (state : Folding) (part : Part) : Folding :=
  match part with
  | .call call =>
    if vocabulary.reports call.name then state.addProgress call
    else if vocabulary.explores call.name then { state with run := state.run ++ [call] }
    else state.addOther (.call call)
  | other => state.addOther other

/-- The gathered progress reports as parts. -/
def progressParts : List Call → List Part
  | [] => []
  | first :: more => [.taskProgress first.id (first :: more)]

/-- The parts at the end of the pass. -/
def finish (state : Folding) : List Part :=
  let closed := state.endRun
  closed.placed.flatMap fun
    | some part => [part]
    | none => progressParts closed.progress

end Folding

/-- The parts of a message with explorations grouped and progress reports gathered. -/
def foldCalls (vocabulary : ToolVocabulary) (parts : List Part) : List Part :=
  (parts.foldl (Folding.add vocabulary) .start).finish

end ChatHistory
