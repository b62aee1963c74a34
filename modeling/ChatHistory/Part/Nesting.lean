import ChatHistory.Part.Folding

/-!
# Nesting the calls of sub-agents

`nestCalls` passes once over the parts of a message.  The call of a sub-agent takes in the tool
calls that follow it, up to the next call of a sub-agent or the first part that is no tool call.
A call with nothing to take in stays as it is.
-/

namespace ChatHistory

/-- The call of a sub-agent, and the parts taken in so far. -/
structure OpenTask where
  call : Call
  children : List Part

/-- The part of a finished task. -/
def OpenTask.close (task : OpenTask) : Part :=
  if task.children.isEmpty then .call task.call
  else .taskGroup task.call.toInvocation task.children

/-- The parts from a place in the list on, where a task may be open. -/
def nestFrom (vocabulary : ToolVocabulary) : Option OpenTask → List Part → List Part
  | task, [] => task.toList.map OpenTask.close
  | task, .call call :: rest =>
    if vocabulary.delegates call.name then
      task.toList.map OpenTask.close ++ nestFrom vocabulary (some ⟨call, []⟩) rest
    else
      match task with
      | some ⟨agent, children⟩ =>
        nestFrom vocabulary (some ⟨agent, children ++ [.call call]⟩) rest
      | none => .call call :: nestFrom vocabulary none rest
  | some ⟨agent, children⟩, part :: rest =>
    if part.isCall then nestFrom vocabulary (some ⟨agent, children ++ [part]⟩) rest
    else OpenTask.close ⟨agent, children⟩ :: part :: nestFrom vocabulary none rest
  | none, part :: rest => part :: nestFrom vocabulary none rest

/-- The parts of a message with the calls of sub-agents nested under them. -/
def nestCalls (vocabulary : ToolVocabulary) (parts : List Part) : List Part :=
  nestFrom vocabulary none parts

/-- The parts of a message, folded and then nested. -/
def arrangeParts (vocabulary : ToolVocabulary) (parts : List Part) : List Part :=
  nestCalls vocabulary (foldCalls vocabulary parts)

end ChatHistory
