import ChatHistory.Assoc

/-!
# Categories of tools

How the use of a tool is displayed depends on the category of the tool: explorations are folded
together when they follow one another, hidden tools are not shown, progress reports are gathered in
one entry, and a sub-agent has the uses that follow it nested under it.  An adapter names the tool
vocabulary of one kind of client; an unknown adapter has no categories.
-/

namespace ChatHistory

/-- The names of the tools in each category. -/
structure ToolVocabulary where
  explore : List String
  hidden : List String
  progress : List String
  subagent : List String
  deriving DecidableEq, Repr

namespace ToolVocabulary

/-- No tool is in any category. -/
def empty : ToolVocabulary := ⟨[], [], [], []⟩

/-- A tool that reads or searches. -/
def explores (vocabulary : ToolVocabulary) (name : String) : Bool :=
  vocabulary.explore.contains name

/-- A tool for bookkeeping that is never shown. -/
def hides (vocabulary : ToolVocabulary) (name : String) : Bool :=
  vocabulary.hidden.contains name

/-- A tool that reports progress. -/
def reports (vocabulary : ToolVocabulary) (name : String) : Bool :=
  vocabulary.progress.contains name

/-- A tool that starts a nested task. -/
def delegates (vocabulary : ToolVocabulary) (name : String) : Bool :=
  vocabulary.subagent.contains name

/-- The vocabulary of the adapter `claude`. -/
def claude : ToolVocabulary where
  explore := ["Read", "Glob", "Grep"]
  hidden := ["TaskList", "TaskGet", "TaskOutput", "TaskStop", "TodoWrite", "Skill",
    "EnterPlanMode", "AskUserQuestion"]
  progress := ["TaskCreate", "TaskUpdate"]
  subagent := ["Task"]

/-- The vocabularies of the known adapters. -/
def adapters : Assoc ToolVocabulary :=
  [("claude", claude)]

/-- The vocabulary of an adapter, empty if there is no adapter or it is unknown. -/
def ofAdapter (adapter : Option String) : ToolVocabulary :=
  (adapter.bind fun name => Assoc.get? adapters name).getD empty

end ToolVocabulary

end ChatHistory
