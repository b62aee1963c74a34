import ChatHistory.Fault

/-!
# Early ends of a run

A run of the command may end before its work is done.  `UsageFault` is a mistake in the use of the
command, by cause; `Stop` tells it apart from mistakes that are reported to the user and from faults
that the command does not expect.
-/

namespace ChatHistory.Command

/-- A mistake in the use of the command. -/
inductive UsageFault where
  | unknownCommand (name : String)
  | unknownOption (name : String)
  | missingCommand
  | missingValue (option : String)
  | unexpectedValue (option : String)
  | missingOption (name : String)
  | missingArgument (name : String)
  | unexpectedArgument (argument : String)
  | invalidChoice (option value : String)
  | missingFile (option path : String)
  deriving DecidableEq, Repr

/-- The message of a mistake in the use of the command. -/
def UsageFault.message : UsageFault → String
  | .unknownCommand name => s!"No such command '{name}'."
  | .unknownOption name => s!"No such option: {name}"
  | .missingCommand => "Missing command."
  | .missingValue option => s!"Option '{option}' requires an argument."
  | .unexpectedValue option => s!"Option '{option}' does not take a value."
  | .missingOption name => s!"Missing option '{name}'."
  | .missingArgument name => s!"Missing argument '{name}'."
  | .unexpectedArgument argument => s!"Got unexpected extra argument ({argument})"
  | .invalidChoice option value => s!"Invalid value for '{option}': '{value}'."
  | .missingFile option path => s!"Invalid value for '{option}': Path '{path}' does not exist."

/-- Why a run ends early. -/
inductive Stop where
  /-- A mistake in the use of the command. -/
  | usage (fault : UsageFault)
  /-- A mistake that is reported to the user. -/
  | reported (message : String)
  /-- A fault that the command does not expect. -/
  | fault (fault : Fault)

/-- A run ends with its result or early. -/
abbrev Run (α : Type) := Except Stop α

/-- The end of a run by a mistake in the use of the command. -/
def misuse {α : Type} (fault : UsageFault) : Run α :=
  .error (.usage fault)

/-- A result for which mistakes are mistakes in the use of the command. -/
def checkingUse {α : Type} : Except UsageFault α → Run α
  | .ok value => .ok value
  | .error fault => misuse fault

/-- A result whose faults are not expected. -/
def unexpected {α : Type} : Except Fault α → Run α
  | .ok value => .ok value
  | .error fault => .error (.fault fault)

end ChatHistory.Command
