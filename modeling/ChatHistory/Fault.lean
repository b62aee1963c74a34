import ChatHistory.Json.Literal

/-!
# Faults

Everything that can stop an operation of this library, by cause.  `FileFault` is a refusal of the
file system, `SettingsFault` a mistake in the settings; both have a message for the user.
-/

namespace ChatHistory

/-- Why the file system refuses an operation. -/
inductive FileFault.Cause where
  | missing
  | denied
  | exists
  | notDirectory
  | isDirectory
  | nameTooLong
  deriving DecidableEq, Repr

/-- A refused operation and the path that it was refused for. -/
structure FileFault where
  cause : FileFault.Cause
  path : String
  deriving DecidableEq, Repr

namespace FileFault

/-- The number of a cause in messages. -/
def Cause.number : Cause → Nat
  | .missing => 2
  | .denied => 13
  | .exists => 17
  | .notDirectory => 20
  | .isDirectory => 21
  | .nameTooLong => 36

/-- The description of a cause in messages. -/
def Cause.description : Cause → String
  | .missing => "No such file or directory"
  | .denied => "Permission denied"
  | .exists => "File exists"
  | .notDirectory => "Not a directory"
  | .isDirectory => "Is a directory"
  | .nameTooLong => "File name too long"

/-- The message of a refused operation, with the path as a quoted literal. -/
def message (fault : FileFault) : String :=
  s!"[Errno {fault.cause.number}] {fault.cause.description}: " ++
    String.ofList (Literal.quote fault.path.toList)

end FileFault

/-- Why a value is not an integer where one is needed. -/
inductive NotInteger where
  /-- The value is neither a number nor a text. -/
  | kind
  /-- The value is a text that is no numeral, or it is not a number. -/
  | malformed
  /-- The value is infinite. -/
  | infinite
  deriving DecidableEq, Repr

/-- A mistake in the settings. -/
inductive SettingsFault where
  /-- The settings file is not a readable document. -/
  | unreadable (path : String)
  /-- The limit on the length of a chain is not an integer. -/
  | limitNotInteger (value : Literal)
  /-- The limit on the length of a chain is below one. -/
  | limitTooSmall (limit : Int)

/-- The message of a mistake in the settings, without the place where it was found. -/
def SettingsFault.message : SettingsFault → String
  | .unreadable _ => "Configuration file load error"
  | .limitNotInteger value =>
    "processing.max_continuation_files must be an integer, got " ++ value.text
  | .limitTooSmall limit => s!"processing.max_continuation_files must be at least 1, got {limit}"

/-- What stops an operation. -/
inductive Fault where
  /-- An array or an object stands where a name is looked up. -/
  | compositeName
  /-- A value is not an integer where one is needed. -/
  | notInteger (why : NotInteger)
  /-- A whole number in a document has too many digits. -/
  | tooManyDigits
  /-- A whole number is too large to be measured as a double. -/
  | hugeNumber
  /-- An instant falls outside the years 1 to 9999. -/
  | dateOutOfRange
  /-- A time without an offset is so near to the ends of the calendar that no clock shows it. -/
  | noLocalTime
  /-- A path names the home directory of somebody unknown. -/
  | unknownHome
  /-- A path holds a character that no path can have. -/
  | invalidPath
  /-- A section of the settings is not a table. -/
  | sectionNotTable
  /-- A path in the settings is not a text. -/
  | pathNotText
  /-- The file system refuses an operation. -/
  | file (fault : FileFault)
  /-- The settings hold a mistake. -/
  | settings (fault : SettingsFault)

/-- The message of a fault. -/
def Fault.message : Fault → String
  | .compositeName => "a name has to be a single value"
  | .notInteger .kind => "neither a number nor a text"
  | .notInteger .malformed => "not an integer"
  | .notInteger .infinite => "an infinite number is not an integer"
  | .tooManyDigits => "a whole number has too many digits"
  | .hugeNumber => "a whole number is too large"
  | .dateOutOfRange => "an instant is outside the years 1 to 9999"
  | .noLocalTime => "no local time at the ends of the calendar"
  | .unknownHome => "the home directory is unknown"
  | .invalidPath => "a path holds a null character"
  | .sectionNotTable => "a section of the settings is not a table"
  | .pathNotText => "a path in the settings is not a text"
  | .file fault => fault.message
  | .settings fault => fault.message

end ChatHistory
