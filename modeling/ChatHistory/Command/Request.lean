import ChatHistory.Command.Arguments

/-!
# Requests

`Request.parse` reads what the arguments of the command ask it to do: options before the name of a
subcommand, and then the options and arguments of the subcommand.  Of several mistakes the first to
be found counts: one in the form of the line, then an option with a wrong value, then an option that
is missing, and at last an argument too many.
-/

namespace ChatHistory.Command

/-- Which session of which project a subcommand is about, and the settings file. -/
structure SessionArguments where
  session : String
  project : String
  settingsFile : Option String
  deriving DecidableEq, Repr

/-- How a history is written. -/
structure HistoryArguments where
  /-- As a Markdown document, not as JSON. -/
  asMarkdown : Bool
  /-- The file to write to. -/
  output : Option String
  /-- As messages before they are grouped. -/
  raw : Bool
  adapter : Option String
  verbose : Bool
  deriving DecidableEq, Repr

/-- What the command is asked to do. -/
inductive Request where
  | history (session : SessionArguments) (history : HistoryArguments)
  | files (session : SessionArguments) (asJson : Bool)
  | plans (session : SessionArguments) (asJson : Bool)
  | skills (session : SessionArguments) (asJson : Bool)
  | encode (project : String)
  | version
  | help
  deriving DecidableEq, Repr

namespace Request

open ParsedArguments OptionForm

/-- The session that a request is about. -/
def session? : Request → Option SessionArguments
  | .history session _ | .files session _ | .plans session _ | .skills session _ => some session
  | .encode _ | .version | .help => none

/-- The options that name a session, and those of every subcommand about one. -/
def sessionForms : List OptionForm :=
  [valued "--session" (some 's') .text, valued "--project" (some 'p') .text,
    valued "--config-file" none .existingPath, OptionForm.help]

/-- The options of the subcommand that writes a history. -/
def historyForms (adapters : List String) : List OptionForm :=
  sessionForms ++
    [valued "--format" (some 'f') (.choice ["json", "md"]), valued "--output" (some 'o') .path,
      flag "--raw" none, valued "--adapter" none (.choice adapters), flag "--verbose" (some 'v')]

/-- The options of the subcommands that list files. -/
def listForms : List OptionForm :=
  sessionForms ++ [flag "--json" none]

/-- No arguments are left over. -/
def noArguments (parsed : ParsedArguments) : Run Unit :=
  match parsed.arguments with
  | [] => .ok ()
  | argument :: _ => misuse (.unexpectedArgument argument)

/-- The session that a subcommand is about. -/
def sessionOf (parsed : ParsedArguments) : Run SessionArguments := do
  let session ← parsed.required "--session"
  let project ← parsed.required "--project"
  return ⟨session, project, parsed.value? "--config-file"⟩

/-- A subcommand about a session, unless help is asked for. -/
def readAbout (leads : String → Bool) (forms : List OptionForm) (arguments : List String)
    (make : SessionArguments → ParsedArguments → Request) : Run Request := do
  let parsed ← checkingUse (ParsedArguments.parse forms arguments)
  if parsed.isGiven "--help" then return .help
  parsed.check leads forms
  let session ← sessionOf parsed
  noArguments parsed
  return make session parsed

/-- How the options of a command line ask a history to be written. -/
def historyOf (parsed : ParsedArguments) : HistoryArguments :=
  { asMarkdown := parsed.value? "--format" = some "md"
    output := parsed.value? "--output"
    raw := parsed.isGiven "--raw"
    adapter := parsed.value? "--adapter"
    verbose := parsed.isGiven "--verbose" }

/-- The subcommand that writes a history. -/
def readHistory (leads : String → Bool) (adapters arguments : List String) : Run Request :=
  readAbout leads (historyForms adapters) arguments fun session parsed =>
    .history session (historyOf parsed)

/-- A subcommand that lists files. -/
def readList (leads : String → Bool) (make : SessionArguments → Bool → Request)
    (arguments : List String) : Run Request :=
  readAbout leads listForms arguments fun session parsed =>
    make session (parsed.isGiven "--json")

/-- The subcommand that shows the directory name of a project. -/
def readEncode (arguments : List String) : Run Request := do
  let parsed ← checkingUse (ParsedArguments.parse [OptionForm.help] arguments)
  if parsed.isGiven "--help" then return .help
  match parsed.arguments with
  | [] => misuse (.missingArgument "PROJECT_PATH")
  | [project] => return .encode project
  | _ :: argument :: _ => misuse (.unexpectedArgument argument)

/-- A subcommand with its arguments. -/
def readCommand (leads : String → Bool) (adapters : List String) : List String → Run Request
  | [] => misuse .missingCommand
  | name :: arguments =>
    match name with
    | "history" => readHistory leads adapters arguments
    | "files" => readList leads .files arguments
    | "plans" => readList leads .plans arguments
    | "skills" => readList leads .skills arguments
    | "encode" => readEncode arguments
    | _ => misuse (.unknownCommand name)

/-- A use of the command, given what the options in front of the subcommand ask for first. -/
def readFrom (leads : String → Bool) (adapters : List String) (asked : Option Request) :
    List String → Run Request
  | [] =>
    match asked with
    | some request => .ok request
    | none => misuse .missingCommand
  | argument :: rest =>
    if isOption argument && argument != "--" then
      match argument with
      | "--version" => readFrom leads adapters (asked.or (some .version)) rest
      | "--help" => readFrom leads adapters (asked.or (some .help)) rest
      | _ => misuse (.unknownOption argument)
    else
      match asked with
      | some request => .ok request
      | none =>
        readCommand leads adapters (if argument = "--" then rest else argument :: rest)

/-- A use of the command, given which paths lead to a file or a directory, and the names of the
adapters. -/
def parse (leads : String → Bool) (adapters arguments : List String) : Run Request :=
  readFrom leads adapters none arguments

end Request

end ChatHistory.Command
