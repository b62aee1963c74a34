import ChatHistory.Command.Request
import ChatHistory.Session.Mentions
import ChatHistory.Session.Store
import ChatHistory.Settings.Basic
import ChatHistory.Text.ControlSequence
import ChatHistory.ToolVocabulary
import ChatHistory.Transcript.Document

/-!
# Running the command

`Command.run` is the whole command as a function of its arguments, the environment, the files and
the clock.  Its outcome holds what the command writes to its two streams, the exit status, and the
files afterwards.  Mistakes that the command expects are reported on the error stream; a fault that
it does not expect ends it.  A stream that no terminal shows is written without control sequences.
What the verbose flag adds to the error stream on the way is left out.
-/

namespace ChatHistory

/-- The stored sessions that settings lead to.  The settings for diagnostics have to be readable. -/
def SessionStore.ofSettings (tree : FileTree) (settings : Settings) :
    Except Fault SessionStore := do
  let _ ← settings.verbose
  return ⟨tree, Path.ofString settings.projects, settings.limit.toNat⟩

namespace Command

/-- The name of the command. -/
def name : String := "ccreplay"

/-- The version of the command. -/
def version : String := "0.1.0"

/-- What a run depends on besides its arguments. -/
structure Context where
  environment : Environment
  tree : FileTree
  origin : Origin
  clock : LocalClock
  /-- The standard stream is shown on a terminal. -/
  stdoutIsTerminal : Bool
  /-- The error stream is shown on a terminal. -/
  stderrIsTerminal : Bool

/-- What a successful run writes, and the files afterwards. -/
structure Output where
  stdout : String
  stderr : String
  tree : FileTree
  /-- The file that was written. -/
  saved : Option Path

/-- The text as a line. -/
def line (text : String) : String := text ++ "\n"

/-- An output to the standard stream alone. -/
def printed (context : Context) (text : String) : Output :=
  ⟨text, "", context.tree, none⟩

/-- The report of a mistake in the settings, with the file that it was found in. -/
def settingsReport (fault : SettingsFault) : String :=
  match fault with
  | .unreadable path => "Error: " ++ fault.message ++ " (" ++ path ++ ")"
  | _ => "Error: " ++ fault.message

/-- A result for which a refusal of the file system is reported. -/
def reportingFiles {α : Type} : Except Fault α → Run α
  | .error (.file fault) => .error (.reported ("Error: " ++ fault.message))
  | result => unexpected result

/-- A result for which a mistake in the settings is reported. -/
def reportingSettings {α : Type} : Except Fault α → Run α
  | .error (.settings fault) => .error (.reported (settingsReport fault))
  | result => unexpected result

/-- The settings for a subcommand. -/
def settings (context : Context) (file adapter : Option String) (verbose : Bool) : Run Settings :=
  reportingSettings
    (Settings.load context.environment context.tree ⟨file, none, verbose, adapter⟩)

/-- The stored sessions that settings lead to. -/
def store (context : Context) (settings : Settings) : Run SessionStore :=
  unexpected (SessionStore.ofSettings context.tree settings)

/-- The tool vocabulary that settings name. -/
def vocabulary (settings : Settings) : Run ToolVocabulary := do
  match ← unexpected settings.adapter with
  | .string adapter => return .ofAdapter (some adapter)
  | .array [] | .table [] => return .empty
  | .array _ | .table _ => throw (.fault .compositeName)
  | _ => return .empty

/-- The title of the transcript of a project: the last component of its path. -/
def titleOf (project : String) : String :=
  let last := (Path.ofString project).name
  if last.isEmpty then project else last

/-- The output of a content: on the standard stream, or in a file if one is given. -/
def deliver (context : Context) (content : String) (output : Option String) : Run Output :=
  match Settings.given output with
  | none => .ok (printed context (line content))
  | some text => do
    let path := Path.ofString text
    let tree ← unexpected (context.tree.write path (Text.Utf8.encode content))
    return ⟨"", line ("Export completed: " ++ path.text), tree, some path⟩

/-! ## Subcommands -/

/-- The subcommand that writes a history. -/
def history (context : Context) (session : SessionArguments) (options : HistoryArguments) :
    Run Output := do
  let settings ← settings context session.settingsFile options.adapter options.verbose
  let store ← store context settings
  let messages ← reportingFiles (store.history context.origin session.session session.project 0).1
  if messages.isEmpty then
    throw (.reported s!"Warning: No history for session '{session.session}'")
  if options.raw then
    if options.asMarkdown then throw (.reported "Error: --raw only supports JSON output")
    deliver context (Json.array (messages.map Message.toJson)).indentedText options.output
  else
    let shown := DisplayedMessage.ofMessages (← vocabulary settings) messages
    let content ←
      if options.asMarkdown then
        unexpected (Transcript.ofMessages context.clock (titleOf session.project) shown)
      else
        .ok (Json.array (shown.map DisplayedMessage.toJson)).indentedText
    deliver context content options.output

/-- A list as lines under a heading with its length, or the note that there is none. -/
def listing (heading none : String) (lines : List String) : String :=
  if lines.isEmpty then line none
  else
    String.join
      (line s!"{heading} ({lines.length}):" :: lines.map fun text => line ("  " ++ text))

/-- The subcommand that lists the log files of a session. -/
def files (context : Context) (session : SessionArguments) (asJson : Bool) : Run Output := do
  let store ← store context (← settings context session.settingsFile none false)
  let paths ← reportingFiles (store.logFiles session.session session.project)
  let texts := paths.map Path.text
  return printed context <|
    if asJson then line (Json.array (texts.map .string)).indentedText
    else listing "Log files" s!"No log files found: {session.session}" texts

/-- The subcommand that lists the plans approved in a session. -/
def plans (context : Context) (session : SessionArguments) (asJson : Bool) : Run Output := do
  let store ← store context (← settings context session.settingsFile none false)
  let plans ← unexpected (store.plans session.session session.project)
  return printed context <|
    if asJson then line (Json.array (plans.map .string)).indentedText
    else listing "Plan files" "No plan files found" plans

/-- The subcommand that lists the skills put into a session. -/
def skills (context : Context) (session : SessionArguments) (asJson : Bool) : Run Output := do
  let store ← store context (← settings context session.settingsFile none false)
  let skills ← unexpected (store.skills session.session session.project)
  return printed context <|
    if asJson then line (Json.array (skills.map SkillFile.toJson)).indentedText
    else listing "Skill files" "No skill files found"
      (skills.map fun skill => skill.displayName ++ "  " ++ skill.path)

/-- The text that explains the use of the command. -/
def helpText : String :=
  String.join <| List.map line
    [s!"Usage: {name} [OPTIONS] COMMAND [ARGS]...", "",
      "  Claude Code session history replay tool", "",
      "Options:",
      "  --version  Show the version and exit.",
      "  --help     Show this message and exit.", "",
      "Commands:",
      "  encode   Print the log directory name of a project path",
      "  files    List a session's log files (primary first, then continuations)",
      "  history  Replay a session's history",
      "  plans    List plan files approved during a session",
      "  skills   List skill files injected into a session"]

/-! ## The command -/

/-- The run of what the command is asked to do. -/
def perform (context : Context) : Request → Run Output
  | .history session options => history context session options
  | .files session asJson => files context session asJson
  | .plans session asJson => plans context session asJson
  | .skills session asJson => skills context session asJson
  | .encode project => .ok (printed context (line (SessionStore.directoryName project)))
  | .version => .ok (printed context (line s!"{name}, version {version}"))
  | .help => .ok (printed context helpText)

/-- What a run leaves behind. -/
structure Outcome where
  exit : Nat
  stdout : String
  stderr : String
  tree : FileTree
  saved : Option Path
  /-- The fault that ended the run, if it was not expected. -/
  fault : Option Fault

/-- What arguments ask the command to do, given which paths lead to a file or a directory. -/
def request (leads : String → Bool) (arguments : List String) : Run Request :=
  Request.parse leads (ToolVocabulary.adapters.map (·.1)) arguments

/-- The outcome of a run that ends with its output or early. -/
def outcomeOf (context : Context) : Run Output → Outcome
  | .ok output => ⟨0, output.stdout, output.stderr, output.tree, output.saved, none⟩
  | .error (.usage fault) => ⟨2, "", line ("Error: " ++ fault.message), context.tree, none, none⟩
  | .error (.reported message) => ⟨1, "", line message, context.tree, none, none⟩
  | .error (.fault fault) => ⟨1, "", "", context.tree, none, some fault⟩

/-- What of a text is written to a stream: control sequences are for terminals only. -/
def streamText (isTerminal : Bool) (text : String) : String :=
  if isTerminal then text else Text.ControlSequence.erase text

/-- The outcome of the command with the given arguments. -/
def run (context : Context) (arguments : List String) : Outcome :=
  let outcome := outcomeOf context (request context.tree.leads arguments >>= perform context)
  { outcome with
    stdout := streamText context.stdoutIsTerminal outcome.stdout
    stderr := streamText context.stderrIsTerminal outcome.stderr }

end Command

end ChatHistory
