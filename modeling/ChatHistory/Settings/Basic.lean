import ChatHistory.Files.Tree
import ChatHistory.Settings.Environment
import ChatHistory.Text.Utf8
import ChatHistory.Toml.Document

/-!
# Settings

Settings come from four layers: the arguments of a command, variables of the environment, a settings
file, and defaults.  What an earlier layer gives wins.  `Settings.ofLayers` puts the layers together
and checks the result; `Settings.load` finds the settings file first.
-/

namespace ChatHistory

open Toml

/-- The settings that the arguments of a command give; empty texts give nothing. -/
structure SettingsArguments where
  file : Option String
  projects : Option String
  verbose : Bool
  adapter : Option String
  deriving Repr

/-- Checked settings.  The sections are those of all layers, with the checked values put in. -/
structure Settings where
  sections : Table
  projects : String
  limit : Int

namespace Settings

/-- The section of paths. -/
def pathsSection : String := "paths"

/-- The section about the processing of logs. -/
def processingSection : String := "processing"

/-- The section for diagnostics. -/
def debugSection : String := "debug"

/-- The key of the directory with the logs of all projects. -/
def projectsKey : String := "projects_dir"

/-- The key of the greatest number of files of one session. -/
def limitKey : String := "max_continuation_files"

/-- The key of the adapter. -/
def adapterKey : String := "adapter"

/-- The key of the flag for diagnostics. -/
def verboseKey : String := "verbose"

/-- What holds where no layer says otherwise. -/
def defaults : Table :=
  [(pathsSection, .table [(projectsKey, .string "~/.claude/projects")]),
    (processingSection, .table [(limitKey, .integer 32), (adapterKey, .string "claude")]),
    (debugSection, .table [(verboseKey, .boolean false)])]

/-! ## Layers -/

mutual

/-- A value with another one laid over it: two tables are merged, else the upper value counts. -/
def overlayValue : Value → Value → Value
  | .table lower, .table upper => .table (overlay lower upper)
  | _, upper => upper

/-- A table with the entries of another one laid over it. -/
def overlay : Table → Table → Table
  | lower, [] => lower
  | lower, (name, value) :: upper =>
    let merged := match Assoc.get? lower name with
      | some below => overlayValue below value
      | none => value
    overlay (Assoc.set lower name merged) upper

end

/-- The sections with a value set in one of them, which has to be a table. -/
def setIn (sections : Table) (name key : String) (value : Value) : Except Fault Table :=
  match Assoc.get? sections name with
  | some (.table entries) => .ok (Assoc.set sections name (.table (Assoc.set entries key value)))
  | _ => .error .sectionNotTable

/-- The sections with a text set in one of them, if there is a text. -/
def setText (sections : Table) (name key : String) : Option String → Except Fault Table
  | none => .ok sections
  | some text => setIn sections name key (.string text)

/-- The value of a key in a section, which has to be a table. -/
def valueIn (sections : Table) (name key : String) : Except Fault Value :=
  match Assoc.get? sections name with
  | some (.table entries) =>
    match Assoc.get? entries key with
    | some value => .ok value
    | none => .error .sectionNotTable
  | _ => .error .sectionNotTable

/-- The sections with the layer of the environment. -/
def withEnvironment (environment : Environment) (sections : Table) : Except Fault Table := do
  let sections ← setText sections pathsSection projectsKey
    (environment.value? "CLAUDE_PROJECTS_DIR")
  let sections ← setText sections processingSection limitKey
    (environment.value? "CCREPLAY_MAX_CONTINUATION_FILES")
  setText sections processingSection adapterKey (environment.value? "CCREPLAY_ADAPTER")

/-- A text that an argument gives, unless it is empty. -/
def given (argument : Option String) : Option String :=
  argument.filter fun text => text ≠ ""

/-- The sections with the layer of the arguments. -/
def withArguments (arguments : SettingsArguments) (sections : Table) : Except Fault Table := do
  let sections ← setText sections pathsSection projectsKey (given arguments.projects)
  let sections ←
    if arguments.verbose then setIn sections debugSection verboseKey (.boolean true)
    else .ok sections
  setText sections processingSection adapterKey (given arguments.adapter)

/-! ## Checks -/

/-- The fault of a value that is no integer: the mistake quotes the value, which fails for a value
that has no literal. -/
def limitFault (value : Value) : Fault :=
  match value.literal? with
  | some literal => .settings (.limitNotInteger literal)
  | none => .tooManyDigits

/-- The greatest number of files of one session that a value gives. -/
def limitOf (value : Value) : Except Fault Int :=
  match value.toInteger with
  | .ok limit => if limit < 1 then .error (.settings (.limitTooSmall limit)) else .ok limit
  | .error .infinite => .error (.notInteger .infinite)
  | .error _ => .error (limitFault value)

/-- The directory with the logs of all projects that a value gives. -/
def projectsOf (environment : Environment) : Value → Except Fault String
  | .string text => do return (← environment.expand (Path.ofString text)).text
  | _ => .error .pathNotText

/-- The settings that the layers give together. -/
def ofLayers (environment : Environment) (arguments : SettingsArguments) (file : Table) :
    Except Fault Settings := do
  let sections ← withEnvironment environment (overlay defaults file)
  let sections ← withArguments arguments sections
  let limit ← limitOf (← valueIn sections processingSection limitKey)
  let sections ← setIn sections processingSection limitKey (.integer limit)
  let projects ← projectsOf environment (← valueIn sections pathsSection projectsKey)
  let sections ← setIn sections pathsSection projectsKey (.string projects)
  return ⟨sections, projects, limit⟩

/-! ## The settings file -/

/-- The settings file where the command runs. -/
def localFile : String := "config.toml"

/-- The settings file in the home directory. -/
def homeFile : String := "~/.config/ccreplay/config.toml"

/-- The path of the settings file: the given one, or else the one where the command runs, or if that
does not exist the one in the home directory. -/
def filePath (environment : Environment) (tree : FileTree) (file : Option String) :
    Except Fault Path :=
  match given file with
  | some text => .ok (Path.ofString text)
  | none => do
    let beside := Path.ofString localFile
    if ← tree.fileExists beside then
      return beside
    else
      environment.expand (Path.ofString homeFile)

/-- The table of the settings file, empty if there is no such file. -/
def readFile (tree : FileTree) (path : Path) : Except Fault Table := do
  if ← tree.fileExists path then
    let content ← tree.read path
    match (Text.Utf8.decode? content).bind Toml.read with
    | some table => return table
    | none => throw (.settings (.unreadable path.text))
  else
    return []

/-- The settings in an environment, with the settings file that is found. -/
def load (environment : Environment) (tree : FileTree) (arguments : SettingsArguments) :
    Except Fault Settings := do
  let file ← readFile tree (← filePath environment tree arguments.file)
  ofLayers environment arguments file

/-! ## Reading settings -/

/-- The adapter whose tool vocabulary counts; it may be a value of any kind. -/
def adapter (settings : Settings) : Except Fault Value :=
  valueIn settings.sections processingSection adapterKey

/-- Whether diagnostics are asked for. -/
def verbose (settings : Settings) : Except Fault Bool := do
  return (← valueIn settings.sections debugSection verboseKey).isTruthy

/-- The value behind a path of names through nested tables. -/
def lookup : Value → List String → Option Value
  | value, [] => some value
  | .table entries, name :: path =>
    match Assoc.get? entries name with
    | some value => lookup value path
    | none => none
  | _, _ => none

/-- The value behind a key with points between its parts. -/
def get? (settings : Settings) (key : String) : Option Value :=
  lookup (.table settings.sections) ((Text.splitAtChar '.' key.toList).map String.ofList)

end Settings

end ChatHistory
