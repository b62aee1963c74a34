import ChatHistory.Command.Run
import Std.Time

/-!
# The command line

`main` collects what a run of the command depends on: the variables of the environment, the clock,
the settings files, the logs of the project that the arguments name, and whether terminals show its
streams.  It leaves the run itself
to `Command.run`, and carries out what that decides.
-/

namespace ChatHistory.CommandLine

/-- The variables that the command reads. -/
def variableNames : List String :=
  ["HOME", "CLAUDE_PROJECTS_DIR", "CCREPLAY_MAX_CONTINUATION_FILES", "CCREPLAY_ADAPTER"]

/-- The number of the present user, on its line in the status of the process. -/
def ownNumber? (status : List String) : Option String := do
  let line ← status.find? fun line => line.startsWith "Uid:"
  let number ← (Text.words line.toList)[1]?
  return String.ofList number

/-- The home directory on a line of the list of users, by the name of the user, and by the empty
name as well if it has the number of the present user. -/
def homesOn (own : Option String) (line : String) : Assoc String :=
  match (Text.splitAtChar ':' line.toList).map String.ofList with
  | name :: _ :: number :: _ :: _ :: home :: _ =>
    if some number = own then [(name, home), ("", home)] else [(name, home)]
  | _ => []

/-- The lines of a file of the system, none if it cannot be read. -/
def systemLines (file : String) : IO (List String) := do
  try return (← IO.FS.lines file).toList
  catch _ => return []

/-- The environment of the command. -/
def environment : IO Environment := do
  let vars ← variableNames.filterMapM fun name => do
    return (← IO.getEnv name).map fun value => (name, value)
  let own := ownNumber? (← systemLines "/proc/self/status")
  let users ← systemLines "/etc/passwd"
  return ⟨vars, users.flatMap (homesOn own)⟩

/-- The tree with what lies at a path. -/
def readInto (tree : FileTree) (path : Path) : IO FileTree := do
  let withFile (content : List UInt8) : FileTree := ((tree.write path content).toOption).getD tree
  try
    return withFile (← IO.FS.readBinFile path.text).toList
  catch
    | .permissionDenied .. => return { withFile [] with locked := path.name :: tree.locked }
    | .inappropriateType .. => return tree.addDirectory path
    | _ => return tree

/-- The tree with the logs in a directory. -/
def readLogs (tree : FileTree) (directory : Path) : IO FileTree := do
  try
    let place ← IO.FS.realPath directory.text
    let names := (← place.readDir).toList.map fun entry => entry.fileName
    (names.filter SessionStore.isLogName).foldlM
      (fun tree name => readInto tree (directory.append ⟨"", [name]⟩)) tree
  catch _ => return tree

/-- The paths of the settings files that a run may read. -/
def settingsPaths (environment : Environment) (session : Command.SessionArguments) :
    List Path :=
  let home := environment.expand (Path.ofString Settings.homeFile)
  (Settings.given session.settingsFile).toList.map Path.ofString ++
    Path.ofString Settings.localFile :: home.toOption.toList

/-- The part of the file system that a run may read. -/
def tree (environment : Environment) (arguments : List String) : IO FileTree := do
  let empty : FileTree := ⟨[], []⟩
  match (Command.request (fun _ => true) arguments).toOption.bind Command.Request.session? with
  | none => return empty
  | some session =>
    let tree ← (settingsPaths environment session).foldlM readInto empty
    match Settings.load environment tree ⟨session.settingsFile, none, false, none⟩ with
    | .error _ => return tree
    | .ok settings =>
      match SessionStore.ofSettings tree settings with
      | .ok store => readLogs tree (store.projectDirectory session.project)
      | .error _ => return tree

/-- The first of January 1970 in universal time. -/
def epoch : Timestamp := ⟨⟨1970, 1, 1⟩, 0, 0, 0, 0, some 0⟩

/-- The present instant, and the zone of the local clock in minutes. -/
def clock : IO LocalClock := do
  let now ← Std.Time.DateTime.now
  let elapsed := now.timestamp.val
  let micros := elapsed.second.val * Timestamp.perSecond + elapsed.nano.val / 1000
  let instant := Timestamp.ofInstant (epoch.instant + micros)
  return ⟨{ instant with offset := some 0 }, now.timezone.offset.second.val / 60⟩

/-- The instant to the millisecond. -/
def stamp (time : Timestamp) : String :=
  let whole := { time with microsecond := 0, offset := none }
  whole.iso ++ "." ++ Timestamp.padded 3 (time.microsecond / 1000) ++ "Z"

/-- An identifier in the usual form of five groups of hexadecimal digits. -/
def identifier (n : Nat) : String :=
  let digits := Literal.hexDigits 32 (n % Nat.pow 16 32)
  let group (first length : Nat) : String := String.ofList ((digits.drop first).take length)
  "-".intercalate [group 0 8, group 8 4, group 12 4, group 16 4, group 20 12]

/-- Fresh identifiers, and the present instant. -/
def origin (clock : LocalClock) : IO Origin := do
  let seed ← IO.getRandomBytes 16
  let start := seed.toList.foldl (fun n byte => 256 * n + byte.toNat) 0
  return ⟨fun n => identifier (start + n), stamp clock.now⟩

/-- Carries out what a run has decided. -/
def finish (outcome : Command.Outcome) : IO UInt32 := do
  if let some path := outcome.saved then
    if let .ok content := outcome.tree.read path then
      IO.FS.createDirAll path.parent.text
      IO.FS.writeBinFile path.text ⟨content.toArray⟩
  IO.print outcome.stdout
  IO.eprint outcome.stderr
  if let some fault := outcome.fault then
    IO.eprintln fault.message
  return outcome.exit.toUInt32

end ChatHistory.CommandLine

open ChatHistory in
/-- Runs the command with the given arguments. -/
def main (arguments : List String) : IO UInt32 := do
  let environment ← CommandLine.environment
  let tree ← CommandLine.tree environment arguments
  let clock ← CommandLine.clock
  let origin ← CommandLine.origin clock
  let stdoutIsTerminal ← (← IO.getStdout).isTty
  let stderrIsTerminal ← (← IO.getStderr).isTty
  let context : Command.Context :=
    { environment, tree, origin, clock, stdoutIsTerminal, stderrIsTerminal }
  CommandLine.finish (Command.run context arguments)
