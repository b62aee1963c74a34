import ChatHistory.Entry.Conversion
import ChatHistory.Entry.Lines
import ChatHistory.Files.Tree
import ChatHistory.Session.Chain
import ChatHistory.Text.Utf8

/-!
# Stored sessions

The logs of a project lie in a directory of their own, named for the path of the project.  The log
of a session is the file named for the session, followed by the files that continue it.
`SessionStore.history` is the history of a session: the messages of all entries of these files,
without the echoes of commands.  The reports of the verbose setting on files that are found, passed
over or cut off, and on the numbers of entries and messages, are left out: nothing that is read
depends on them.
-/

namespace ChatHistory

open Text

/-- Where logs are stored, and the greatest number of files of one session. -/
structure SessionStore where
  tree : FileTree
  projects : Path
  limit : Nat

namespace SessionStore

/-- The greatest number of files of one session, unless the settings give another. -/
def defaultLimit : Nat := 32

/-- The name of the directory of a project: its path with a dash for every character that is not a
letter, a digit or a dash. -/
def directoryName (project : String) : String :=
  String.ofList (project.toList.map fun c => if c.isAlphanum || c = '-' then c else '-')

/-- The directory with the logs of a project. -/
def projectDirectory (store : SessionStore) (project : String) : Path :=
  store.projects.child (directoryName project)

/-- The first log file of a session, whether it exists or not. -/
def primaryPath (store : SessionStore) (session project : String) : Path :=
  (store.projectDirectory project).child (session ++ ".jsonl")

/-! ## Reading logs -/

/-- The lines of a log file. -/
def readLines (store : SessionStore) (path : Path) : Except Fault (List (List Char)) :=
  if store.tree.locked.contains path.name then FileTree.refuse path .denied
  else (store.tree.read path).map fun content => fileLines (Utf8.decodeLossy content)

/-- The entries of a log file. -/
def readEntries (store : SessionStore) (path : Path) : Except Fault (List Fields) := do
  Entry.readLines (← store.readLines path)

/-- The entries of several log files, one after the other. -/
def readAllEntries (store : SessionStore) : List Path → Except Fault (List Fields)
  | [] => .ok []
  | path :: rest => do
    let entries ← store.readEntries path
    let more ← store.readAllEntries rest
    return entries ++ more

/-- The first entry of a log file. -/
def firstEntry (store : SessionStore) (path : Path) : Except Fault (Option Fields) := do
  Entry.readFirst (← store.readLines path)

/-! ## Locating logs -/

/-- What stands at the beginning of a log file. -/
def headOf (store : SessionStore) (path : Path) : Head :=
  match store.firstEntry path with
  | .ok (some fields) => .entry fields
  | .ok none => .nothing
  | .error (.file _) => .unreadable
  | .error _ => .oversized

/-- A file name with the extension of logs. -/
def isLogName (name : String) : Bool :=
  ".jsonl".toList.isSuffixOf name.toList

/-- The log files beside the first one of a session, in the order of their names. -/
def candidates (store : SessionStore) (primary : Path) : Except Fault (List Candidate) := do
  let names := (store.tree.entryNames primary.parent).filter fun name =>
    isLogName name && name ≠ primary.name
  let paths := (names.mergeSort fun a b => decide (a ≤ b)).map fun name =>
    { primary.parent with parts := primary.parent.parts ++ [name] }
  let files ← store.tree.filesAmong paths
  return files.map fun path => ⟨path, store.headOf path⟩

/-- The log files of a session, the first one in front; none if the first one does not exist. -/
def logFiles (store : SessionStore) (session project : String) : Except Fault (List Path) := do
  let primary := store.primaryPath session project
  if ← store.tree.isFile primary then
    let found ← Chain.follow session (store.limit - 1) (← store.candidates primary)
    return primary :: found.map Candidate.path
  else
    return []

/-! ## Histories -/

/-- The messages of a session, or the fault that reading it meets, and how many identifiers have
been drawn then. -/
def history (store : SessionStore) (origin : Origin) (session project : String) (drawn : Nat) :
    Except Fault (List Message) × Nat :=
  match store.logFiles session project >>= store.readAllEntries with
  | .error fault => (.error fault, drawn)
  | .ok entries =>
    let (messages, drawn) := Entry.toMessages origin session entries drawn
    (messages.map Message.withoutCommandEchoes, drawn)

/-- The entries of the first log file of a session; none if it does not exist. -/
def primaryEntries (store : SessionStore) (session project : String) :
    Except Fault (List Fields) := do
  let primary := store.primaryPath session project
  if ← store.tree.isFile primary then store.readEntries primary else return []

end SessionStore

end ChatHistory
