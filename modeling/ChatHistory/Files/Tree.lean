import ChatHistory.Fault
import ChatHistory.Files.Path

/-!
# File trees

A `FileTree` is the part of a file system that the library works on.  Paths are walked component
by component, so that a component that is missing, too long or not a directory is found where it
stands.  The directory from which relative paths start, and all above it, exist.
-/

namespace ChatHistory

/-- What a place of a file tree holds. -/
inductive Node where
  | directory
  | file (content : List UInt8)
  deriving DecidableEq, Repr

/-- Files and directories by place, where a place is a path without detours; the names of the files
that may not be opened as logs are kept apart. -/
structure FileTree where
  nodes : List (Path × Node)
  locked : List String
  deriving Repr

namespace FileTree

/-- The greatest number of bytes of a component. -/
def maxNameLength : Nat := 255

/-- The number of bytes from which on a path is too long. -/
def pathLengthLimit : Nat := 4096

/-- Where relative paths start. -/
def here : Path := ⟨"", []⟩

/-- The place that a path starts from. -/
def startOf (path : Path) : Path :=
  if path.root = "" then here else ⟨"/", []⟩

/-- A place above or at the start, where nothing but directories is known. -/
def isAbove (place : Path) : Bool :=
  place.parts.all (· = "..")

/-- The place above another one. -/
def up (place : Path) : Path :=
  if isAbove place then
    if place.root = "" then { place with parts := place.parts ++ [".."] } else place
  else
    place.parent

/-- The place that one component leads to.  An empty one and a single point lead nowhere else. -/
def step (place : Path) (name : String) : Path :=
  if name = ".." then up place
  else if name = "" || name = "." then place
  else { place with parts := place.parts ++ [name] }

/-- The first place lies in the second one, at any depth. -/
def isInside (inner outer : Path) : Bool :=
  inner.root = outer.root && outer.parts.isPrefixOf inner.parts &&
    decide (outer.parts.length < inner.parts.length)

/-- What a place holds, if it exists.  A directory exists also where something lies in it. -/
def nodeAt (tree : FileTree) (place : Path) : Option Node :=
  if isAbove place then some .directory
  else
    match tree.nodes.find? fun entry => entry.1 = place with
    | some entry => some entry.2
    | none =>
      if tree.nodes.any fun entry => isInside entry.1 place then some .directory else none

/-- The place that components lead to from another place, and what it holds. -/
def walk (tree : FileTree) : Path → List String → Except FileFault.Cause (Path × Node)
  | place, [] =>
    match tree.nodeAt place with
    | some node => .ok (place, node)
    | none => .error .missing
  | place, name :: rest =>
    match tree.nodeAt place with
    | none => .error .missing
    | some (.file _) => .error .notDirectory
    | some .directory =>
      if maxNameLength < name.utf8ByteSize then .error .nameTooLong
      else walk tree (step place name) rest

/-- The place of a path, and what it holds. -/
def find (tree : FileTree) (path : Path) : Except FileFault.Cause (Path × Node) :=
  if pathLengthLimit ≤ path.text.utf8ByteSize then .error .nameTooLong
  else tree.walk (startOf path) path.parts

/-- A text leads to a file or a directory when its components are walked as they stand, so that
nothing may follow a file, not even a slash.  The empty text leads nowhere. -/
def leads (tree : FileTree) (text : String) : Bool :=
  let names := (Text.splitAtChar '/' text.toList).map String.ofList
  text ≠ "" && text.utf8ByteSize < pathLengthLimit &&
    (tree.walk (startOf (Path.ofString text)) names).isOk

/-- The fault of an operation on a path. -/
def refuse {α : Type} (path : Path) (cause : FileFault.Cause) : Except Fault α :=
  .error (.file ⟨cause, path.text⟩)

/-- What a path leads to, if it leads anywhere.  A path that is too long is a fault. -/
def node? (tree : FileTree) (path : Path) : Except Fault (Option Node) :=
  if path.isInvalid then .ok none
  else
    match tree.find path with
    | .ok (_, node) => .ok (some node)
    | .error .nameTooLong => refuse path .nameTooLong
    | .error _ => .ok none

/-- A path leads to a file or a directory. -/
def fileExists (tree : FileTree) (path : Path) : Except Fault Bool := do
  return (← tree.node? path).isSome

/-- A path leads to a file. -/
def isFile (tree : FileTree) (path : Path) : Except Fault Bool := do
  match ← tree.node? path with
  | some (.file _) => return true
  | _ => return false

/-- The content of a file. -/
def read (tree : FileTree) (path : Path) : Except Fault (List UInt8) :=
  if path.isInvalid then .error .invalidPath
  else
    match tree.find path with
    | .ok (_, .file content) => .ok content
    | .ok (_, .directory) => refuse path .isDirectory
    | .error cause => refuse path cause

/-- The names of all that lies directly inside a directory. -/
def entryNames (tree : FileTree) (directory : Path) : List String :=
  match tree.find directory with
  | .ok (place, .directory) =>
    let inside := tree.nodes.filter fun entry => isInside entry.1 place
    let names := inside.filterMap fun entry => entry.1.parts[place.parts.length]?
    names.eraseDups.filter (· ≠ "..")
  | _ => []

/-- The paths that lead to files. -/
def filesAmong (tree : FileTree) : List Path → Except Fault (List Path)
  | [] => .ok []
  | path :: rest => do
    let isFile ← tree.isFile path
    let files ← tree.filesAmong rest
    return if isFile then path :: files else files

/-! ## Changes -/

/-- The tree with a node at a place. -/
def put (tree : FileTree) (place : Path) (node : Node) : FileTree :=
  { tree with nodes := tree.nodes.filter (fun entry => entry.1 ≠ place) ++ [(place, node)] }

/-- The tree without what is at a place or in it. -/
def erase (tree : FileTree) (place : Path) : FileTree :=
  { tree with
    nodes := tree.nodes.filter fun entry => entry.1 ≠ place && !isInside entry.1 place }

/-- The tree with all directories on the way through components, and the place they lead to. -/
def makeDirectories (tree : FileTree) :
    Path → List String → Except FileFault.Cause (FileTree × Path)
  | place, [] => .ok (tree, place)
  | place, name :: rest =>
    if maxNameLength < name.utf8ByteSize then
      .error .nameTooLong
    else
      let next := step place name
      match tree.nodeAt next with
      | some .directory => makeDirectories tree next rest
      | some (.file _) => .error (if rest = [] then .exists else .notDirectory)
      | none => makeDirectories (tree.put next .directory) next rest

/-- The tree with a file written, its directories made where they are missing. -/
def write (tree : FileTree) (path : Path) (content : List UInt8) : Except Fault FileTree :=
  if path.isInvalid then .error .invalidPath
  else if pathLengthLimit ≤ path.text.utf8ByteSize then refuse path .nameTooLong
  else
    match tree.makeDirectories (startOf path) path.parts.dropLast with
    | .error cause => refuse path.parent cause
    | .ok (tree, directory) =>
      match path.parts.getLast? with
      | none => refuse path .isDirectory
      | some name =>
        let place := step directory name
        if maxNameLength < name.utf8ByteSize then refuse path .nameTooLong
        else
          match tree.nodeAt place with
          | some .directory => refuse path .isDirectory
          | _ => .ok (tree.put place (.file content))

/-- The tree without the file or directory that a path leads to. -/
def remove (tree : FileTree) (path : Path) : Except Fault FileTree :=
  if path.isInvalid then .error .invalidPath
  else
    match tree.find path with
    | .ok (place, _) => .ok (tree.erase place)
    | .error cause => refuse path cause

/-- The tree with a directory that a path leads to. -/
def addDirectory (tree : FileTree) (path : Path) : FileTree :=
  match tree.makeDirectories (startOf path) path.parts with
  | .ok (tree, place) => if isAbove place then tree else tree.put place .directory
  | .error _ => tree

end FileTree

end ChatHistory
