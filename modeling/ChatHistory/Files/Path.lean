import ChatHistory.Text.Scan

/-!
# Paths

A path is a root, empty for a relative path, and the names of its components.  Reading a path drops
repeated slashes and components that are a single point, and keeps two points; exactly two slashes
at the beginning are a root of their own.
-/

namespace ChatHistory

/-- A path in normal form. -/
structure Path where
  root : String
  parts : List String
  deriving DecidableEq, Repr

namespace Path

/-- The root at the beginning of a path: none, one slash, or exactly two. -/
def rootOf : List Char → String
  | '/' :: '/' :: '/' :: _ => "/"
  | '/' :: '/' :: _ => "//"
  | '/' :: _ => "/"
  | _ => ""

/-- The path that a text writes. -/
def ofString (text : String) : Path :=
  let parts := (Text.splitAtChar '/' text.toList).map String.ofList
  ⟨rootOf text.toList, parts.filter fun part => part ≠ "" && part ≠ "."⟩

/-- The text of a path; a path without components is a single point. -/
def text (path : Path) : String :=
  let body := path.root ++ "/".intercalate path.parts
  if body.isEmpty then "." else body

/-- The path behind another one.  A path with a root stands for itself. -/
def append (path other : Path) : Path :=
  if other.root = "" then ⟨path.root, path.parts ++ other.parts⟩ else other

/-- The path of an entry of a directory. -/
def child (path : Path) (entry : String) : Path :=
  path.append (ofString entry)

/-- The last component, empty if there is none. -/
def name (path : Path) : String :=
  path.parts.getLast?.getD ""

/-- The path without its last component. -/
def parent (path : Path) : Path :=
  { path with parts := path.parts.dropLast }

/-- A file name without its last extension.  A point at either end begins no extension. -/
def stemOf (name : String) : String :=
  let reversed := name.toList.reverse
  let extension := reversed.takeWhile (· ≠ '.')
  match extension, reversed.dropWhile (· ≠ '.') with
  | _ :: _, '.' :: c :: stem => String.ofList (c :: stem).reverse
  | _, _ => name

/-- The last component without its last extension. -/
def stem (path : Path) : String :=
  stemOf path.name

/-- A character that no path can have occurs in the path. -/
def isInvalid (path : Path) : Bool :=
  path.text.toList.contains '\x00'

end Path

end ChatHistory
