import ChatHistory.Fault
import ChatHistory.Files.Path

/-!
# The environment of a user

The variables of the environment and the home directories of users.  `Environment.expand` replaces
a tilde at the beginning of a relative path by the home directory that it names.  The home directory
of the present user is the one that the environment sets, or else the one that the system knows.
-/

namespace ChatHistory

/-- The variables that are set, and the home directories that the system knows: those of users by
name, and the one of the present user under the empty name. -/
structure Environment where
  vars : Assoc String
  homes : Assoc String
  deriving Repr

namespace Environment

/-- The value of a variable, unless it is unset or empty. -/
def value? (environment : Environment) (name : String) : Option String :=
  (Assoc.get? environment.vars name).filter fun value => value ≠ ""

/-- A directory without the slashes at its end; the root stays a slash. -/
def withoutSlashes (directory : String) : String :=
  let kept := (directory.toList.reverse.dropWhile (· = '/')).reverse
  if kept.isEmpty then "/" else String.ofList kept

/-- The home directory of the present user, or of the named one. -/
def home? (environment : Environment) (user : String) : Option String :=
  let known := Assoc.get? environment.homes user
  let home := if user.isEmpty then (Assoc.get? environment.vars "HOME").or known else known
  home.map withoutSlashes

/-- The path with the tilde at its beginning, if there is one, replaced by a home directory. -/
def expand (environment : Environment) (path : Path) : Except Fault Path :=
  match path.root, path.parts with
  | "", first :: rest =>
    match first.toList with
    | '~' :: user =>
      if user.contains '\x00' then .error .invalidPath
      else match environment.home? (String.ofList user) with
      | some home =>
        if home.startsWith "~" then .error .unknownHome
        else .ok ((Path.ofString home).append ⟨"", rest⟩)
      | none => .error .unknownHome
    | _ => .ok path
  | _, _ => .ok path

end Environment

end ChatHistory
