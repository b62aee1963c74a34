import ChatHistory.Session.Store

/-!
# Files that a session mentions

A session mentions the plans that its user approved, and the skills that were put into it.
-/

namespace ChatHistory

open Text

/-- The file of a plan that an entry approves. -/
def planFile? (entry : Fields) : Option String :=
  if (Json.field entry "type").isString "user" then
    match Json.field entry "toolUseResult" with
    | .object details =>
      match Json.field details "plan", Json.field details "filePath" with
      | .string _, .string path => some path
      | _, _ => none
    | _ => none
  else
    none

/-- A skill: the path of its file, and the name to show for it. -/
structure SkillFile where
  path : String
  displayName : String
  deriving DecidableEq, Repr

namespace SkillFile

/-- The beginning of the text that puts a skill into a session. -/
def announcement : List Char :=
  "Base directory for this skill: ".toList

/-- The name of the file of a skill. -/
def fileName : String := "SKILL.md"

/-- The path of the skill file in a directory. -/
def pathIn (directory : List Char) : List Char :=
  if directory.isEmpty || directory.getLast? = some '/' then directory ++ fileName.toList
  else directory ++ '/' :: fileName.toList

/-- The path of the skill file that a text announces. -/
def announcedPath? (text : List Char) : Option (List Char) := do
  let rest ← announcement.isPrefixOf? text
  let line := rest.takeWhile (· ≠ '\n')
  if line.isEmpty then none else some (pathIn (strip line))

/-- The name to show for the file of a skill: that of its directory, or that of the file where the
path gives no directory or another file. -/
def displayNameOf (path : List Char) : String :=
  let segments := splitAtChar '/' path
  let file := segments.getLast?.getD []
  let file := if file.isEmpty then path else file
  match segments.dropLast.getLast? with
  | some directory =>
    if file = fileName.toList && !directory.isEmpty then String.ofList directory
    else String.ofList file
  | none => String.ofList file

/-- The skill of a given path. -/
def ofPath (path : List Char) : SkillFile :=
  ⟨String.ofList path, displayNameOf path⟩

/-- The skill that an item of a content announces. -/
def ofItem? : Json → Option SkillFile
  | .object item =>
    if (Json.field item "type").isString "text" then
      ((Json.field item "text").string?).bind fun text =>
        (announcedPath? text.toList).map ofPath
    else
      none
  | _ => none

/-- The skill that an entry puts into a session. -/
def ofEntry? (entry : Fields) : Option SkillFile :=
  if (Json.field entry "type").isString "user" && (Json.field entry "isMeta").isTrue then
    match Json.field entry "message" with
    | .object message =>
      match Json.field message "content" with
      | .array items => items.findSome? ofItem?
      | _ => none
    | _ => none
  else
    none

/-- The skill as a JSON object. -/
def toJson (skill : SkillFile) : Json :=
  .object [("path", .string skill.path), ("displayName", .string skill.displayName)]

end SkillFile

namespace SessionStore

/-- The files of the plans approved in a session, in the order of its log. -/
def plans (store : SessionStore) (session project : String) : Except Fault (List String) := do
  return (← store.primaryEntries session project).filterMap planFile?

/-- The skills put into a session, in the order of its log. -/
def skills (store : SessionStore) (session project : String) : Except Fault (List SkillFile) := do
  return (← store.primaryEntries session project).filterMap SkillFile.ofEntry?

end SessionStore

end ChatHistory
