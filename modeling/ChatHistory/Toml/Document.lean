import ChatHistory.Text.Scan
import ChatHistory.Toml.Scalar

/-!
# Settings documents

`Toml.read` reads a TOML document as one table.  Tables may be opened only once, a value is never
replaced, and what an array or an inline table holds is closed to later statements.
-/

namespace ChatHistory.Toml

open Text

/-! ## Keys -/

/-- A character that may stand in a key without quotes. -/
def isBareKey (c : Char) : Bool :=
  c.isAlphanum || c = '-' || c = '_'

/-- One part of a key. -/
def readKeyPart (text : List Char) : Option (String × List Char) :=
  match text with
  | '\'' :: rest => readLiteralLine rest
  | '"' :: rest => readLine rest
  | _ =>
    let bare := text.takeWhile isBareKey
    if bare.isEmpty then none else some (String.ofList bare, text.drop bare.length)

/-- A key of one or more parts with points between them, and the blanks behind it.  The first
argument bounds the number of parts. -/
def readKeyParts : Nat → List Char → Option (List String × List Char)
  | 0, _ => none
  | bound + 1, text => do
    let (part, rest) ← readKeyPart text
    match skipGap rest with
    | '.' :: rest =>
      let (parts, rest) ← readKeyParts bound (skipGap rest)
      return (part :: parts, rest)
    | rest => return ([part], rest)

/-- A key, and the blanks behind it. -/
def readKey (text : List Char) : Option (List String × List Char) :=
  readKeyParts (text.length + 1) text

/-! ## Tables under construction -/

/-- The table with what stands behind a path changed.  Tables that are missing on the way are made;
where the path leads through an array of tables, its last one counts, if arrays may be entered.
The change may be refused. -/
def changeAt (enterArrays : Bool) (change : Table → Option Table) :
    List String → Table → Option Table
  | [], table => change table
  | name :: path, table =>
    match Assoc.get? table name with
    | none => do
      let inner ← changeAt enterArrays change path []
      return Assoc.set table name (.table inner)
    | some (.table inner) => do
      let inner ← changeAt enterArrays change path inner
      return Assoc.set table name (.table inner)
    | some (.array items) =>
      match items.getLast? with
      | some (.table inner) => do
        if enterArrays then
          let inner ← changeAt enterArrays change path inner
          return Assoc.set table name (.array (items.dropLast ++ [.table inner]))
        else none
      | _ => none
    | some _ => none

/-- The table with one more entry, unless the name has a value. -/
def addEntry (name : String) (value : Value) (table : Table) : Option Table :=
  if Assoc.contains table name then none else some (Assoc.set table name value)

/-- The table with a value behind a key. -/
def insert (enterArrays : Bool) (key : List String) (value : Value) (table : Table) :
    Option Table :=
  match key.getLast? with
  | some name => changeAt enterArrays (addEntry name value) key.dropLast table
  | none => none

/-- The table with one more empty table in the array of tables of a name. -/
def appendTable (name : String) (table : Table) : Option Table :=
  match Assoc.get? table name with
  | none => some (Assoc.set table name (.array [.table []]))
  | some (.array items) => some (Assoc.set table name (.array (items ++ [.table []])))
  | some _ => none

/-- A value that later statements may not change. -/
def isClosed : Value → Bool
  | .array _ | .table _ => true
  | _ => false

/-- One of the paths leads to a key or to something that the key lies in. -/
def covers (paths : List (List String)) (key : List String) : Bool :=
  paths.any fun path => path.isPrefixOf key

/-! ## Values -/

/-- The text behind a comment, if there is one at its beginning.  A comment ends with its line. -/
def skipComment : List Char → Option (List Char)
  | '#' :: rest =>
    let comment := rest.takeWhile (· ≠ '\n')
    if comment.any isControl then none else some (rest.drop comment.length)
  | rest => some rest

/-- The text behind blanks, line ends and comments.  The first argument bounds the number of
comments. -/
def skipFiller : Nat → List Char → Option (List Char)
  | 0, text => some (text.dropWhile isGapOrBreak)
  | bound + 1, text =>
    match text.dropWhile isGapOrBreak with
    | '#' :: rest => do skipFiller bound (← skipComment ('#' :: rest))
    | rest => some rest

/-- The text behind blanks, line ends and comments. -/
def skipAllFiller (text : List Char) : Option (List Char) :=
  skipFiller text.length text

mutual

/-- A value at the beginning of a text.  The first argument bounds the number of steps. -/
def readValue : Nat → List Char → Option (Value × List Char)
  | 0, _ => none
  | bound + 1, text =>
    match text with
    | '[' :: rest => do
      match ← skipAllFiller rest with
      | ']' :: rest => return (.array [], rest)
      | rest =>
        let (items, rest) ← readItems bound rest
        return (.array items, rest)
    | '{' :: rest =>
      match skipGap rest with
      | '}' :: rest => some (.table [], rest)
      | rest => do
        let (table, rest) ← readEntries bound [] [] rest
        return (.table table, rest)
    | _ => readScalar text

/-- The items of an array up to its closing bracket. -/
def readItems : Nat → List Char → Option (List Value × List Char)
  | 0, _ => none
  | bound + 1, text => do
    let (item, rest) ← readValue bound text
    match ← skipAllFiller rest with
    | ']' :: rest => return ([item], rest)
    | ',' :: rest =>
      match ← skipAllFiller rest with
      | ']' :: rest => return ([item], rest)
      | rest =>
        let (items, rest) ← readItems bound rest
        return (item :: items, rest)
    | _ => none

/-- The entries of an inline table up to its closing brace, added to those read before.  The paths
are those of the composite values among them. -/
def readEntries : Nat → Table → List (List String) → List Char → Option (Table × List Char)
  | 0, _, _, _ => none
  | bound + 1, table, closed, text => do
    let (key, rest) ← readKey text
    let (value, rest) ← readValue bound (skipGap (← expect '=' rest))
    if covers closed key then none else
      let table ← insert false key value table
      match skipGap rest with
      | '}' :: rest => return (table, rest)
      | ',' :: rest =>
        readEntries bound table (if isClosed value then key :: closed else closed) (skipGap rest)
      | _ => none

end

/-! ## Statements -/

/-- A document under construction: the table so far, the path of the table that is open, the paths
that later statements may not change, the paths of tables that may not be opened again, and those
that become so with the next table. -/
structure Draft where
  table : Table
  header : List String
  closed : List (List String)
  opened : List (List String)
  pending : List (List String)

namespace Draft

/-- Nothing read yet. -/
def empty : Draft := ⟨[], [], [], [], []⟩

/-- The draft in which the tables made by dotted keys can no longer be opened. -/
def settlePending (draft : Draft) : Draft :=
  { draft with opened := draft.pending ++ draft.opened, pending := [] }

/-- The draft with a table opened. -/
def openTable (draft : Draft) (key : List String) : Option Draft := do
  if draft.opened.contains key || covers draft.closed key then none else
    let table ← changeAt true some key draft.table
    return { draft with table := table, header := key, opened := key :: draft.opened }

/-- The draft with one more table opened in an array of tables.  What earlier tables of the array
hold may be opened anew in this one. -/
def openArrayTable (draft : Draft) (key : List String) : Option Draft := do
  if covers draft.closed key then none else
    let name ← key.getLast?
    let table ← changeAt true (appendTable name) key.dropLast draft.table
    let outside (path : List String) : Bool := !key.isPrefixOf path
    return { draft with
      table := table
      header := key
      closed := draft.closed.filter outside
      opened := key :: draft.opened.filter outside }

/-- The draft with a value set in the open table. -/
def setValue (draft : Draft) (key : List String) (value : Value) : Option Draft := do
  let parents := (List.range (key.length - 1)).map fun i => draft.header ++ key.take (i + 1)
  if parents.any draft.opened.contains || covers draft.closed (draft.header ++ key.dropLast) then
    none
  else
    let path := draft.header ++ key
    let table ← insert true path value draft.table
    return { draft with
      table := table
      closed := if isClosed value then path :: draft.closed else draft.closed
      pending := parents ++ draft.pending }

end Draft

/-- The draft with one statement added that is not a comment, and the text behind it. -/
def readStatement (draft : Draft) (text : List Char) : Option (Draft × List Char) :=
  match text with
  | '[' :: '[' :: rest => do
    let (key, rest) ← readKey (skipGap rest)
    let draft ← draft.settlePending.openArrayTable key
    return (draft, ← [']', ']'].isPrefixOf? rest)
  | '[' :: rest => do
    let (key, rest) ← readKey (skipGap rest)
    let draft ← draft.settlePending.openTable key
    return (draft, ← expect ']' rest)
  | _ => do
    let (key, rest) ← readKey text
    let (value, rest) ← readValue (2 * rest.length + 2) (skipGap (← expect '=' rest))
    return (← draft.setValue key value, rest)

/-- The table of a document from a place on.  The first argument bounds the number of lines. -/
def readLines : Nat → Draft → List Char → Option Table
  | 0, _, _ => none
  | bound + 1, draft, text =>
    match skipGap text with
    | [] => some draft.table
    | '\n' :: rest => readLines bound draft rest
    | start => do
      let (draft, rest) ← if start.head? = some '#' then some (draft, start)
        else readStatement draft start
      match ← skipComment (skipGap rest) with
      | [] => return draft.table
      | '\n' :: rest => readLines bound draft rest
      | _ => none

/-- The table that a document writes. -/
def read (text : List Char) : Option Table :=
  let text := replaceAll ['\r', '\n'] ['\n'] text
  readLines (text.length + 1) .empty text

end ChatHistory.Toml
