import ChatHistory.Command.Stop
import ChatHistory.Files.Path

/-!
# Options and arguments

`ParsedArguments.parse` reads a command line whose options have given forms.  A long option may have
its value attached behind an equals sign, short options may stand together behind one dash, and
where an option is repeated its last value counts.  `ParsedArguments.check` looks at the values:
the options come in the order in which they are given first.
-/

namespace ChatHistory.Command

/-- What the value of an option has to be. -/
inductive ValueForm where
  | text
  | choice (choices : List String)
  /-- A path, whether it leads anywhere or not. -/
  | path
  /-- A path that leads to a file or a directory. -/
  | existingPath
  deriving DecidableEq, Repr

/-- An option of a subcommand. -/
structure OptionForm where
  long : String
  short : Option Char
  /-- What follows the option; nothing follows one that is only given or not. -/
  value : Option ValueForm
  deriving DecidableEq, Repr

namespace OptionForm

/-- An option that is given or not. -/
def flag (long : String) (short : Option Char) : OptionForm :=
  ⟨long, short, none⟩

/-- An option that is followed by a value. -/
def valued (long : String) (short : Option Char) (value : ValueForm) : OptionForm :=
  ⟨long, short, some value⟩

/-- The option that asks for help. -/
def help : OptionForm :=
  flag "--help" none

end OptionForm

namespace ValueForm

/-- A path may not hold a character that no path can have. -/
def checkPath (path : String) : Run Unit :=
  if (Path.ofString path).isInvalid then .error (.fault .invalidPath) else .ok ()

/-- Checks the value of an option, given which paths lead to a file or a directory. -/
def check (leads : String → Bool) (option value : String) : ValueForm → Run Unit
  | .text => .ok ()
  | .choice choices =>
    if choices.contains value then .ok () else misuse (.invalidChoice option value)
  | .path => checkPath value
  | .existingPath => do
    checkPath value
    if leads value then .ok () else misuse (.missingFile option value)

end ValueForm

/-- The options and arguments of a command line in order.  An option without a value has the empty
text. -/
structure ParsedArguments where
  options : List (String × String)
  arguments : List String
  deriving DecidableEq, Repr

namespace ParsedArguments

/-- The last value of an option. -/
def value? (parsed : ParsedArguments) (option : String) : Option String :=
  (parsed.options.reverse.find? fun entry => entry.1 = option).map (·.2)

/-- The option is given. -/
def isGiven (parsed : ParsedArguments) (option : String) : Bool :=
  parsed.options.any fun entry => entry.1 = option

/-- The line with one more option in front. -/
def withOption (option value : String) (parsed : ParsedArguments) : ParsedArguments :=
  { parsed with options := (option, value) :: parsed.options }

/-- The line with one more argument in front. -/
def withArgument (argument : String) (parsed : ParsedArguments) : ParsedArguments :=
  { parsed with arguments := argument :: parsed.arguments }

/-- The name of a long option and the value attached to it. -/
def splitAttached (argument : List Char) : List Char × Option (List Char) :=
  match argument.dropWhile (· ≠ '=') with
  | '=' :: value => (argument.takeWhile (· ≠ '='), some value)
  | _ => (argument, none)

/-- What short options behind one dash come to: the flags among them, and the option with a value
that may come last, together with the value where it is attached. -/
structure Cluster where
  flags : List String
  last : Option (String × Option String)

/-- The short options behind one dash. -/
def readCluster (forms : List OptionForm) : List Char → Except UsageFault Cluster
  | [] => .ok ⟨[], none⟩
  | c :: rest =>
    match forms.find? fun form => form.short = some c with
    | none => .error (.unknownOption (String.ofList ['-', c]))
    | some form =>
      if form.value.isSome then
        .ok ⟨[], some (form.long, if rest.isEmpty then none else some (String.ofList rest))⟩
      else do
        let cluster ← readCluster forms rest
        return { cluster with flags := form.long :: cluster.flags }

/-- What one argument that begins with a dash gives: flags, and an option with a value, attached or
still to come. -/
def readOption (forms : List OptionForm) (argument : String) : Except UsageFault Cluster :=
  let (name, attached) := splitAttached argument.toList
  match forms.find? fun form => form.long.toList = name with
  | some form =>
    if form.value.isSome then .ok ⟨[], some (form.long, attached.map String.ofList)⟩
    else if attached.isSome then .error (.unexpectedValue form.long)
    else .ok ⟨[form.long], none⟩
  | none =>
    match argument.toList with
    | '-' :: '-' :: _ => .error (.unknownOption (String.ofList name))
    | _ => readCluster forms (argument.toList.drop 1)

/-- An argument that names options. -/
def isOption (argument : String) : Bool :=
  match argument.toList with
  | '-' :: _ :: _ => true
  | _ => false

/-- The options and arguments of a command line.  Behind two dashes everything is an argument. -/
def parse (forms : List OptionForm) : List String → Except UsageFault ParsedArguments
  | [] => .ok ⟨[], []⟩
  | argument :: rest =>
    if argument = "--" then
      .ok ⟨[], rest⟩
    else if isOption argument then do
      let cluster ← readOption forms argument
      let addFlags (parsed : ParsedArguments) : ParsedArguments :=
        cluster.flags.foldr (fun flag parsed => parsed.withOption flag "") parsed
      match cluster.last with
      | none => return addFlags (← parse forms rest)
      | some (option, some value) =>
        return addFlags ((← parse forms rest).withOption option value)
      | some (option, none) =>
        match rest with
        | [] => throw (.missingValue option)
        | value :: rest => return addFlags ((← parse forms rest).withOption option value)
    else do
      return (← parse forms rest).withArgument argument

/-- The value of an option that has to be given. -/
def required (parsed : ParsedArguments) (option : String) : Run String :=
  match parsed.value? option with
  | some value => .ok value
  | none => misuse (.missingOption option)

/-- Checks the options that are given, in the order in which they are given first, and each of them
by its last value. -/
def check (leads : String → Bool) (forms : List OptionForm) (parsed : ParsedArguments) : Run Unit :=
  (parsed.options.map (·.1)).eraseDups.forM fun option =>
    match (forms.find? fun form => form.long = option).bind OptionForm.value,
        parsed.value? option with
    | some form, some value => form.check leads option value
    | _, _ => .ok ()

end ParsedArguments

end ChatHistory.Command
