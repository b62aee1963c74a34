import ChatHistory.Json.Basic
import ChatHistory.Number.Numeral

/-!
# Reading JSON

`Json.read` reads a whole text as one JSON value.  Besides the standard grammar the words `NaN`,
`Infinity` and `-Infinity` are numbers.  A whole number of more digits than a numeral may have is
refused as `Malformed.tooManyDigits`, at the place where it is read: an offence against the grammar
before it comes first.  If a field occurs twice in an object, the last value counts, in the place
of the first.

Two limits are set aside.  A reader whose stack is bounded gives up on arrays and objects that are
nested too deep; here every depth is read, and what is proved of the lines of a log and of their
values speaks of lines whose nesting such a reader can follow.  A string is a text of characters, so
the escape of half a surrogate pair reads as the replacement character, and strings that differ only
in such halves read as the same.

Every function here answers with the rest of the text behind what it has read.
-/

namespace ChatHistory.Json

open Text

/-- Why a text is not a JSON value. -/
inductive Malformed where
  /-- The text does not follow the grammar. -/
  | grammar
  /-- A whole number has too many digits. -/
  | tooManyDigits
  deriving DecidableEq, Repr

/-- The blanks that the grammar allows between tokens. -/
def isGap (c : Char) : Bool :=
  c = ' ' || c = '\t' || c = '\n' || c = '\r'

/-- The text without the gap in front of it. -/
def skipGap (text : List Char) : List Char :=
  text.dropWhile isGap

/-! ## Strings -/

/-- The four hexadecimal digits of an escaped code unit. -/
def readUnit : List Char → Except Malformed (Nat × List Char)
  | a :: b :: c :: d :: rest =>
    match [a, b, c, d].mapM hexDigitValue? with
    | some ds => .ok (ofDigits 16 ds, rest)
    | none => .error .grammar
  | _ => .error .grammar

/-- A code unit that needs a second one to make up a character. -/
def isHighSurrogate (unit : Nat) : Bool :=
  decide (0xD800 ≤ unit) && decide (unit < 0xDC00)

/-- A code unit that completes a character. -/
def isLowSurrogate (unit : Nat) : Bool :=
  decide (0xDC00 ≤ unit) && decide (unit < 0xE000)

/-- The character of a code unit on its own; a surrogate has none and shows as the replacement
character. -/
def charOfUnit (unit : Nat) : Char :=
  if isHighSurrogate unit || isLowSurrogate unit then '\uFFFD' else Char.ofNat unit

/-- The character of an escaped code unit, together with the unit escaped behind it where the two
make up one character. -/
def readEscapedUnit (text : List Char) : Except Malformed (Char × List Char) := do
  let (unit, rest) ← readUnit text
  if isHighSurrogate unit then
    match rest with
    | '\\' :: 'u' :: after =>
      let (second, final) ← readUnit after
      if isLowSurrogate second then
        return (Char.ofNat (0x10000 + (unit - 0xD800) * 0x400 + (second - 0xDC00)), final)
      else
        return (charOfUnit unit, rest)
    | _ => return (charOfUnit unit, rest)
  else
    return (charOfUnit unit, rest)

/-- The character behind a backslash. -/
def readEscape : List Char → Except Malformed (Char × List Char)
  | '"' :: rest => .ok ('"', rest)
  | '\\' :: rest => .ok ('\\', rest)
  | '/' :: rest => .ok ('/', rest)
  | 'b' :: rest => .ok ('\x08', rest)
  | 'f' :: rest => .ok ('\x0c', rest)
  | 'n' :: rest => .ok ('\n', rest)
  | 'r' :: rest => .ok ('\r', rest)
  | 't' :: rest => .ok ('\t', rest)
  | 'u' :: rest => readEscapedUnit rest
  | _ => .error .grammar

/-- The characters of a string up to its closing quote.  The first argument bounds the number of
characters. -/
def readChars : Nat → List Char → Except Malformed (List Char × List Char)
  | 0, _ => .error .grammar
  | _ + 1, [] => .error .grammar
  | bound + 1, c :: rest =>
    if c = '"' then
      .ok ([], rest)
    else if c = '\\' then do
      let (d, rest) ← readEscape rest
      let (ds, rest) ← readChars bound rest
      return (d :: ds, rest)
    else if c < ' ' then
      .error .grammar
    else do
      let (ds, rest) ← readChars bound rest
      return (c :: ds, rest)

/-- The characters of a string up to its closing quote. -/
def readString (text : List Char) : Except Malformed (String × List Char) := do
  let (cs, rest) ← readChars (text.length + 1) text
  return (String.ofList cs, rest)

/-! ## Numbers -/

/-- A run of digits and the rest of the text. -/
def takeDigits (text : List Char) : List Char × List Char :=
  (text.takeWhile isAsciiDigit, text.dropWhile isAsciiDigit)

/-- The fraction digits behind a point.  A point that no digit follows is not part of a number. -/
def takeFraction : List Char → List Char × List Char
  | '.' :: rest =>
    match takeDigits rest with
    | ([], _) => ([], '.' :: rest)
    | taken => taken
  | rest => ([], rest)

/-- The exponent of a number.  A mark that no digits follow is not part of a number. -/
def takeExponent (text : List Char) : Option Int × List Char :=
  match text with
  | mark :: rest =>
    if mark = 'e' || mark = 'E' then
      let (negative, rest) := match rest with
        | '-' :: more => (true, more)
        | '+' :: more => (false, more)
        | more => (false, more)
      match takeDigits rest with
      | ([], _) => (none, text)
      | (digits, more) =>
        let magnitude : Int := asciiNumber digits
        (some (if negative then -magnitude else magnitude), more)
    else
      (none, text)
  | [] => (none, text)

/-- The whole digits of a number: a zero alone, or digits that do not begin with zero. -/
def takeWhole : List Char → List Char × List Char
  | '0' :: rest => (['0'], rest)
  | text => takeDigits text

/-- A number whose sign has been read.  Without fraction and exponent it is a whole number. -/
def readNumber (negative : Bool) (text : List Char) : Except Malformed (Json × List Char) :=
  match takeWhole text with
  | ([], _) => .error .grammar
  | (whole, rest) =>
    let (fraction, rest) := takeFraction rest
    match fraction, takeExponent rest with
    | [], (none, rest) =>
      if Numeral.maxDigits < whole.length then
        .error .tooManyDigits
      else
        let magnitude : Int := asciiNumber whole
        .ok (.int (if negative then -magnitude else magnitude), rest)
    | fraction, (exponent, rest) =>
      .ok (.double (.ofDecimal negative (asciiNumber (whole ++ fraction))
        (exponent.getD 0 - fraction.length)), rest)

/-! ## Values -/

/-- The values that are written as words. -/
def wordValues : List (List Char × Json) :=
  [("null".toList, .null), ("true".toList, .bool true), ("false".toList, .bool false),
    ("NaN".toList, .double .nan), ("Infinity".toList, .double (.infinite false)),
    ("-Infinity".toList, .double (.infinite true))]

/-- A value that is neither a string nor composite. -/
def readScalar (text : List Char) : Except Malformed (Json × List Char) :=
  match wordValues.findSome? fun (word, value) =>
      (word.isPrefixOf? text).map fun rest => (value, rest) with
  | some reading => .ok reading
  | none =>
    match text with
    | '-' :: rest => readNumber true rest
    | rest => readNumber false rest

mutual

/-- A value at the beginning of a text.  The first argument bounds the number of steps. -/
def readValue : Nat → List Char → Except Malformed (Json × List Char)
  | 0, _ => .error .grammar
  | bound + 1, text =>
    match text with
    | '"' :: rest => do
      let (s, rest) ← readString rest
      return (.string s, rest)
    | '[' :: rest =>
      match skipGap rest with
      | ']' :: rest => .ok (.array [], rest)
      | rest => do
        let (items, rest) ← readItems bound rest
        return (.array items, rest)
    | '{' :: rest =>
      match skipGap rest with
      | '}' :: rest => .ok (.object [], rest)
      | rest => do
        let (entries, rest) ← readEntries bound rest
        return (.object (Assoc.ofEntries entries), rest)
    | rest => readScalar rest

/-- The items of an array up to its closing bracket; there is at least one. -/
def readItems : Nat → List Char → Except Malformed (List Json × List Char)
  | 0, _ => .error .grammar
  | bound + 1, text => do
    let (item, rest) ← readValue bound text
    match skipGap rest with
    | ']' :: rest => return ([item], rest)
    | ',' :: rest =>
      let (items, rest) ← readItems bound (skipGap rest)
      return (item :: items, rest)
    | _ => .error .grammar

/-- The fields of an object up to its closing brace; there is at least one. -/
def readEntries : Nat → List Char → Except Malformed (List (String × Json) × List Char)
  | 0, _ => .error .grammar
  | bound + 1, text =>
    match text with
    | '"' :: rest => do
      let (name, rest) ← readString rest
      match skipGap rest with
      | ':' :: rest =>
        let (value, rest) ← readValue bound (skipGap rest)
        match skipGap rest with
        | '}' :: rest => return ([(name, value)], rest)
        | ',' :: rest =>
          let (entries, rest) ← readEntries bound (skipGap rest)
          return ((name, value) :: entries, rest)
        | _ => .error .grammar
      | _ => .error .grammar
    | _ => .error .grammar

end

/-- The value that a whole text writes, with gaps allowed around it. -/
def read (text : List Char) : Except Malformed Json := do
  let (value, rest) ← readValue (2 * text.length + 2) (skipGap text)
  if skipGap rest = [] then return value else throw .grammar

end ChatHistory.Json
