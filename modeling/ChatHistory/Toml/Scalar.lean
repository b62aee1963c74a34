import ChatHistory.Toml.Value

/-!
# Texts, numbers and dates in settings documents

The scalar values of a TOML document.  Every reader answers with the rest of the text behind what
it has read, or with nothing if the text does not begin with what it reads.
-/

namespace ChatHistory.Toml

open Text

/-! ## Texts -/

/-- A control character other than the tab; no text or comment may hold one. -/
def isControl (c : Char) : Bool :=
  (c < ' ' && c != '\t') || c = '\x7f'

/-- A blank within a line. -/
def isGap (c : Char) : Bool :=
  c = ' ' || c = '\t'

/-- A blank or the end of a line. -/
def isGapOrBreak (c : Char) : Bool :=
  isGap c || c = '\n'

/-- The text without the blanks at its beginning. -/
def skipGap (text : List Char) : List Char :=
  text.dropWhile isGap

/-- A code point that is a character. -/
def isScalarValue (code : Nat) : Bool :=
  decide (code < 0xD800) || (decide (0xE000 ≤ code) && decide (code < 0x110000))

/-- The character of an escaped code point with the given number of digits. -/
def readCodePoint (count : Nat) (text : List Char) : Option (Char × List Char) := do
  let digits := text.take count
  let values ← digits.mapM hexDigitValue?
  let code := ofDigits 16 values
  if values.length = count ∧ isScalarValue code then
    return (Char.ofNat code, text.drop count)
  else
    none

/-- What a backslash and the characters behind it stand for.  In a text of several lines, a
backslash at the end of a line swallows the blanks and line ends that follow. -/
def readEscape (multiline : Bool) (text : List Char) : Option (List Char × List Char) :=
  match text with
  | 'b' :: rest => some (['\x08'], rest)
  | 't' :: rest => some (['\t'], rest)
  | 'n' :: rest => some (['\n'], rest)
  | 'f' :: rest => some (['\x0c'], rest)
  | 'r' :: rest => some (['\r'], rest)
  | '"' :: rest => some (['"'], rest)
  | '\\' :: rest => some (['\\'], rest)
  | 'u' :: rest => (readCodePoint 4 rest).map fun (c, more) => ([c], more)
  | 'U' :: rest => (readCodePoint 8 rest).map fun (c, more) => ([c], more)
  | c :: _ =>
    if multiline && isGapOrBreak c then
      match skipGap text with
      | [] => some ([], [])
      | '\n' :: rest => some ([], rest.dropWhile isGapOrBreak)
      | _ => none
    else
      none
  | [] => none

/-- The three quotes that end a text of several lines. -/
def tripleQuote : List Char := ['"', '"', '"']

/-- The three apostrophes that end a literal text of several lines. -/
def tripleApostrophe : List Char := ['\'', '\'', '\'']

/-- The characters of a basic text up to the quote, or the quotes, that end it.  The first argument
bounds the number of characters. -/
def readBasic (multiline : Bool) : Nat → List Char → Option (List Char × List Char)
  | 0, _ => none
  | _ + 1, [] => none
  | bound + 1, c :: rest =>
    if c = '"' then
      if multiline then
        match tripleQuote.isPrefixOf? (c :: rest) with
        | some after => some ([], after)
        | none => (readBasic multiline bound rest).map fun (cs, more) => (c :: cs, more)
      else
        some ([], rest)
    else if c = '\\' then do
      let (escaped, rest) ← readEscape multiline rest
      let (cs, more) ← readBasic multiline bound rest
      return (escaped ++ cs, more)
    else if isControl c && !(multiline && c = '\n') then
      none
    else
      (readBasic multiline bound rest).map fun (cs, more) => (c :: cs, more)

/-- The characters of a literal text up to the apostrophes that end it. -/
def readLiteral (multiline : Bool) : List Char → Option (List Char × List Char)
  | [] => none
  | c :: rest =>
    if multiline then
      match tripleApostrophe.isPrefixOf? (c :: rest) with
      | some after => some ([], after)
      | none =>
        if isControl c && c != '\n' then none
        else (readLiteral multiline rest).map fun (cs, more) => (c :: cs, more)
    else if c = '\'' then
      some ([], rest)
    else if isControl c then
      none
    else
      (readLiteral multiline rest).map fun (cs, more) => (c :: cs, more)

/-- The text without a line end at its beginning. -/
def skipBreak : List Char → List Char
  | '\n' :: rest => rest
  | rest => rest

/-- At most two more marks behind the three that end a text of several lines belong to the
text. -/
def takeExtraMarks (mark : Char) (text rest : List Char) : List Char × List Char :=
  match rest with
  | a :: b :: more =>
    if a = mark then if b = mark then (text ++ [a, b], more) else (text ++ [a], b :: more)
    else (text, rest)
  | [a] => if a = mark then (text ++ [a], []) else (text, rest)
  | [] => (text, rest)

/-- A basic text on one line, behind its opening quote. -/
def readLine (text : List Char) : Option (String × List Char) :=
  (readBasic false (text.length + 1) text).map fun (cs, rest) => (String.ofList cs, rest)

/-- A literal text on one line, behind its opening apostrophe. -/
def readLiteralLine (text : List Char) : Option (String × List Char) :=
  (readLiteral false text).map fun (cs, rest) => (String.ofList cs, rest)

/-- A text between quotes or apostrophes of any kind. -/
def readText (text : List Char) : Option (String × List Char) :=
  let finish (mark : Char) : List Char × List Char → String × List Char := fun (cs, rest) =>
    let (cs, rest) := takeExtraMarks mark cs rest
    (String.ofList cs, rest)
  match text with
  | '"' :: '"' :: '"' :: rest =>
    (readBasic true (rest.length + 1) (skipBreak rest)).map (finish '"')
  | '"' :: rest => readLine rest
  | '\'' :: '\'' :: '\'' :: rest => (readLiteral true (skipBreak rest)).map (finish '\'')
  | '\'' :: rest => readLiteralLine rest
  | _ => none

/-! ## Numbers -/

/-- The values of digits in which single underscores may separate digits, as far as they go. -/
def takeDigits (digit : Char → Option Nat) : List Char → List Nat × List Char
  | [] => ([], [])
  | '_' :: c :: rest =>
    match digit c with
    | some d =>
      let (ds, more) := takeDigits digit rest
      (d :: ds, more)
    | none => ([], '_' :: c :: rest)
  | c :: rest =>
    match digit c with
    | some d =>
      let (ds, more) := takeDigits digit rest
      (d :: ds, more)
    | none => ([], c :: rest)

/-- The values of digits, at least one, that do not begin with an underscore. -/
def readDigits (digit : Char → Option Nat) (text : List Char) : Option (List Nat × List Char) :=
  match text with
  | c :: _ =>
    if (digit c).isSome then some (takeDigits digit text) else none
  | [] => none

/-- A digit of a base up to sixteen. -/
def digitOf (base : Nat) (c : Char) : Option Nat :=
  (hexDigitValue? c).bind fun d => if d < base then some d else none

/-- A whole number with a mark for its base. -/
def readBased (text : List Char) : Option (Value × List Char) :=
  let digits (base : Nat) (rest : List Char) : Option (Value × List Char) :=
    (readDigits (digitOf base) rest).map fun (ds, more) => (.integer (ofDigits base ds), more)
  match text with
  | '0' :: 'x' :: rest => digits 16 rest
  | '0' :: 'b' :: rest => digits 2 rest
  | '0' :: 'o' :: rest => digits 8 rest
  | _ => none

/-- The sign of a number, negative or not. -/
def takeSign : List Char → Bool × List Char
  | '-' :: rest => (true, rest)
  | '+' :: rest => (false, rest)
  | rest => (false, rest)

/-- The digits behind a point, if there are any. -/
def takeFraction : List Char → List Nat × List Char
  | '.' :: rest => (readDigits asciiDigitValue? rest).getD ([], '.' :: rest)
  | rest => ([], rest)

/-- The exponent behind its mark, if there is one. -/
def takeExponent (text : List Char) : Option Int × List Char :=
  match text with
  | mark :: rest =>
    if mark = 'e' || mark = 'E' then
      let (negative, rest) := takeSign rest
      match readDigits asciiDigitValue? rest with
      | some (ds, more) =>
        let magnitude : Int := ofDigits 10 ds
        (some (if negative then -magnitude else magnitude), more)
      | none => (none, text)
    else
      (none, text)
  | [] => (none, text)

/-- A decimal number: a whole number unless it has a fraction or an exponent. -/
def readDecimal (text : List Char) : Option (Value × List Char) := do
  let (negative, rest) := takeSign text
  let (whole, rest) ← match rest with
    | '0' :: more => some ([0], more)
    | _ => readDigits asciiDigitValue? rest
  let (fraction, rest) := takeFraction rest
  let (exponent, rest) := takeExponent rest
  if fraction.isEmpty && exponent.isNone then
    if Numeral.maxDigits < whole.length then none else
      let magnitude : Int := ofDigits 10 whole
      return (.integer (if negative then -magnitude else magnitude), rest)
  else
    return (.float (.ofDecimal negative (ofDigits 10 (whole ++ fraction))
      (exponent.getD 0 - fraction.length)), rest)

/-- The numbers that are written as words. -/
def wordNumbers : List (List Char × Value) :=
  [("inf".toList, .float (.infinite false)), ("nan".toList, .float .nan),
    ("-inf".toList, .float (.infinite true)), ("+inf".toList, .float (.infinite false)),
    ("-nan".toList, .float .nan), ("+nan".toList, .float .nan)]

/-- One of the words of a list, with its value. -/
def readWord (words : List (List Char × Value)) (text : List Char) : Option (Value × List Char) :=
  words.findSome? fun (word, value) => (word.isPrefixOf? text).map fun rest => (value, rest)

/-! ## Dates and times -/

/-- A number of exactly the given count of digits, within bounds. -/
def readFixed (count low high : Nat) (text : List Char) : Option (Nat × List Char) :=
  let digits := text.take count
  let value := asciiNumber digits
  if digits.length = count ∧ digits.all isAsciiDigit ∧ low ≤ value ∧ value ≤ high then
    some (value, text.drop count)
  else
    none

/-- A given character at the beginning of a text. -/
def expect (c : Char) (text : List Char) : Option (List Char) :=
  [c].isPrefixOf? text

/-- The microseconds of a fraction of a second, if there is one; further digits do not count. -/
def takeMicroseconds (text : List Char) : Nat × List Char :=
  match text with
  | '.' :: rest =>
    let digits := rest.takeWhile isAsciiDigit
    if digits.isEmpty then (0, text)
    else
      let counted := digits.take 6
      (asciiNumber counted * Nat.pow 10 (6 - counted.length), rest.drop digits.length)
  | _ => (0, text)

/-- A time of day to the second, with an optional fraction. -/
def readTime (text : List Char) : Option ((Nat × Nat × Nat × Nat) × List Char) := do
  let (hour, rest) ← readFixed 2 0 23 text
  let (minute, rest) ← readFixed 2 0 59 (← expect ':' rest)
  let (second, rest) ← readFixed 2 0 59 (← expect ':' rest)
  let (microsecond, rest) := takeMicroseconds rest
  return ((hour, minute, second, microsecond), rest)

/-- The offset of a time, in microseconds, if there is one. -/
def takeOffset (text : List Char) : Option Int × List Char :=
  match text with
  | 'Z' :: rest | 'z' :: rest => (some 0, rest)
  | sign :: rest =>
    let offset : Option (Int × List Char) := do
      if sign != '+' && sign != '-' then none else
        let (hours, rest) ← readFixed 2 0 23 rest
        let (minutes, rest) ← readFixed 2 0 59 (← expect ':' rest)
        let magnitude : Int := (hours * 60 + minutes) * 60 * Timestamp.perSecond
        return (if sign = '-' then -magnitude else magnitude, rest)
    match offset with
    | some (value, rest) => (some value, rest)
    | none => (none, text)
  | [] => (none, text)

/-- Year, month and day between dashes. -/
def readDate (text : List Char) : Option (Date × List Char) := do
  let (year, rest) ← readFixed 4 0 9999 text
  let (month, rest) ← readFixed 2 1 12 (← expect '-' rest)
  let (day, rest) ← readFixed 2 1 31 (← expect '-' rest)
  return (⟨year, month, day⟩, rest)

/-- The time of day behind a date, if there is one: a `T` or a space, and the time. -/
def readTimeOfDate (text : List Char) : Option ((Nat × Nat × Nat × Nat) × List Char) :=
  match text with
  | mark :: rest => if mark = 'T' || mark = 't' || mark = ' ' then readTime rest else none
  | [] => none

/-- A date, or a date with a time of day.  The date has to exist. -/
def readMoment (text : List Char) : Option (Option (Value × List Char)) :=
  (readDate text).map fun (date, rest) =>
    if date.isValid then
      match readTimeOfDate rest with
      | some ((hour, minute, second, microsecond), rest) =>
        let (offset, rest) := takeOffset rest
        some (.dateTime ⟨date, hour, minute, second, microsecond, offset⟩, rest)
      | none => some (.date date, rest)
    else
      none

/-! ## Scalars -/

/-- A value that is neither an array nor a table.  What begins like a date is no number. -/
def readScalar (text : List Char) : Option (Value × List Char) :=
  match text with
  | '"' :: _ | '\'' :: _ => (readText text).map fun (s, rest) => (.string s, rest)
  | _ =>
    match readWord [("true".toList, .boolean true), ("false".toList, .boolean false)] text with
    | some found => some found
    | none =>
      match readMoment text with
      | some moment => moment
      | none =>
        match readTime text with
        | some ((hour, minute, second, microsecond), rest) =>
          some (.time hour minute second microsecond, rest)
        | none =>
          (readBased text).orElse fun _ =>
            (readDecimal text).orElse fun _ => readWord wordNumbers text

end ChatHistory.Toml
