/-!
# UTF-8

`decodePieces` reads bytes as UTF-8 and yields a character for every well-formed sequence and
`none` for every maximal ill-formed one: a sequence is broken off at the first byte that cannot
continue it, and that byte starts the next sequence.  `decode?` accepts only well-formed bytes;
`decodeLossy` shows each ill-formed sequence as the replacement character.
-/

namespace ChatHistory.Text

/-- A sequence that is not complete: the bits read so far, how many bytes are missing, and the
range that the next byte has to be in. -/
structure Utf8.Pending where
  code : Nat
  missing : Nat
  low : Nat
  high : Nat

/-- What the first byte of a sequence announces. -/
inductive Utf8.Lead where
  | single (c : Char)
  | opens (pending : Utf8.Pending)
  | invalid

/-- The meaning of a byte at the start of a sequence.  The second byte is restricted so that no
sequence is overlong, a surrogate or beyond the last code point. -/
def Utf8.lead (byte : Nat) : Utf8.Lead :=
  if byte < 0x80 then .single (Char.ofNat byte)
  else if byte < 0xC2 then .invalid
  else if byte < 0xE0 then .opens ⟨byte - 0xC0, 1, 0x80, 0xBF⟩
  else if byte = 0xE0 then .opens ⟨0, 2, 0xA0, 0xBF⟩
  else if byte = 0xED then .opens ⟨0xD, 2, 0x80, 0x9F⟩
  else if byte < 0xF0 then .opens ⟨byte - 0xE0, 2, 0x80, 0xBF⟩
  else if byte = 0xF0 then .opens ⟨0, 3, 0x90, 0xBF⟩
  else if byte < 0xF4 then .opens ⟨byte - 0xF0, 3, 0x80, 0xBF⟩
  else if byte = 0xF4 then .opens ⟨4, 3, 0x80, 0x8F⟩
  else .invalid

/-- The characters of a sequence of bytes, with `none` for each maximal ill-formed sequence. -/
def Utf8.piecesFrom : Option Utf8.Pending → List UInt8 → List (Option Char)
  | none, [] => []
  | some _, [] => [none]
  | pending, b :: rest =>
    let byte := b.toNat
    let fresh (broken : List (Option Char)) : List (Option Char) :=
      match Utf8.lead byte with
      | .single c => broken ++ some c :: Utf8.piecesFrom none rest
      | .opens p => broken ++ Utf8.piecesFrom (some p) rest
      | .invalid => broken ++ none :: Utf8.piecesFrom none rest
    match pending with
    | none => fresh []
    | some p =>
      if p.low ≤ byte ∧ byte ≤ p.high then
        let code := p.code * 64 + (byte - 0x80)
        if p.missing ≤ 1 then some (Char.ofNat code) :: Utf8.piecesFrom none rest
        else Utf8.piecesFrom (some ⟨code, p.missing - 1, 0x80, 0xBF⟩) rest
      else
        fresh [none]

/-- The characters of a sequence of bytes, with `none` for each maximal ill-formed sequence. -/
def Utf8.decodePieces (bytes : List UInt8) : List (Option Char) :=
  Utf8.piecesFrom none bytes

/-- The text of well-formed bytes. -/
def Utf8.decode? (bytes : List UInt8) : Option (List Char) :=
  (Utf8.decodePieces bytes).mapM id

/-- The text of any bytes; each ill-formed sequence becomes one replacement character. -/
def Utf8.decodeLossy (bytes : List UInt8) : List Char :=
  (Utf8.decodePieces bytes).map (·.getD '\uFFFD')

/-- The bytes of a text. -/
def Utf8.encode (text : String) : List UInt8 :=
  text.toUTF8.toList

/-- The lines of a text, where a line feed, a carriage return, or the two together end a line.
The end of the text ends a line only if that line is not empty. -/
def fileLines : List Char → List (List Char)
  | [] => []
  | '\r' :: '\n' :: rest => [] :: fileLines rest
  | c :: rest =>
    if c = '\n' ∨ c = '\r' then
      [] :: fileLines rest
    else
      match rest, fileLines rest with
      | [], _ => [[c]]
      | _, [] => [[c]]
      | _, line :: more => (c :: line) :: more

end ChatHistory.Text
