import ChatHistory.Json.Literal
import ChatHistory.Fault
import ChatHistory.Number.Numeral
import ChatHistory.Time.Timestamp

/-!
# Values of settings documents

The values that a TOML document can hold: texts, numbers, truth values, dates and times, arrays and
tables.  A table keeps the order of its keys, and tables are equal if they hold equal entries in the
same order, which can be decided (`Value.same_iff`).
-/

namespace ChatHistory.Toml

/-- A value of a document. -/
inductive Value where
  | string (value : String)
  | integer (value : Int)
  | float (value : Double)
  | boolean (value : Bool)
  | date (value : Date)
  /-- A date with a time of day, and an offset if one is given. -/
  | dateTime (value : Timestamp)
  | time (hour minute second microsecond : Nat)
  | array (items : List Value)
  | table (entries : List (String × Value))
  deriving Inhabited, Repr

/-- A table of a document. -/
abbrev Table := Assoc Value

namespace Value

/-! ## Equality -/

mutual

/-- Whether two values are equal. -/
def same : Value → Value → Bool
  | .string a, .string b => a = b
  | .integer a, .integer b => a = b
  | .float a, .float b => a = b
  | .boolean a, .boolean b => a = b
  | .date a, .date b => a = b
  | .dateTime a, .dateTime b => a = b
  | .time a b c d, .time e f g h => a = e && b = f && c = g && d = h
  | .array a, .array b => sameItems a b
  | .table a, .table b => sameEntries a b
  | _, _ => false

/-- Whether two arrays hold equal items. -/
def sameItems : List Value → List Value → Bool
  | [], [] => true
  | a :: as, b :: bs => same a b && sameItems as bs
  | _, _ => false

/-- Whether two tables hold equal entries in the same order. -/
def sameEntries : List (String × Value) → List (String × Value) → Bool
  | [], [] => true
  | (name, a) :: as, (other, b) :: bs => name = other && same a b && sameEntries as bs
  | _, _ => false

end

mutual

/-- Values are the same exactly if they are equal. -/
theorem same_iff : (a b : Value) → (same a b ↔ a = b)
  | .array as, b => by cases b <;> simp [same, sameItems_iff as]
  | .table as, b => by cases b <;> simp [same, sameEntries_iff as]
  | .string _, b | .integer _, b | .float _, b | .boolean _, b | .date _, b | .dateTime _, b
  | .time .., b => by cases b <;> simp [same, and_assoc]

theorem sameItems_iff : (as bs : List Value) → (sameItems as bs ↔ as = bs)
  | [], bs => by cases bs <;> simp [sameItems]
  | a :: as, bs => by cases bs <;> simp [sameItems, same_iff a, sameItems_iff as]

theorem sameEntries_iff : (as bs : List (String × Value)) → (sameEntries as bs ↔ as = bs)
  | [], bs => by cases bs <;> simp [sameEntries]
  | (name, a) :: as, bs => by
    cases bs <;> simp [sameEntries, same_iff a, sameEntries_iff as, Prod.ext_iff]

end

instance : DecidableEq Value := fun a b => decidable_of_iff _ (same_iff a b)

/-! ## Truth, integers and literals -/

/-- Everything but `false`, the zeros, and the empty text, array and table. -/
def isTruthy : Value → Bool
  | .string s => s != ""
  | .integer n => n != 0
  | .float x => !x.isZero
  | .boolean b => b
  | .array items => !items.isEmpty
  | .table entries => !entries.isEmpty
  | .date _ | .dateTime _ | .time .. => true

/-- The integer that a value stands for: a number without its fraction, or the value of a
numeral. -/
def toInteger : Value → Except NotInteger Int
  | .integer n => .ok n
  | .boolean b => .ok b.toNat
  | .float (.infinite _) => .error .infinite
  | .float x =>
    match x.truncate? with
    | some n => .ok n
    | none => .error .malformed
  | .string s =>
    match Numeral.readInt? s.toList with
    | some n => .ok n
    | none => .error .malformed
  | _ => .error .kind

/-- The arguments of a literal between parentheses. -/
def arguments (values : List Int) : String :=
  ", ".intercalate (values.map toString)

/-- A time of day as arguments, without a second and its fraction where these are zero. -/
def clockArguments (hour minute second microsecond : Nat) : List Int :=
  [(hour : Int), minute] ++
    (if second = 0 ∧ microsecond = 0 then [] else [(second : Int)]) ++
    (if microsecond = 0 then [] else [(microsecond : Int)])

/-- The literal of an offset: a span of seconds, with a whole day borrowed if it is negative. -/
def offsetLiteral (offset : Int) : String :=
  let seconds := offset / Timestamp.perSecond
  if seconds = 0 then "datetime.timezone.utc"
  else if 0 < seconds then s!"datetime.timezone(datetime.timedelta(seconds={seconds}))"
  else s!"datetime.timezone(datetime.timedelta(days=-1, seconds={86400 + seconds}))"

/-- The literal of a date with a time of day. -/
def dateTimeLiteral (moment : Timestamp) : String :=
  let shown := arguments ([(moment.date.year : Int), moment.date.month, moment.date.day] ++
    clockArguments moment.hour moment.minute moment.second moment.microsecond)
  let zone := (moment.offset.map fun offset => ", tzinfo=" ++ offsetLiteral offset).getD ""
  s!"datetime.datetime({shown}{zone})"

mutual

/-- The literal of a value, unless the value holds a whole number that no numeral writes. -/
def literal? : Value → Option Literal
  | .string s => some (.quoted s)
  | .integer n => if Numeral.isWritable n then some (.word (toString n)) else none
  | .float x => some (.word (Literal.doubleLayout.text x))
  | .boolean true => some (.word "True")
  | .boolean false => some (.word "False")
  | .date day => some (.word s!"datetime.date({arguments [day.year, day.month, day.day]})")
  | .dateTime moment => some (.word (dateTimeLiteral moment))
  | .time hour minute second microsecond =>
    some (.word s!"datetime.time({arguments (clockArguments hour minute second microsecond)})")
  | .array items => (literalItems? items).map .list
  | .table entries => (literalEntries? entries).map .table

/-- The literals of the items of an array. -/
def literalItems? : List Value → Option (List Literal)
  | [] => some []
  | item :: items => do
    let first ← item.literal?
    let rest ← literalItems? items
    return first :: rest

/-- The literals of the entries of a table. -/
def literalEntries? : List (String × Value) → Option (List (String × Literal))
  | [] => some []
  | (name, value) :: entries => do
    let first ← value.literal?
    let rest ← literalEntries? entries
    return (name, first) :: rest

end

end Value

end ChatHistory.Toml
