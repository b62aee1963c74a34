import ChatHistory.Assoc
import ChatHistory.Number.Double

/-!
# JSON values

`Json` is the type of the values that log records, settings of tools and messages are made of.
Whole numbers are exact and of any size, other numbers are doubles, and an object keeps the order
of its fields.
-/

namespace ChatHistory

/-- A JSON value. -/
inductive Json where
  | null
  | bool (value : Bool)
  | int (value : Int)
  | double (value : Double)
  | string (value : String)
  | array (items : List Json)
  | object (fields : List (String × Json))
  deriving Inhabited, Repr

/-- The fields of an object, in order. -/
abbrev Fields := Assoc Json

namespace Json

/-- The value of a field, `null` if the object has no such field. -/
def field (fields : Fields) (name : String) : Json :=
  (Assoc.get? fields name).getD .null

/-- Everything but `null`, `false`, the zeros, and the empty text, array and object. -/
def isTruthy : Json → Bool
  | .null => false
  | .bool b => b
  | .int n => n != 0
  | .double x => !x.isZero
  | .string s => s != ""
  | .array items => !items.isEmpty
  | .object fields => !fields.isEmpty

/-- The text of a string value. -/
def string? : Json → Option String
  | .string s => some s
  | _ => none

/-- The fields of an object. -/
def object? : Json → Option Fields
  | .object fields => some fields
  | _ => none

/-- Exactly the value `true`. -/
def isTrue : Json → Bool
  | .bool b => b
  | _ => false

/-- Exactly the given text. -/
def isString (json : Json) (text : String) : Bool :=
  json.string? == some text

/-- A composite value: an array or an object. -/
def isComposite : Json → Bool
  | .array _ | .object _ => true
  | _ => false

theorem isTrue_iff {json : Json} : json.isTrue = true ↔ json = .bool true := by
  cases json <;> simp [isTrue]

theorem isString_iff {json : Json} {text : String} :
    json.isString text = true ↔ json = .string text := by
  cases json <;> simp [isString, string?]

end Json

end ChatHistory
