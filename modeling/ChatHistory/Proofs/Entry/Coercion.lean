import ChatHistory.Entry.ToolResults
import ChatHistory.Proofs.Entry.Lines
import ChatHistory.Proofs.Json.RoundTrip

/-!
# Fields that should hold a text

A field of a log entry that should hold a text may hold any JSON value, and then its JSON text
stands for it.  Nothing is lost: the text of an object is a line of a log that holds the object, and
two values with the same text are equal (`fieldText_lossless`).  So two malformed identifiers are
taken for each other only if they are the same value.

This is said of exact values (`Json.IsExact`).  A string stands for itself and `null` for the empty
text, so strings and `null` are left out where texts are compared: the text `1` may come from the
string as well as from the number.
-/

namespace ChatHistory.Entry

open Text

/-- A value that is no text itself, so that its JSON text stands for it. -/
def IsCoerced (value : Json) : Prop :=
  value ≠ .null ∧ ∀ s, value ≠ .string s

lemma fieldText_of_isCoerced {value : Json} (h : IsCoerced value) :
    fieldText value = value.text := by
  cases value with
  | null => exact absurd rfl h.1
  | string s => exact absurd rfl (h.2 s)
  | bool value => rfl
  | int value => rfl
  | double value => rfl
  | array items => rfl
  | object fields => rfl

/-- The text of an object stands between braces, so there is nothing to strip from it. -/
lemma strip_write_object (fields : Fields) :
    strip (Json.object fields).write = (Json.object fields).write := by
  cases fields with
  | nil => exact strip_of_ends rfl rfl []
  | cons field fields =>
    rw [Json.write, Json.writeWith_object_cons, ← List.append_assoc]
    exact strip_of_ends rfl rfl _

/-- The text of an exact object is a line that holds the object. -/
lemma readLines_fieldText {fields : Fields} (h : (Json.object fields).IsExact) :
    readLines [(fieldText (.object fields)).toList] = .ok [fields] := by
  have htext : (fieldText (.object fields)).toList = (Json.object fields).write := by
    rw [fieldText_of_isCoerced ⟨by simp, by simp⟩, Json.text, String.toList_ofList]
  have hread : Json.read (strip (Json.object fields).write) = .ok (.object fields) := by
    rw [strip_write_object, Json.read_write h]
  have hheld : held? (Json.object fields).write = some fields := by
    rw [held?, hread]
  have hsize : isOversized (Json.object fields).write = false := by
    rw [isOversized, hread]
  rw [htext, readLines_cons, hsize, hheld]
  rfl

/-- Exact values with the same text are equal if both are coerced. -/
lemma eq_of_fieldText_eq {value other : Json} (h : value.IsExact) (h' : other.IsExact)
    (coerced : IsCoerced value) (coerced' : IsCoerced other)
    (same : fieldText value = fieldText other) : value = other := by
  apply Json.eq_of_write_eq h h'
  rw [fieldText_of_isCoerced coerced, fieldText_of_isCoerced coerced'] at same
  exact String.ofList_injective same

/-- The text of an exact object reads as a log with this object and nothing else, and the texts of
two exact values that are neither strings nor `null` are the same only if the values are. -/
theorem fieldText_lossless :
    (∀ fields, (Json.object fields).IsExact →
      readLines [(fieldText (.object fields)).toList] = .ok [fields]) ∧
    ∀ value other : Json, value.IsExact → other.IsExact → IsCoerced value → IsCoerced other →
      fieldText value = fieldText other → value = other :=
  ⟨fun _ => readLines_fieldText, fun _ _ => eq_of_fieldText_eq⟩

/-- An object with escapes, a line separator, separators inside strings and members within members
reads as a log; a list of one string has not the text of a list of two members; of two fields with
one name the last remains. -/
theorem fieldText_lossless_nested :
    readLines [(fieldText (.object
        [("a\"b\\", .string "\x01\n\u2028, \x5d\t "),
          ("", .array [.object [], .array [.int (-20), .bool false], .object [("c: ", .null)]]),
          ("a", .int 0)])).toList] =
      .ok [[("a\"b\\", .string "\x01\n\u2028, \x5d\t "),
        ("", .array [.object [], .array [.int (-20), .bool false], .object [("c: ", .null)]]),
        ("a", .int 0)]] ∧
    fieldText (.array [.string "1\", 2"]) ≠ fieldText (.array [.string "1", .int 2]) ∧
    Json.object (Assoc.ofEntries [("a", .int 1), ("a", .int 2)]) = .object [("a", .int 2)] := by
  have hzero : (Json.int 0).IsExact := .int 0 (by decide +kernel)
  have htwo : (Json.int 2).IsExact := .int 2 (by decide +kernel)
  have hnegative : (Json.int (-20)).IsExact := .int (-20) (by decide +kernel)
  refine ⟨?_, ?_, ?_⟩
  · apply fieldText_lossless.1
    have hinner : (Json.object [("c: ", .null)]).IsExact :=
      .object _ (by decide) (by simp [Json.IsExact.null])
    have hmixed : (Json.array [.int (-20), .bool false]).IsExact :=
      .array _ (by simp [hnegative, Json.IsExact.bool])
    have hempty : (Json.object []).IsExact := .object _ (by decide) (by simp)
    have hlist : (Json.array [.object [], .array [.int (-20), .bool false],
        .object [("c: ", .null)]]).IsExact := .array _ (by simp [hinner, hmixed, hempty])
    exact .object _ (by decide) (by simp [hlist, hzero, Json.IsExact.string])
  · intro same
    have hequal := fieldText_lossless.2 _ _ (.array _ (by simp [Json.IsExact.string]))
      (.array _ (by simp [htwo, Json.IsExact.string])) ⟨by simp, by simp⟩ ⟨by simp, by simp⟩ same
    simp at hequal
  · have exact : (Json.object [("a", .int 2)]).IsExact := .object _ (by decide) (by simp [htwo])
    exact fieldText_lossless.2 _ _ exact exact ⟨by simp, by simp⟩ ⟨by simp, by simp⟩ rfl

end ChatHistory.Entry
