import ChatHistory.Proofs.Text.Words
import ChatHistory.Transcript.Preview
import Mathlib.Tactic.Common

/-!
# What a preview shows

A preview is a word line (`isWordLine_ofJson`), also where it is cut: the ellipsis is no blank, so
that it goes on with the last word or, behind a space, is a word of its own.  Hence all blanks of a
preview are single spaces, and no line ends in it.

A text that is cut has `maxLength` characters and the ellipsis.  That is too long again, but cutting
it once more takes away the ellipsis only to put it back (`shorten_shorten`).  Therefore the preview
of a preview is the preview itself (`ofJson_ofJson`).

The main statement is `ofJson_singleSpaced_bounded_stable`.
-/

namespace ChatHistory.Preview

open Text

/-! ## One line -/

/-- The words of a text on a single line are a word line. -/
lemma isWordLine_singleLine (text : List Char) : IsWordLine (singleLine text) :=
  isWordLine_intercalate fun _ => isWord_of_mem_words

/-- A single line has the words of the text. -/
lemma words_singleLine (text : List Char) : words (singleLine text) = words text :=
  words_intercalate fun _ => isWord_of_mem_words

/-! ## Cutting -/

/-- A word line that is cut is one again. -/
lemma isWordLine_shorten {text : List Char} (h : IsWordLine text) : IsWordLine (shorten text) := by
  unfold shorten
  split
  · exact h.take_concat maxLength (by decide)
  · exact h

lemma shorten_of_le {text : List Char} (h : text.length ≤ maxLength) : shorten text = text :=
  if_neg (by omega)

lemma shorten_of_lt {text : List Char} (h : maxLength < text.length) :
    shorten text = text.take maxLength ++ ['…'] :=
  if_pos h

/-- A text that is cut keeps `maxLength` characters and gets one more. -/
lemma length_shorten_of_lt {text : List Char} (h : maxLength < text.length) :
    (shorten text).length = maxLength + 1 := by
  rw [shorten_of_lt h, List.length_append, List.length_take_of_le h.le, List.length_singleton]

/-- A text that is too long is still too long when it is cut, by the ellipsis. -/
lemma lt_length_shorten_iff {text : List Char} :
    maxLength < (shorten text).length ↔ maxLength < text.length := by
  rcases Nat.lt_or_ge maxLength text.length with long | short
  · rw [length_shorten_of_lt long]
    exact iff_of_true (Nat.lt_succ_self _) long
  · rw [shorten_of_le short]

lemma length_shorten_le (text : List Char) : (shorten text).length ≤ maxLength + 1 := by
  rcases Nat.lt_or_ge maxLength text.length with long | short
  · exact (length_shorten_of_lt long).le
  · rw [shorten_of_le short]
    omega

/-- Cutting a text twice is cutting it once. -/
theorem shorten_shorten (text : List Char) : shorten (shorten text) = shorten text := by
  rcases Nat.lt_or_ge maxLength text.length with long | short
  · have hkept : (text.take maxLength).length = maxLength := List.length_take_of_le long.le
    rw [shorten_of_lt (lt_length_shorten_iff.2 long), shorten_of_lt long, List.take_left' hkept]
  · rw [shorten_of_le short, shorten_of_le short]

/-! ## Previews -/

lemma toList_ofJson (value : Json) :
    (ofJson value).toList = shorten (singleLine (source value)) :=
  String.toList_ofList

lemma length_ofJson (value : Json) :
    (ofJson value).length = (shorten (singleLine (source value))).length := by
  rw [← toList_ofJson, String.length_toList]

/-- A preview is a word line. -/
theorem isWordLine_ofJson (value : Json) : IsWordLine (ofJson value).toList := by
  rw [toList_ofJson]
  exact isWordLine_shorten (isWordLine_singleLine _)

/-- The preview of a preview is the preview itself. -/
theorem ofJson_ofJson (value : Json) : ofJson (.string (ofJson value)) = ofJson value := by
  have hline : singleLine (ofJson value).toList = (ofJson value).toList :=
    (isWordLine_ofJson value).intercalate_words
  rw [← String.toList_inj, toList_ofJson, source, hline, toList_ofJson, shorten_shorten]

/-! ## What is left out -/

/-- The text of a value: a string itself, and the JSON text of any other value. -/
def fullText : Json → List Char
  | .string s => s.toList
  | value => value.write

/-- The words of a value with single spaces between them are too long for a preview. -/
def IsCut (value : Json) : Prop :=
  200 < ([' '].intercalate (piecesBetweenBlanks (fullText value))).length

instance (value : Json) : Decidable (IsCut value) :=
  inferInstanceAs (Decidable (200 < _))

/-- All values but `null` are shown by their text. -/
lemma source_eq_fullText {value : Json} (h : value ≠ .null) : source value = fullText value := by
  cases value with
  | null => contradiction
  | _ => rfl

/-- Previews of more than 200 characters are those of the values that are cut. -/
lemma lt_length_ofJson_iff (value : Json) : 200 < (ofJson value).length ↔ IsCut value := by
  by_cases hnull : value = .null
  · subst hnull
    decide
  · rw [length_ofJson, IsCut, ← words_eq_pieces, ← source_eq_fullText hnull]
    exact lt_length_shorten_iff

/-- A preview that is not cut has the words of the text that it shows. -/
lemma words_ofJson {value : Json} (h : ¬IsCut value) :
    words (ofJson value).toList = words (source value) := by
  rw [← lt_length_ofJson_iff, length_ofJson] at h
  have short : (singleLine (source value)).length ≤ maxLength :=
    Nat.le_of_not_lt fun long => h (lt_length_shorten_iff.2 long)
  rw [toList_ofJson, shorten_of_le short, words_singleLine]

/-- The blanks of a preview are single spaces, none of them in front, so that no line ends in it.  A
preview has at most 200 characters, or 201 of which the last is the ellipsis where the value is cut,
and it is its own preview.  A value that is not cut is shown with all its words, unless it is
`null`, of which nothing is shown. -/
theorem ofJson_singleSpaced_bounded_stable (value : Json) :
    IsSingleSpaced (ofJson value).toList ∧
      (∀ c ∈ (ofJson value).toList, c.toNat ∉ lineEndCodes) ∧
      (ofJson value).length ≤ 201 ∧
      (200 < (ofJson value).length → (ofJson value).toList.getLast? = some '…') ∧
      ofJson (.string (ofJson value)) = ofJson value ∧
      (200 < (ofJson value).length ↔ IsCut value) ∧
      (¬IsCut value → (piecesBetweenBlanks (ofJson value).toList =
        piecesBetweenBlanks (fullText value) ↔ value ≠ .null)) := by
  have hspaced := (isWordLine_ofJson value).isSingleSpaced
  refine ⟨hspaced, fun c => hspaced.not_lineEnd, ?_, ?_, ofJson_ofJson value,
    lt_length_ofJson_iff value, ?_⟩
  · rw [length_ofJson]
    exact length_shorten_le _
  · intro long
    rw [length_ofJson] at long
    rw [toList_ofJson, shorten_of_lt (lt_length_shorten_iff.1 long), List.getLast?_concat]
  · intro whole
    constructor
    · rintro hpieces rfl
      revert hpieces
      decide
    · intro hvalue
      rw [← words_eq_pieces, ← words_eq_pieces, words_ofJson whole, source_eq_fullText hvalue]

/-- Nothing is cut from the text of `null`, but its word is not shown. -/
theorem ofJson_null_drops_word :
    ofJson .null = "" ∧ ¬IsCut .null ∧
      piecesBetweenBlanks (ofJson .null).toList ≠ piecesBetweenBlanks (fullText .null) := by
  decide

end ChatHistory.Preview
