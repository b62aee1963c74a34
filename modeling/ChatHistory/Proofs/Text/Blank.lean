import ChatHistory.Text.Blank
import ChatHistory.Text.DecimalDigit
import Mathlib.Data.List.Infix
import Mathlib.Data.List.TakeWhile
import Mathlib.Tactic.Common

/-!
# Taking out blanks

Stripping a text leaves a part of it (`strip_isInfix`), and nothing goes from a text without blanks
(`strip_eq_self`) or without blanks at its ends (`strip_of_ends`).  Cutting a text into words takes
out the blanks and nothing else (`flatten_words`).
-/

namespace ChatHistory.Text

variable {text : List Char}

lemma stripEnd_isPrefix (text : List Char) : stripEnd text <+: text := by
  induction text with
  | nil => exact List.prefix_rfl
  | cons c rest ih =>
    rw [stripEnd]
    split
    · split
      · exact List.nil_prefix
      · exact List.prefix_append [c] rest
    · exact (List.prefix_cons_inj c).2 ih

/-- Stripping a text leaves a part of it. -/
theorem strip_isInfix (text : List Char) : strip text <:+: text :=
  (stripEnd_isPrefix _).isInfix.trans (List.dropWhile_suffix _).isInfix

lemma stripEnd_eq_self (h : ∀ c ∈ text, isBlank c = false) : stripEnd text = text := by
  induction text with
  | nil => rfl
  | cons c rest ih =>
    rw [stripEnd, ih fun d hd => h d (List.mem_cons_of_mem c hd)]
    cases rest <;> simp [h c List.mem_cons_self]

/-- A text without blanks has nothing to strip. -/
theorem strip_eq_self (h : ∀ c ∈ text, isBlank c = false) : strip text = text := by
  have hstart : stripStart text = text := by
    cases text with
    | nil => rfl
    | cons c rest => exact List.dropWhile_cons_of_neg (by simp [h c List.mem_cons_self])
  rw [strip, hstart, stripEnd_eq_self h]

/-- Stripping the blanks at the end of a text that is not blank leaves what stands in front. -/
lemma stripEnd_append (front : List Char) {back : List Char} (h : stripEnd back ≠ []) :
    stripEnd (front ++ back) = front ++ stripEnd back := by
  induction front with
  | nil => rfl
  | cons c front ih =>
    obtain ⟨d, kept, hkept⟩ := List.exists_cons_of_ne_nil h
    rw [List.cons_append, stripEnd, ih, hkept]
    cases front <;> simp

lemma stripEnd_ne_nil {text : List Char} {c : Char} (hc : c ∈ text) (h : isBlank c = false) :
    stripEnd text ≠ [] := by
  induction text with
  | nil => simp at hc
  | cons d rest ih =>
    rw [stripEnd]
    split
    · rename_i hrest
      rcases List.mem_cons.1 hc with rfl | hmem
      · simp [h]
      · exact absurd hrest (ih hmem)
    · simp

/-- A text that begins and ends with characters that are no blanks has nothing to strip. -/
theorem strip_of_ends {first last : Char} (hfirst : isBlank first = false)
    (hlast : isBlank last = false) (middle : List Char) :
    strip (first :: (middle ++ [last])) = first :: (middle ++ [last]) := by
  have hend : stripEnd [last] = [last] := by
    simp [stripEnd, hlast]
  rw [strip, stripStart, List.dropWhile_cons_of_neg (by simp [hfirst]), ← List.cons_append,
    stripEnd_append _ (by simp [hend]), hend]

/-- A text with a character that is no blank has something left when it is stripped. -/
lemma strip_ne_nil {c : Char} (hc : c ∈ text) (h : isBlank c = false) : strip text ≠ [] := by
  refine stripEnd_ne_nil (c := c) ?_ h
  rw [← List.takeWhile_append_dropWhile (p := isBlank) (l := text), List.mem_append] at hc
  rcases hc with hblank | hrest
  · have blank := List.mem_takeWhile_imp hblank
    rw [h] at blank
    cases blank
  · exact hrest

/-- The words of a text have all its characters but the blanks. -/
lemma flatten_words (text : List Char) :
    (words text).flatten = text.filter fun c => !isBlank c := by
  induction text with
  | nil => rfl
  | cons c rest ih =>
    rw [words.eq_def]
    dsimp only
    by_cases blank : isBlank c
    · simp [blank, ih]
    · rw [if_neg blank, List.filter_cons_of_pos (by simpa using blank), ← ih]
      cases rest with
      | nil => rfl
      | cons d rest =>
        cases words (d :: rest) with
        | nil => rfl
        | cons word more => by_cases hd : isBlank d <;> simp [hd]

/-- No digit is a blank. -/
lemma isBlank_of_isAsciiDigit {c : Char} (digit : isAsciiDigit c) : isBlank c = false := by
  simp only [isAsciiDigit, Bool.and_eq_true, decide_eq_true_eq, Char.le_def,
    UInt32.le_iff_toNat_le] at digit
  have low : 48 ≤ c.toNat := digit.1
  have high : c.toNat ≤ 57 := digit.2
  simp only [isBlank, blankCodes, List.contains_eq_mem, List.mem_cons, List.not_mem_nil, or_false,
    decide_eq_false_iff_not]
  omega

end ChatHistory.Text
