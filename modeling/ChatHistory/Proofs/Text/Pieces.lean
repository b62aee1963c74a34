import ChatHistory.Text.Scan
import Mathlib.Tactic.Common

/-!
# The pieces of a text

Cutting a text at a separator and joining pieces by one undo each other: the pieces joined are the
text (`intercalate_splitAtChar`), and pieces without the separator are found again
(`splitAtChar_intercalate`).
-/

namespace ChatHistory.Text

/-- The pieces of a text are those of the library. -/
lemma splitAtChar_eq_splitOn (separator : Char) (text : List Char) :
    splitAtChar separator text = text.splitOn separator := by
  induction text with
  | nil => rfl
  | cons c rest ih =>
    rw [splitAtChar, List.splitOn_cons_eq_if_modifyHead, ih]
    by_cases h : c = separator
    · simp [h]
    · obtain ⟨piece, more, hpieces⟩ :=
        List.exists_cons_of_ne_nil (List.splitOn_ne_nil separator rest)
      simp [h, hpieces]

/-- No piece of a text has the separator in it. -/
lemma not_mem_of_mem_splitAtChar {separator : Char} {text piece : List Char}
    (h : piece ∈ splitAtChar separator text) : separator ∉ piece := by
  induction text generalizing piece with
  | nil =>
    obtain rfl := List.mem_singleton.1 h
    exact List.not_mem_nil
  | cons c rest ih =>
    rw [splitAtChar] at h
    split at h
    · rcases List.mem_cons.1 h with rfl | hrest
      · exact List.not_mem_nil
      · exact ih hrest
    · rename_i other
      split at h
      · obtain rfl := List.mem_singleton.1 h
        simpa using Ne.symm other
      · rename_i first more hpieces
        rcases List.mem_cons.1 h with rfl | hmore
        · have hfirst := ih (hpieces ▸ List.mem_cons_self)
          simpa [Ne.symm other] using hfirst
        · exact ih (hpieces ▸ List.mem_cons_of_mem _ hmore)

/-- What stands in front of a text and has no separator joins the first piece of it. -/
lemma splitAtChar_append {separator : Char} {front : List Char} (h : separator ∉ front)
    (text : List Char) :
    splitAtChar separator (front ++ text) =
      (splitAtChar separator text).modifyHead (front ++ ·) := by
  induction front with
  | nil => cases h : splitAtChar separator text <;> simp [h]
  | cons c front ih =>
    have hc : c ≠ separator := fun e => h (e ▸ List.mem_cons_self)
    have hfront : separator ∉ front := fun hmem => h (List.mem_cons_of_mem _ hmem)
    rw [List.cons_append, splitAtChar_eq_splitOn, List.splitOn_cons_eq_if_modifyHead,
      ← splitAtChar_eq_splitOn, ih hfront, List.modifyHead_modifyHead]
    simp [hc, Function.comp_def]

/-- What stands behind a text and has no separator joins the last piece of it. -/
lemma exists_splitAtChar_append {separator : Char} {back : List Char} (h : separator ∉ back)
    (text : List Char) :
    ∃ pieces last, splitAtChar separator text = pieces ++ [last] ∧
      splitAtChar separator (text ++ back) = pieces ++ [last ++ back] := by
  induction text with
  | nil => exact ⟨[], [], rfl, by simp [splitAtChar_eq_splitOn, List.splitOn_eq_singleton h]⟩
  | cons c text ih =>
    obtain ⟨pieces, last, htext, hback⟩ := ih
    rw [List.cons_append, splitAtChar, splitAtChar, htext, hback]
    by_cases cut : c = separator
    · exact ⟨[] :: pieces, last, by simp [cut], by simp [cut]⟩
    · cases pieces with
      | nil => exact ⟨[], c :: last, by simp [cut], by simp [cut]⟩
      | cons piece pieces => exact ⟨(c :: piece) :: pieces, last, by simp [cut], by simp [cut]⟩

/-- Joined by the separator, the pieces of a text are the text. -/
lemma intercalate_splitAtChar (separator : Char) (text : List Char) :
    [separator].intercalate (splitAtChar separator text) = text := by
  rw [splitAtChar_eq_splitOn, List.intercalate_splitOn]

/-- Pieces without the separator are found again in what they are joined to. -/
lemma splitAtChar_intercalate {separator : Char} {pieces : List (List Char)} (filled : pieces ≠ [])
    (h : ∀ piece ∈ pieces, separator ∉ piece) :
    splitAtChar separator ([separator].intercalate pieces) = pieces := by
  rw [splitAtChar_eq_splitOn, List.splitOn_intercalate separator h filled]

end ChatHistory.Text
