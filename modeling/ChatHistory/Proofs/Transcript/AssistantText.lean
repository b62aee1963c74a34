import ChatHistory.Proofs.Transcript.Headings

/-!
# Texts of the assistant in a transcript

A text of the assistant is shown line by line, and only its headings change: they are moved down so
far that they stand below the headings of the transcript, but the order of their levels and what
stands behind the marks is kept (`partLines_assistantText`).
-/

namespace ChatHistory

namespace Heading

/-! ## Levels -/

/-- No heading is moved below the last level. -/
lemma lowered_le_maxLevel (level : ℕ) : lowered level ≤ maxLevel := by
  unfold lowered maxLevel
  split <;> omega

/-- A heading that is not above another one is not moved above it. -/
lemma lowered_mono {level other : ℕ} (positive : 1 ≤ level) (h : level ≤ other) :
    lowered level ≤ lowered other := by
  unfold lowered maxLevel
  split <;> split <;> omega

/-! ## Lines -/

/-- A heading of a level: so many marks, a space, and the rest of the line. -/
def ofLevel (level : ℕ) (rest : List Char) : List Char :=
  List.replicate level '#' ++ ' ' :: rest

lemma takeWhile_ofLevel (level : ℕ) (rest : List Char) :
    (ofLevel level rest).takeWhile (· = '#') = List.replicate level '#' := by
  rw [ofLevel, List.takeWhile_append_of_pos (by simp), List.takeWhile_cons_of_neg (by simp),
    List.append_nil]

lemma dropWhile_ofLevel (level : ℕ) (rest : List Char) :
    (ofLevel level rest).dropWhile (· = '#') = ' ' :: rest := by
  rw [ofLevel, List.dropWhile_append_of_pos (by simp), List.dropWhile_cons_of_neg (by simp)]

/-- A line is shown with its heading, if it is one, on another level, and unchanged else. -/
structure IsMoved (newLevel : ℕ → ℕ) (line shown : String) : Prop where
  heading : ∀ level rest, 1 ≤ level → line.toList = ofLevel level rest →
    shown.toList = ofLevel (newLevel level) rest
  other : (∀ level rest, 1 ≤ level → line.toList ≠ ofLevel level rest) → shown = line

lemma lower_ofLevel {level : ℕ} (positive : 1 ≤ level) (rest : List Char) :
    lower (ofLevel level rest) = ofLevel (lowered level) rest := by
  have marked : ¬(List.replicate level '#').isEmpty := by
    simp
    omega
  rw [lower, takeWhile_ofLevel, dropWhile_ofLevel]
  simp only [if_neg marked, List.length_replicate]
  rfl

lemma lower_of_not_heading {line : List Char}
    (h : ∀ level rest, 1 ≤ level → line ≠ ofLevel level rest) : lower line = line := by
  dsimp only [lower]
  split
  · rename_i rest hrest
    split
    · rfl
    · rename_i marked
      have hmarks : line.takeWhile (· = '#') =
          List.replicate (line.takeWhile (· = '#')).length '#' :=
        List.eq_replicate_iff.2 ⟨rfl, fun c hc => by simpa using List.mem_takeWhile_imp hc⟩
      have positive : 1 ≤ (line.takeWhile (· = '#')).length := by
        rw [Nat.one_le_iff_ne_zero, Ne, List.length_eq_zero_iff, ← List.isEmpty_iff]
        exact marked
      refine absurd ?_ (h _ rest positive)
      rw [ofLevel, ← hmarks, ← hrest, List.takeWhile_append_dropWhile]
  · rfl

/-- Lines are moved down as their levels are. -/
lemma isMoved_lower (line : String) :
    IsMoved lowered line (String.ofList (lower line.toList)) where
  heading level rest positive hline := by
    rw [String.toList_ofList, hline, lower_ofLevel positive]
  other plain := by rw [lower_of_not_heading plain, String.ofList_toList]

/-- A heading of one of the first three levels is recognized. -/
lemma isTop_ofLevel {level : ℕ} (positive : 1 ≤ level) (top : level ≤ 3) {line : String}
    {rest : List Char} (h : line.toList = ofLevel level rest) : isTop line = true := by
  simp [isTop, h, takeWhile_ofLevel, dropWhile_ofLevel, positive, top]

end Heading

namespace Transcript

open Heading Text

/-- A text is its lines joined by line feeds. -/
lemma intercalate_textLines (text : String) : "\n".intercalate (textLines text) = text := by
  have hchars : (textLines text).map String.toList = splitAtChar '\n' text.toList := by
    simp [textLines, Function.comp_def]
  rw [← String.toList_inj, String.toList_intercalate, hchars]
  exact intercalate_splitAtChar '\n' text.toList

/-- A text of the assistant is shown line by line, with an empty line behind it; of an empty text
nothing is shown.  A heading keeps its rest and is moved to one of the levels four to six, never
above one that it was not above before, and any other line stays as it is.  So none of the lines is
a heading of the first three levels. -/
theorem partLines_assistantText (indent text : String) :
    (∀ level, 1 ≤ level → 4 ≤ lowered level ∧ lowered level ≤ 6) ∧
      (∀ level other, 1 ≤ level → level ≤ other → lowered level ≤ lowered other) ∧
      (∃ lines shown : List String, "\n".intercalate lines = text ∧
        (∀ line ∈ lines, '\n' ∉ line.toList) ∧ List.Forall₂ (IsMoved lowered) lines shown ∧
        partLines true indent (.text text) = if text = "" then [] else shown ++ [""]) ∧
      ∀ line ∈ partLines true indent (.text text), ∀ level rest, 1 ≤ level → level ≤ 3 →
        line.toList ≠ ofLevel level rest := by
  let lower (line : String) := String.ofList (Heading.lower line.toList)
  have hlines : partLines true indent (.text text) =
      if text = "" then [] else (textLines text).map lower ++ [""] := by
    simp only [partLines, String.isEmpty_iff, if_true]
    rfl
  have hmoved : List.Forall₂ (IsMoved lowered) (textLines text) ((textLines text).map lower) := by
    rw [List.forall₂_map_right_iff, List.forall₂_same]
    exact fun line _ => isMoved_lower line
  refine ⟨fun level positive => ?_, fun level other positive => lowered_mono positive,
    ⟨textLines text, _, intercalate_textLines text, fun line => isLine_of_mem_textLines, hmoved,
      hlines⟩, ?_⟩
  · exact ⟨four_le_lowered (by omega), lowered_le_maxLevel level⟩
  · intro line hline level rest positive top hheading
    have htop := isTop_ofLevel positive top hheading
    rw [hlines] at hline
    split at hline
    · simp at hline
    rcases List.mem_append.1 hline with hshown | hempty
    · obtain ⟨source, -, rfl⟩ := List.mem_map.1 hshown
      rw [isTop_lower] at htop
      cases htop
    · obtain rfl := List.mem_singleton.1 hempty
      cases htop

end Transcript

end ChatHistory
