import ChatHistory.Proofs.Transcript.Lines
import Mathlib.Data.List.Forall2

/-!
# Headings among the lines of a text

A heading of one of the first three levels is told by the beginning of its line (`Heading.isTop`).
`topLines` are these headings of a text, and `strayLines` those behind its first line, which are
what a text brings along where it stands inside a line (`topLines_indented`).  A text on one line
brings along nothing (`strayLines_of_isLine`).

What stands behind a text makes no difference to its headings, unless it begins with a mark or a
space: it can only make the last of them longer (`strayLines_continued`).
-/

namespace ChatHistory

/-! ## Lines -/

namespace Heading

/-- A heading of one of the first three levels: up to three marks with a space behind them. -/
def isTop (line : String) : Bool :=
  let marks := line.toList.takeWhile (· = '#')
  decide (1 ≤ marks.length) && decide (marks.length ≤ 3) &&
    decide ((line.toList.dropWhile (· = '#')).head? = some ' ')

lemma isTop_of_head_ne {line : String} (h : line.toList.head? ≠ some '#') :
    isTop line = false := by
  cases hline : line.toList with
  | nil => simp [isTop, hline]
  | cons c rest =>
    have hc : c ≠ '#' := by simpa [hline] using h
    simp [isTop, hline, hc]

/-- What stands behind a line makes it no heading if it begins with neither a mark nor a space. -/
lemma isTop_append {line rest : String} (plain : ∀ c ∈ rest.toList.head?, c ≠ '#' ∧ c ≠ ' ') :
    isTop (line ++ rest) = isTop line := by
  have hmarks : rest.toList.takeWhile (· = '#') = [] := by
    cases hrest : rest.toList with
    | nil => rfl
    | cons c more =>
      have hc : c ≠ '#' := (plain c (by simp [hrest])).1
      simp [hc]
  have hspace : (rest.toList.dropWhile (· = '#')).head? ≠ some ' ' := by
    intro h
    cases hrest : rest.toList with
    | nil => simp [hrest] at h
    | cons c more =>
      obtain ⟨hmark, hc⟩ := plain c (by simp [hrest])
      simp [hrest, hmark, hc] at h
  rw [isTop, isTop, String.toList_append, List.takeWhile_append, List.dropWhile_append, hmarks,
    List.append_nil]
  by_cases marked : line.toList.dropWhile (· = '#') = []
  · simp [marked, hspace]
  · have hlength : (line.toList.takeWhile (· = '#')).length ≠ line.toList.length := by
      intro h
      have hall := List.takeWhile_append_dropWhile (p := (· = '#')) (l := line.toList)
      have hlong := congrArg List.length hall
      rw [List.length_append, h] at hlong
      exact marked (List.length_eq_zero_iff.1 (by omega))
    obtain ⟨c, more, hcons⟩ := List.exists_cons_of_ne_nil marked
    simp [hlength, hcons]

/-- No heading is moved to one of the first three levels. -/
lemma four_le_lowered {level : ℕ} (h : level ≠ 0) : 4 ≤ lowered level := by
  unfold lowered maxLevel
  split <;> omega

/-- A line that is moved down is no heading of the first three levels. -/
theorem isTop_lower (line : List Char) : isTop (String.ofList (lower line)) = false := by
  dsimp only [lower]
  split
  · rename_i rest hrest
    split
    · rename_i unmarked
      have hmarks : line.takeWhile (· = '#') = [] := List.isEmpty_iff.1 unmarked
      simp [isTop, hmarks]
    · rename_i marked
      have hlength : (line.takeWhile (· = '#')).length ≠ 0 := by simpa using marked
      have hlevel := four_le_lowered hlength
      have hmarks : ∀ c ∈ List.replicate (lowered (line.takeWhile (· = '#')).length) '#',
          decide (c = '#') = true := by simp
      rw [isTop, String.toList_ofList, List.takeWhile_append_of_pos hmarks]
      simp
      omega
  · rename_i other
    have hother : (line.dropWhile (· = '#')).head? ≠ some ' ' := by
      intro hspace
      obtain ⟨rest, hrest⟩ := List.head?_eq_some_iff.1 hspace
      exact other rest hrest
    simp [isTop, hother]

/-- A line that is moved down stays one line. -/
lemma not_mem_lower {line : List Char} (h : '\n' ∉ line) : '\n' ∉ lower line := by
  dsimp only [lower]
  split
  · rename_i rest hrest
    split
    · exact h
    · have hline : '\n' ∉ rest := fun hmem => by
        have hdropped : '\n' ∈ line.dropWhile (· = '#') := by simp [hrest, hmem]
        exact h ((List.dropWhile_suffix _).mem hdropped)
      simp [hline]
  · exact h

end Heading

namespace Transcript

open Text

/-- The lines of a text that are headings of the first three levels. -/
def topLines (text : String) : List String :=
  (textLines text).filter Heading.isTop

/-- The lines of a text behind its first line that are headings of the first three levels. -/
def strayLines (text : String) : List String :=
  (textLines text).tail.filter Heading.isTop

lemma topLines_of_isLine {text : String} (h : IsLine text) :
    topLines text = [text].filter Heading.isTop := by
  rw [topLines, textLines_of_isLine h]

lemma strayLines_of_isLine {text : String} (h : IsLine text) : strayLines text = [] := by
  rw [strayLines, textLines_of_isLine h]
  rfl

/-- Texts joined by line feeds have the headings of all of them. -/
lemma topLines_intercalate {texts : List String} (h : texts ≠ []) :
    topLines ("\n".intercalate texts) = texts.flatMap topLines := by
  rw [topLines, textLines_intercalate h, List.filter_flatMap]
  rfl

/-- A line in front of a text makes no difference to the lines behind the first one. -/
lemma strayLines_append {line : String} (h : IsLine line) (text : String) :
    strayLines (line ++ text) = strayLines text := by
  rw [strayLines, textLines_append h, List.tail_modifyHead, strayLines]

/-- If a text does not begin with a mark, neither does its first line. -/
lemma topLines_eq_strayLines {text : String} (h : text.toList.head? ≠ some '#') :
    topLines text = strayLines text := by
  have hfirst : ∃ first more, textLines text = first :: more ∧ first.toList.head? ≠ some '#' := by
    rw [textLines, splitAtChar_eq_splitOn]
    cases htext : text.toList with
    | nil => exact ⟨_, _, rfl, by simp⟩
    | cons c rest =>
      rw [List.splitOn_cons_eq_if_modifyHead]
      split
      · exact ⟨_, _, rfl, by simp⟩
      · obtain ⟨piece, more, hpieces⟩ :=
          List.exists_cons_of_ne_nil (List.splitOn_ne_nil '\n' rest)
        rw [hpieces]
        exact ⟨_, _, rfl, by simpa [htext] using h⟩
  obtain ⟨first, more, hlines, hhead⟩ := hfirst
  have hplain := Heading.isTop_of_head_ne hhead
  rw [topLines, strayLines, hlines, List.filter_cons_of_neg (by simp [hplain])]
  rfl

/-! ## Texts inside a line -/

/-- The text has nothing but spaces. -/
def IsIndent (indent : String) : Prop :=
  ∀ c ∈ indent.toList, c = ' '

lemma isIndent_empty : IsIndent "" := by
  simp [IsIndent]

lemma IsIndent.isLine {indent : String} (h : IsIndent indent) : IsLine indent := by
  intro hmem
  have hspace := h _ hmem
  contradiction

lemma IsIndent.deeper {indent : String} (h : IsIndent indent) : IsIndent (indent ++ "  ") := by
  intro c hc
  rw [String.toList_append, List.mem_append] at hc
  rcases hc with hindent | hspace
  · exact h c hindent
  · simpa using hspace

/-- Behind an indent and the beginning of a line, a text brings along no heading but those behind
its first line. -/
lemma topLines_indented {indent start : String} (hindent : IsIndent indent) (hline : IsLine start)
    (plain : start.toList.head?.any (· ≠ '#')) (text : String) :
    topLines (indent ++ start ++ text) = strayLines text := by
  have hhead : (indent ++ start ++ text).toList.head? ≠ some '#' := by
    rw [String.append_assoc, String.toList_append]
    cases hchars : indent.toList with
    | nil =>
      cases hstart : start.toList with
      | nil => simp [hstart] at plain
      | cons c rest => simpa [hstart] using plain
    | cons c rest =>
      have hspace : c = ' ' := hindent c (by simp [hchars])
      simp [hspace]
  rw [topLines_eq_strayLines hhead, strayLines_append (hindent.isLine.append hline)]

/-- What a transcript puts on a line of its own is no heading if it does not begin with a mark. -/
lemma topLines_plain {start text : String} (hline : IsLine start)
    (plain : start.toList.head?.any (· ≠ '#')) (htext : IsLine text) :
    topLines (start ++ text) = [] := by
  rw [← strayLines_of_isLine htext, ← topLines_indented isIndent_empty hline plain,
    String.empty_append]

/-! ## What a text goes on with -/

/-- Each of the lines begins with one of the others, in order. -/
def Continued (starts lines : List String) : Prop :=
  List.Forall₂ (fun start line => start.toList <+: line.toList) starts lines

namespace Continued

lemma refl (lines : List String) : Continued lines lines :=
  List.forall₂_same.2 fun _ _ => List.prefix_rfl

variable {starts lines others more : List String}

lemma append (h : Continued starts lines) (hmore : Continued others more) :
    Continued (starts ++ others) (lines ++ more) :=
  List.rel_append h hmore

lemma flatMap {α : Type} {items : List α} {f g : α → List String}
    (h : ∀ item ∈ items, Continued (f item) (g item)) :
    Continued (items.flatMap f) (items.flatMap g) := by
  induction items with
  | nil => exact .nil
  | cons item items ih =>
    obtain ⟨hitem, hitems⟩ := List.forall_mem_cons.1 h
    exact hitem.append (ih hitems)

lemma eq_nil_iff (h : Continued starts lines) : lines = [] ↔ starts = [] := by
  rw [← List.length_eq_zero_iff, ← h.length_eq, List.length_eq_zero_iff]

end Continued

/-- A text that goes on in its last line has the same headings behind its first line, unless what
follows begins with a mark or a space. -/
theorem strayLines_continued {rest : String} (hrest : IsLine rest)
    (plain : ∀ c ∈ rest.toList.head?, c ≠ '#' ∧ c ≠ ' ') (text : String) :
    Continued (strayLines text) (strayLines (text ++ rest)) := by
  obtain ⟨lines, last, htext, hmore⟩ := exists_textLines_append hrest text
  have hlast : Continued ([last].filter Heading.isTop) ([last ++ rest].filter Heading.isTop) := by
    rw [List.filter_singleton, List.filter_singleton, Heading.isTop_append plain]
    cases Heading.isTop last with
    | false => exact .nil
    | true => exact .cons (by simp) .nil
  rw [strayLines, strayLines, htext, hmore]
  cases lines with
  | nil => exact .nil
  | cons first lines =>
    rw [List.cons_append, List.cons_append, List.tail_cons, List.tail_cons, List.filter_append,
      List.filter_append]
    exact (Continued.refl _).append hlast

end Transcript

end ChatHistory
