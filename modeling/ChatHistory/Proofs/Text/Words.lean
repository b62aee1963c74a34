import ChatHistory.Proofs.Text.Blank
import Mathlib.Data.List.Infix
import Mathlib.Tactic.Common

/-!
# The words of a text

The words of a text are the pieces between its blanks that are not empty (`words_eq_pieces`).  So a
blank parts the words in front of it from those behind it (`words_append_blank`), and it makes no
difference how many blanks stand there.

In a word line the words have single spaces between them and nothing else around them.  Words that
are joined by spaces make a word line (`isWordLine_intercalate`) and are found again in it
(`words_intercalate`), and a word line is what its words are joined to
(`IsWordLine.intercalate_words`).  All its blanks are single spaces, none of them in front
(`IsWordLine.isSingleSpaced`).  A word line may be cut anywhere, also behind a space, if a character
that is no blank is put there (`IsWordLine.take_concat`).
-/

namespace ChatHistory.Text

/-! ## Pieces between blanks -/

/-- The pieces of a text between its blanks that are not empty. -/
def piecesBetweenBlanks (text : List Char) : List (List Char) :=
  (text.splitOnP isBlank).filter (!·.isEmpty)

/-- The words of a text are the pieces between its blanks that are not empty. -/
theorem words_eq_pieces (text : List Char) : words text = piecesBetweenBlanks text := by
  unfold piecesBetweenBlanks
  induction text with
  | nil => rfl
  | cons c rest ih =>
    rw [words.eq_def]
    dsimp only
    rw [List.splitOnP_cons_eq_if_modifyHead]
    by_cases blank : isBlank c
    · simp [blank, ih]
    · rw [if_neg blank, if_neg blank, ih]
      -- The character joins the first piece behind it, which is empty if a blank follows and is
      -- then no word yet.
      cases rest with
      | nil => rfl
      | cons d rest =>
        rw [List.splitOnP_cons_eq_if_modifyHead]
        obtain ⟨piece, more, hpieces⟩ :=
          List.exists_cons_of_ne_nil (List.splitOnP_ne_nil isBlank rest)
        by_cases hd : isBlank d
        · cases hfilter : (rest.splitOnP isBlank).filter (!·.isEmpty) <;> simp [hd, hfilter]
        · simp [hd, hpieces]

/-- A blank parts the words in front of it from those behind it. -/
lemma words_append_blank {c : Char} (blank : isBlank c = true) (front rest : List Char) :
    words (front ++ c :: rest) = words front ++ words rest := by
  simp only [words_eq_pieces, piecesBetweenBlanks, List.splitOnP_append_cons front rest blank,
    List.filter_append]

/-! ## Words -/

/-- A text that is not empty and has no blanks. -/
structure IsWord (word : List Char) : Prop where
  filled : word ≠ []
  dense : ∀ c ∈ word, isBlank c = false

/-- A word is the only word of it. -/
lemma IsWord.words_eq {word : List Char} (h : IsWord word) : words word = [word] := by
  rw [words_eq_pieces, piecesBetweenBlanks, List.splitOnP_eq_singleton h.dense]
  simp [h.filled]

lemma isWord_of_mem_words {text word : List Char} (h : word ∈ words text) : IsWord word where
  filled := by
    rw [words_eq_pieces] at h
    simpa using (List.mem_filter.1 h).2
  dense c hc := by
    have hchar : c ∈ (words text).flatten := List.mem_flatten.2 ⟨word, h, hc⟩
    rw [flatten_words, List.mem_filter] at hchar
    simpa using hchar.2

lemma IsWord.space_notMem {word : List Char} (h : IsWord word) : ' ' ∉ word := by
  intro hmem
  have dense := h.dense ' ' hmem
  contradiction

/-- The beginning of a word is one with a character behind it that is no blank. -/
lemma IsWord.take_concat {word : List Char} (h : IsWord word) (n : ℕ) {c : Char}
    (hc : isBlank c = false) : IsWord (word.take n ++ [c]) where
  filled := by simp
  dense d hd := by
    rcases List.mem_append.1 hd with hword | hlast
    · exact h.dense d (List.mem_of_mem_take hword)
    · obtain rfl := List.mem_singleton.1 hlast
      exact hc

lemma isWord_singleton {c : Char} (hc : isBlank c = false) : IsWord [c] where
  filled := List.cons_ne_nil c []
  dense := by simpa using hc

/-! ## Single spaces -/

/-- The code points of the characters that end a line in one convention or another: the line feed,
the vertical tab, the form feed, the carriage return, the file, group and record separators, the
next line, and the line and paragraph separators. -/
def lineEndCodes : List ℕ :=
  [0x0A, 0x0B, 0x0C, 0x0D, 0x1C, 0x1D, 0x1E, 0x85, 0x2028, 0x2029]

/-- The blanks of a text are spaces, of which no two are next to each other and none is in front. -/
structure IsSingleSpaced (text : List Char) : Prop where
  space : ∀ c ∈ text, isBlank c = true → c = ' '
  single : ¬[' ', ' '] <:+: text
  start : text.head? ≠ some ' '

/-- Where all blanks are spaces, no line ends. -/
lemma IsSingleSpaced.not_lineEnd {text : List Char} (h : IsSingleSpaced text) {c : Char}
    (hc : c ∈ text) : c.toNat ∉ lineEndCodes := by
  intro hend
  have hcodes : lineEndCodes ⊆ blankCodes := by decide
  have blank : isBlank c = true := List.contains_iff_mem.2 (hcodes hend)
  obtain rfl := h.space c hc blank
  revert hend
  decide

lemma isSingleSpaced_nil : IsSingleSpaced [] where
  space := by simp
  single := by simp
  start := by simp

lemma IsWord.isSingleSpaced {word : List Char} (h : IsWord word) : IsSingleSpaced word where
  space c hc blank := by
    rw [h.dense c hc] at blank
    contradiction
  single hdouble := h.space_notMem (hdouble.mem (by simp))
  start hspace := h.space_notMem (List.mem_of_head? hspace)

/-- A word may be put in front of a text with single spaces, and a space between them. -/
lemma IsWord.append_space {word rest : List Char} (h : IsWord word) (hrest : IsSingleSpaced rest) :
    IsSingleSpaced (word ++ ' ' :: rest) where
  space c hc blank := by
    rcases List.mem_append.1 hc with hword | hbehind
    · exact h.isSingleSpaced.space c hword blank
    · rcases List.mem_cons.1 hbehind with hspace | hmem
      · exact hspace
      · exact hrest.space c hmem blank
  single hdouble := by
    have hbegin : ¬[' ', ' '] <+: ' ' :: rest := by
      rintro ⟨more, hmore⟩
      obtain rfl := (List.cons.inj hmore).2
      exact hrest.start rfl
    rcases List.infix_append_iff.1 hdouble with
      hword | hbehind | ⟨left, right, hcut, hleft, hright⟩
    · exact h.isSingleSpaced.single hword
    · rcases List.infix_cons_iff.1 hbehind with hprefix | hinside
      · exact hbegin hprefix
      · exact hrest.single hinside
    · -- The first of the two spaces is the one between them, since the word has none.
      cases left with
      | nil => exact hbegin (by simpa [hcut] using hright)
      | cons c left =>
        obtain rfl := (List.cons.inj hcut).1
        exact h.space_notMem (hleft.mem List.mem_cons_self)
  start hspace := by
    rw [List.head?_append_of_ne_nil _ h.filled] at hspace
    exact h.isSingleSpaced.start hspace

/-! ## Word lines -/

/-- Words that are joined by spaces are found again. -/
theorem words_intercalate {pieces : List (List Char)} (h : ∀ piece ∈ pieces, IsWord piece) :
    words ([' '].intercalate pieces) = pieces := by
  induction pieces with
  | nil => rfl
  | cons piece pieces ih =>
    obtain ⟨hpiece, hpieces⟩ := List.forall_mem_cons.1 h
    cases pieces with
    | nil => rw [List.intercalate_singleton, hpiece.words_eq]
    | cons next pieces =>
      rw [List.intercalate_cons_cons, List.append_assoc, List.singleton_append,
        words_append_blank (by decide), hpiece.words_eq, ih hpieces, List.singleton_append]

/-- A text of words with single spaces between them. -/
inductive IsWordLine : List Char → Prop
  | nil : IsWordLine []
  | word {word : List Char} : IsWord word → IsWordLine word
  | cons {word rest : List Char} : IsWord word → IsWordLine rest → rest ≠ [] →
      IsWordLine (word ++ ' ' :: rest)

/-- Words joined by spaces are a word line. -/
lemma isWordLine_intercalate {pieces : List (List Char)} (h : ∀ piece ∈ pieces, IsWord piece) :
    IsWordLine ([' '].intercalate pieces) := by
  induction pieces with
  | nil => exact .nil
  | cons piece pieces ih =>
    obtain ⟨hpiece, hpieces⟩ := List.forall_mem_cons.1 h
    cases pieces with
    | nil => simpa using IsWordLine.word hpiece
    | cons next pieces =>
      have filled : [' '].intercalate (next :: pieces) ≠ [] := by
        have hnext : next ≠ [] := (hpieces next List.mem_cons_self).filled
        cases pieces <;> simp [List.intercalate_cons_cons, hnext]
      rw [List.intercalate_cons_cons, List.append_assoc]
      exact .cons hpiece (ih hpieces) filled

namespace IsWordLine

variable {text : List Char}

/-- A word line is what its words are joined to. -/
theorem intercalate_words (h : IsWordLine text) : [' '].intercalate (words text) = text := by
  induction h with
  | nil => rfl
  | word hword => rw [hword.words_eq, List.intercalate_singleton]
  | @cons word rest hword _ filled ih =>
    obtain ⟨next, more, hwords⟩ : ∃ next more, words rest = next :: more := by
      refine List.exists_cons_of_ne_nil fun hnone => filled ?_
      rw [← ih, hnone]
      rfl
    rw [words_append_blank (by decide), hword.words_eq, hwords, List.singleton_append,
      List.intercalate_cons_cons, ← hwords, ih]
    simp

/-- The blanks of a word line are single spaces, none of them in front. -/
theorem isSingleSpaced (h : IsWordLine text) : IsSingleSpaced text := by
  induction h with
  | nil => exact isSingleSpaced_nil
  | word hword => exact hword.isSingleSpaced
  | cons hword _ _ ih => exact hword.append_space ih

/-- A word line that is cut and goes on with a character that is no blank is one again. -/
theorem take_concat (h : IsWordLine text) (n : ℕ) {c : Char} (hc : isBlank c = false) :
    IsWordLine (text.take n ++ [c]) := by
  induction h generalizing n with
  | nil => simpa using IsWordLine.word (isWord_singleton hc)
  | word hword => exact .word (hword.take_concat n hc)
  | @cons word rest hword _ _ ih =>
    rcases Nat.lt_or_ge word.length n with behind | inside
    · obtain ⟨m, rfl⟩ : ∃ m, n = word.length + (m + 1) := ⟨n - word.length - 1, by omega⟩
      rw [List.take_length_add_append, List.take_succ_cons, List.append_assoc, List.cons_append]
      exact .cons hword (ih m) (by simp)
    · rw [List.take_append_of_le_length inside]
      exact .word (hword.take_concat n hc)

end IsWordLine

end ChatHistory.Text
