import ChatHistory.Entry.Lines
import ChatHistory.Proofs.Fault
import ChatHistory.Proofs.Json.Reader
import ChatHistory.Proofs.Text.Blank

/-!
# The lines of a log

`Entry.readFirst` looks at nothing but the first line that is not blank (`readFirst_eq`), and
`Entry.readLines` reads two logs, one behind the other, as it reads each of them
(`readLines_append`).

A line that cannot be read is skipped and hides no other line, unless it is refused for a number
with too many digits: a log with such a line has no entries at all (`readLines_skips`).
-/

namespace ChatHistory.Entry

open Text

/-- The first line of a log that is not blank, without the blanks around it. -/
def firstText? (lines : List (List Char)) : Option (List Char) :=
  (lines.map strip).find? fun text => !text.isEmpty

/-- The first entry of a log is read from the first line that is not blank. -/
theorem readFirst_eq (lines : List (List Char)) :
    readFirst lines =
      match firstText? lines with
      | none => .ok none
      | some text =>
        match Json.read text with
        | .ok (.object fields) => .ok (some fields)
        | .ok _ => .ok none
        | .error .grammar => .ok none
        | .error .tooManyDigits => .error .tooManyDigits := by
  induction lines with
  | nil => rfl
  | cons line rest ih =>
    rw [readFirst, readLine]
    cases hline : strip line with
    | nil =>
      have hfirst : firstText? (line :: rest) = firstText? rest := by
        simp [firstText?, hline]
      rw [hfirst]
      exact ih
    | cons c text =>
      have hfirst : firstText? (line :: rest) = some (c :: text) := by
        simp [firstText?, hline]
      rw [hfirst]
      dsimp only
      cases hread : Json.read (c :: text) with
      | error fault => cases fault <;> rfl
      | ok json => cases json <;> rfl

/-- The first entry of a log, if it has one. -/
theorem readFirst_eq_some_iff {lines : List (List Char)} {fields : Fields} :
    readFirst lines = .ok (some fields) ↔
      ∃ text, firstText? lines = some text ∧ Json.read text = .ok (.object fields) := by
  rw [readFirst_eq]
  cases firstText? lines with
  | none => simp
  | some text =>
    cases hread : Json.read text with
    | error fault => cases fault <;> simp [hread]
    | ok json => cases json <;> simp [hread]

/-- Reading the first entry fails on a number with too many digits only. -/
theorem readFirst_eq_error {lines : List (List Char)} {fault : Fault}
    (h : readFirst lines = .error fault) :
    fault = .tooManyDigits ∧
      ∃ text, firstText? lines = some text ∧ Json.read text = .error .tooManyDigits := by
  rw [readFirst_eq] at h
  cases hfirst : firstText? lines with
  | none => simp [hfirst] at h
  | some text =>
    cases hread : Json.read text with
    | error malformed =>
      cases malformed with
      | grammar => simp [hfirst, hread] at h
      | tooManyDigits =>
        simp only [hfirst, hread, Except.error.injEq] at h
        exact ⟨h.symm, text, rfl, hread⟩
    | ok json => cases json <;> simp [hfirst, hread] at h

/-- Two logs are read one after the other. -/
theorem readLines_append (lines more : List (List Char)) :
    readLines (lines ++ more) = do
      let entries ← readLines lines
      let others ← readLines more
      return entries ++ others := by
  induction lines with
  | nil =>
    cases hmore : readLines more <;> simp [readLines, hmore]
  | cons line rest ih =>
    rw [List.cons_append, readLines, readLines, ih]
    cases hline : readLine line with
    | error fault => rfl
    | ok held =>
      cases hrest : readLines rest with
      | error fault => cases held <;> rfl
      | ok entries =>
        cases hmore : readLines more with
        | error fault => cases held <;> rfl
        | ok others => cases held <;> rfl

/-! ## Lines that are skipped -/

/-- The entry that a line holds, if it holds one. -/
def held? (line : List Char) : Option Fields :=
  match Json.read (strip line) with
  | .ok (.object fields) => some fields
  | _ => none

/-- A line is refused for a number with too many digits. -/
def isOversized (line : List Char) : Bool :=
  match Json.read (strip line) with
  | .error .tooManyDigits => true
  | _ => false

lemma isOversized_iff {line : List Char} :
    isOversized line ↔ Json.read (strip line) = .error .tooManyDigits := by
  unfold isOversized
  split <;> simp_all

/-- A line that is refused holds no entry. -/
lemma held?_of_isOversized {line : List Char} (h : isOversized line) : held? line = none := by
  rw [held?, isOversized_iff.1 h]

/-- A line that is refused is not blank. -/
lemma readFirst_of_isOversized {line : List Char} (h : isOversized line)
    (rest : List (List Char)) : readFirst (line :: rest) = .error .tooManyDigits := by
  rw [isOversized_iff] at h
  rw [readFirst, readLine]
  cases hline : strip line with
  | nil =>
    rw [hline, Json.read_nil] at h
    cases h
  | cons c text =>
    rw [hline] at h
    dsimp only
    rw [h]
    rfl

/-- A line gives its entry or nothing, unless it is refused. -/
lemma readLines_cons (line : List Char) (rest : List (List Char)) :
    readLines (line :: rest) =
      if isOversized line then .error .tooManyDigits
      else do return (held? line).toList ++ (← readLines rest) := by
  rw [readLines, readLine, isOversized, held?]
  cases hline : strip line with
  | nil =>
    rw [Json.read_nil]
    cases readLines rest <;> rfl
  | cons c text =>
    dsimp only
    cases Json.read (c :: text) with
    | error malformed => cases malformed <;> cases readLines rest <;> rfl
    | ok json => cases json <;> cases readLines rest <;> rfl

/-- A log has the entries of its lines, unless one of them is refused. -/
lemma readLines_eq (lines : List (List Char)) :
    readLines lines =
      if lines.any isOversized then .error .tooManyDigits else .ok (lines.filterMap held?) := by
  induction lines with
  | nil => rfl
  | cons line rest ih =>
    rw [readLines_cons, ih, List.any_cons, List.filterMap_cons]
    cases isOversized line with
    | true => rfl
    | false =>
      cases rest.any isOversized with
      | true => rfl
      | false => cases held? line <;> rfl

/-- A line that is refused has more digits in a row than a whole number may have. -/
lemma hasLongRun_of_isOversized {line : List Char} (h : isOversized line) :
    Json.HasLongRun line :=
  (Json.hasLongRun_of_read (isOversized_iff.1 h)).mono (strip_isInfix line)

/-- A line that is nothing but a whole number with too many digits is refused. -/
lemma isOversized_of_long_number {line : List Char} (digits : ∀ c ∈ line, isAsciiDigit c)
    (nonzero : line.head? ≠ some '0') (long : Numeral.maxDigits < line.length) :
    isOversized line := by
  rw [isOversized_iff, strip_eq_self fun c hc => isBlank_of_isAsciiDigit (digits c hc)]
  exact Json.read_of_long_number digits nonzero long

/-- Nines are refused if there are too many of them. -/
lemma isOversized_replicate {count : ℕ} (long : Numeral.maxDigits < count) :
    isOversized (List.replicate count '9') := by
  refine isOversized_of_long_number (fun c hc => ?_) ?_ ?_
  · rw [List.eq_of_mem_replicate hc]
    rfl
  · rw [List.head?_replicate]
    split <;> simp
  · rwa [List.length_replicate]

/-- Lines without an entry are skipped, and the entries of all other lines are read in order, unless
some line is refused; a line that is refused has more digits in a row than a whole number may
have. -/
theorem readLines_skips (lines : List (List Char)) :
    readLines lines =
        (if lines.any isOversized then .error .tooManyDigits
          else .ok (lines.filterMap held?)) ∧
      ∀ line, isOversized line → Json.HasLongRun line :=
  ⟨readLines_eq lines, fun _ => hasLongRun_of_isOversized⟩

/-- A number with too many digits on a line of its own hides the entry of another line. -/
theorem readLines_long_number :
    let lines := ["\x7b\"a\":1\x7d".toList, List.replicate 4301 '9']
    lines.filterMap held? = [[("a", .int 1)]] ∧ readLines lines = .error .tooManyDigits := by
  intro lines
  have hlong : isOversized (List.replicate 4301 '9') := isOversized_replicate (by decide)
  refine ⟨?_, ?_⟩
  · rw [List.filterMap_cons, List.filterMap_cons, held?_of_isOversized hlong]
    rfl
  · rw [readLines_eq, if_pos]
    rw [List.any_eq_true]
    exact ⟨_, List.mem_cons_of_mem _ List.mem_cons_self, hlong⟩

end ChatHistory.Entry
