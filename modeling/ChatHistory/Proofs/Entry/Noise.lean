import ChatHistory.Entry.Conversion
import ChatHistory.Proofs.Entry.Lines

/-!
# Lines that leave no trace

A line of noise (`IsNoise`) is blank or malformed, holds a value that is no object, or holds an
entry that is dropped.  Between the other lines of a log (`Padded`) it changes neither the messages
of the log nor the numbers of the identifiers that are drawn for them: what is read from the log
differs only by entries that are dropped (`map_kept_readLines`), and an entry that is dropped draws
nothing (`toMessages_kept`).

The entry at the beginning of a log links it to another one.  It is the same if the noise stands
behind the first line that is not blank (`PaddedBehindFirst.firstText?_eq`).
-/

namespace ChatHistory.Entry

open Text

/-! ## Entries that are dropped -/

/-- An entry that is dropped. -/
def isDropped (entry : Fields) : Bool :=
  match Treatment.ofEntry entry with
  | .ok .drop => true
  | _ => false

/-- The entries that are not dropped. -/
def kept (entries : List Fields) : List Fields :=
  entries.filter fun entry => !isDropped entry

lemma isDropped_iff {entry : Fields} : isDropped entry ↔ Treatment.ofEntry entry = .ok .drop := by
  unfold isDropped
  split <;> simp_all

lemma kept_append (entries more : List Fields) :
    kept (entries ++ more) = kept entries ++ kept more :=
  List.filter_append _ _

/-- An entry that is dropped has no message, and draws no identifier. -/
lemma toMessage_of_isDropped {entry : Fields} (h : isDropped entry) (origin : Origin)
    (chatId : String) (drawn : ℕ) :
    toMessage origin chatId entry drawn = .ok (none, drawn) := by
  rw [toMessage, isDropped_iff.1 h]
  rfl

/-- The messages of entries are those of the entries that are not dropped. -/
theorem toMessages_kept (origin : Origin) (chatId : String) (entries : List Fields) (drawn : ℕ) :
    toMessages origin chatId (kept entries) drawn = toMessages origin chatId entries drawn := by
  induction entries generalizing drawn with
  | nil => rfl
  | cons entry rest ih =>
    by_cases dropped : isDropped entry
    · have hkept : kept (entry :: rest) = kept rest := by simp [kept, dropped]
      rw [hkept, ih, toMessages, toMessage_of_isDropped dropped]
      cases hrest : toMessages origin chatId rest drawn with
      | mk messages drawn => cases messages <;> simp [hrest, Except.map]
    · have hkept : kept (entry :: rest) = entry :: kept rest := by simp [kept, dropped]
      rw [hkept, toMessages, toMessages]
      cases toMessage origin chatId entry drawn with
      | error fault => rfl
      | ok made => simp only [ih]

/-! ## Noise -/

/-- A line that adds nothing to a log. -/
inductive IsNoise (line : List Char) : Prop
  | blank (empty : strip line = [])
  | malformed (unread : Json.read (strip line) = .error .grammar)
  | other (value : Json) (read : Json.read (strip line) = .ok value)
      (noObject : value.object? = none)
  | dropped (fields : Fields) (read : Json.read (strip line) = .ok (.object fields))
      (drop : Treatment.ofEntry fields = .ok .drop)

/-- The second log is the first one with lines of noise put anywhere. -/
inductive Padded : List (List Char) → List (List Char) → Prop
  | nil : Padded [] []
  | keep {lines padded : List (List Char)} (line : List Char) (rest : Padded lines padded) :
      Padded (line :: lines) (line :: padded)
  | noise {lines padded : List (List Char)} {line : List Char} (isNoise : IsNoise line)
      (rest : Padded lines padded) : Padded lines (line :: padded)

/-- The second log is the first one with lines of noise put behind the first line that is not
blank. -/
inductive PaddedBehindFirst : List (List Char) → List (List Char) → Prop
  | blank {lines padded : List (List Char)} {line : List Char} (empty : strip line = [])
      (rest : PaddedBehindFirst lines padded) : PaddedBehindFirst (line :: lines) (line :: padded)
  | first {lines padded : List (List Char)} {line : List Char} (filled : strip line ≠ [])
      (rest : Padded lines padded) : PaddedBehindFirst (line :: lines) (line :: padded)

/-- Noise is what is not refused and holds no entry, or one that is dropped. -/
theorem isNoise_iff {line : List Char} :
    IsNoise line ↔ ¬isOversized line ∧ (held? line).all isDropped := by
  constructor
  · rintro (empty | unread | ⟨value, read, noObject⟩ | ⟨fields, read, drop⟩)
    · simp [isOversized, held?, empty, Json.read_nil]
    · simp [isOversized, held?, unread]
    · cases value <;> simp_all [isOversized, held?, Json.object?]
    · simp [isOversized, held?, read, isDropped_iff.2 drop]
  · rintro ⟨sized, dropped⟩
    cases hread : Json.read (strip line) with
    | error malformed =>
      cases malformed with
      | grammar => exact .malformed hread
      | tooManyDigits => exact absurd (isOversized_iff.2 hread) sized
    | ok value =>
      cases value with
      | object fields =>
        refine .dropped fields hread (isDropped_iff.1 ?_)
        simpa [held?, hread] using dropped
      | _ => exact .other _ hread rfl

instance (line : List Char) : Decidable (IsNoise line) :=
  decidable_of_iff _ isNoise_iff.symm

namespace Padded

variable {lines noisy : List (List Char)}

/-- Noise does not have a log refused. -/
lemma any_isOversized (h : Padded lines noisy) :
    noisy.any isOversized = lines.any isOversized := by
  induction h with
  | nil => rfl
  | keep line rest ih => rw [List.any_cons, List.any_cons, ih]
  | noise isNoise rest ih =>
    rw [List.any_cons, ih, Bool.eq_false_iff.2 (isNoise_iff.1 isNoise).1, Bool.false_or]

/-- Noise adds entries that are dropped. -/
lemma kept_filterMap_held? (h : Padded lines noisy) :
    kept (noisy.filterMap held?) = kept (lines.filterMap held?) := by
  induction h with
  | nil => rfl
  | keep line rest ih =>
    cases hheld : held? line with
    | none => rw [List.filterMap_cons_none hheld, List.filterMap_cons_none hheld, ih]
    | some fields =>
      rw [List.filterMap_cons_some hheld, List.filterMap_cons_some hheld,
        ← List.singleton_append, kept_append, ih, ← kept_append, List.singleton_append]
  | @noise _ _ line isNoise rest ih =>
    cases hheld : held? line with
    | none => rw [List.filterMap_cons_none hheld, ih]
    | some fields =>
      have dropped : isDropped fields := by
        simpa [hheld] using (isNoise_iff.1 isNoise).2
      rw [List.filterMap_cons_some hheld, ← ih]
      simp [kept, dropped]

/-- From a log with noise the same is read, but for entries that are dropped. -/
theorem map_kept_readLines (h : Padded lines noisy) :
    (readLines noisy).map kept = (readLines lines).map kept := by
  rw [readLines_eq, readLines_eq, h.any_isOversized]
  split
  · rfl
  · exact congrArg Except.ok h.kept_filterMap_held?

end Padded

namespace PaddedBehindFirst

variable {lines noisy : List (List Char)}

lemma padded (h : PaddedBehindFirst lines noisy) : Padded lines noisy := by
  induction h with
  | blank empty rest ih => exact .keep _ ih
  | first filled rest => exact .keep _ rest

/-- The first line that is not blank is the same. -/
theorem firstText?_eq (h : PaddedBehindFirst lines noisy) :
    firstText? noisy = firstText? lines := by
  induction h with
  | blank empty rest ih => simpa [firstText?, empty] using ih
  | first filled rest => simp [firstText?, filled]

end PaddedBehindFirst

end ChatHistory.Entry
