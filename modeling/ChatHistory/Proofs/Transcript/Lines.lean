import ChatHistory.Proofs.Fault
import ChatHistory.Proofs.Json.Literal
import ChatHistory.Proofs.Text.Pieces
import ChatHistory.Proofs.Transcript.Preview
import ChatHistory.Transcript.Document
import Mathlib.Tactic.Common

/-!
# The lines of a transcript

A transcript joins its lines by line feeds, and a text of the log that holds a line feed of its own
makes several lines of one.  `textLines` gives the lines of the whole: those of all joined texts, in
order (`textLines_intercalate`).  A line that is put in front of a text changes only the first line
of it (`textLines_append`).

What a transcript makes itself is on one line (`IsLine`): times, durations, and previews of whatever
the log holds.
-/

namespace ChatHistory

namespace Transcript

open Text

/-- The text is on one line. -/
def IsLine (text : String) : Prop :=
  '\n' ∉ text.toList

instance (text : String) : Decidable (IsLine text) :=
  inferInstanceAs (Decidable ('\n' ∉ text.toList))

/-! ## Lines of texts -/

lemma textLines_of_isLine {text : String} (h : IsLine text) : textLines text = [text] := by
  rw [textLines, splitAtChar_eq_splitOn, List.splitOn_eq_singleton h]
  simp

/-- Every line of a text is on one line. -/
lemma isLine_of_mem_textLines {text line : String} (h : line ∈ textLines text) : IsLine line := by
  obtain ⟨piece, hpiece, rfl⟩ := List.mem_map.1 h
  rw [IsLine, String.toList_ofList]
  exact not_mem_of_mem_splitAtChar hpiece

/-- Two texts with a line feed between them have the lines of both. -/
lemma textLines_append_lineFeed (text rest : String) :
    textLines (text ++ "\n" ++ rest) = textLines text ++ textLines rest := by
  have hcut : (text ++ "\n" ++ rest).toList = text.toList ++ '\n' :: rest.toList := by simp
  rw [textLines, hcut, splitAtChar_eq_splitOn, List.splitOn_eq_splitOnP,
    List.splitOnP_append_cons _ _ (by simp), List.map_append]
  simp only [textLines, splitAtChar_eq_splitOn, List.splitOn_eq_splitOnP]

/-- Texts joined by line feeds have the lines of all of them. -/
theorem textLines_intercalate {texts : List String} (h : texts ≠ []) :
    textLines ("\n".intercalate texts) = texts.flatMap textLines := by
  induction texts with
  | nil => contradiction
  | cons text texts ih =>
    cases texts with
    | nil => simp
    | cons next texts =>
      rw [String.intercalate_cons_cons, textLines_append_lineFeed, ih (List.cons_ne_nil _ _),
        ← List.flatMap_cons]

/-- A line in front of a text joins the first line of it. -/
lemma textLines_append {line : String} (h : IsLine line) (text : String) :
    textLines (line ++ text) = (textLines text).modifyHead (line ++ ·) := by
  rw [textLines, String.toList_append, splitAtChar_append h, textLines]
  cases splitAtChar '\n' text.toList with
  | nil => rfl
  | cons piece more => simp

/-- A line behind a text joins the last line of it. -/
lemma exists_textLines_append {line : String} (h : IsLine line) (text : String) :
    ∃ lines last, textLines text = lines ++ [last] ∧
      textLines (text ++ line) = lines ++ [last ++ line] := by
  obtain ⟨pieces, last, htext, hline⟩ := exists_splitAtChar_append h text.toList
  refine ⟨pieces.map String.ofList, String.ofList last, ?_, ?_⟩
  · rw [textLines, htext, List.map_append]
    rfl
  · rw [textLines, String.toList_append, hline, List.map_append, List.map_singleton,
      String.ofList_append, String.ofList_toList]

/-! ## What is on one line -/

lemma isLine_empty : IsLine "" := by
  decide

lemma IsLine.append {text rest : String} (htext : IsLine text) (hrest : IsLine rest) :
    IsLine (text ++ rest) := by
  rw [IsLine, String.toList_append, List.mem_append, not_or]
  exact ⟨htext, hrest⟩

lemma isLine_repr (n : ℕ) : IsLine (Nat.repr n) :=
  newline_notMem_repr n

lemma isLine_padded (width n : ℕ) : IsLine (Timestamp.padded width n) := by
  rw [IsLine, Timestamp.padded, String.toList_ofList, List.mem_append, not_or]
  exact ⟨fun h => by simpa using List.eq_of_mem_replicate h,
    newline_notMem_toDigits (by decide) n⟩

/-- A time is on one line. -/
lemma isLine_shortText (time : Timestamp) (withSeconds : Bool) :
    IsLine (time.shortText withSeconds) := by
  have hdash : IsLine "-" := by decide
  have hcolon : IsLine ":" := by decide
  have hmark : IsLine "T" := by decide
  have hdate : IsLine (s!"{time.date.year}-" ++ Timestamp.padded 2 time.date.month ++ "-" ++
      Timestamp.padded 2 time.date.day) :=
    ((((isLine_repr _).append hdash).append (isLine_padded _ _)).append hdash).append
      (isLine_padded _ _)
  have hclock : IsLine (Timestamp.padded 2 time.hour ++ ":" ++ Timestamp.padded 2 time.minute) :=
    ((isLine_padded _ _).append hcolon).append (isLine_padded _ _)
  have hseconds : IsLine (if withSeconds then ":" ++ Timestamp.padded 2 time.second else "") := by
    split
    · exact hcolon.append (isLine_padded _ _)
    · exact isLine_empty
  exact ((hdate.append hmark).append hclock).append hseconds

lemma isLine_shortTime {clock : LocalClock} {time : Option Timestamp} {text : String}
    (h : shortTime clock time = .ok text) : IsLine text := by
  cases time with
  | none =>
    obtain rfl := Except.ok.inj h
    exact isLine_empty
  | some time =>
    obtain ⟨reading, -, hreading⟩ := bind_eq_ok_iff.1 h
    obtain rfl := Except.ok.inj hreading
    exact isLine_shortText reading false

lemma isLine_generatedText (clock : LocalClock) : IsLine (generatedText clock) := by
  rw [IsLine, generatedText, String.toList_ofList]
  intro h
  obtain ⟨c, hc, hfeed⟩ := List.mem_map.1 h
  split at hfeed
  · simp at hfeed
  · exact isLine_shortText _ true (hfeed ▸ hc)

lemma isLine_quotientText (num den : ℕ) : IsLine (Milliseconds.quotientText num den) := by
  unfold Milliseconds.quotientText Milliseconds.secondsText
  have hms : IsLine "ms" := by decide
  have hs : IsLine "s" := by decide
  have hpoint : IsLine "." := by decide
  split
  · exact (isLine_repr _).append hms
  · split
    · exact isLine_empty
    · split
      · exact (((isLine_repr _).append hpoint).append (isLine_repr _)).append hs
      · exact (isLine_repr _).append hs

lemma isLine_duration {duration : Milliseconds} {text : String} (h : duration.text = .ok text) :
    IsLine text := by
  cases duration with
  | whole n =>
    rw [Milliseconds.text] at h
    split at h
    · contradiction
    · obtain rfl := Except.ok.inj h
      split
      · exact isLine_empty
      · exact isLine_quotientText _ _
  | fractional x =>
    rw [Milliseconds.text] at h
    obtain rfl := Except.ok.inj h
    split
    · exact isLine_empty
    · split
      · exact isLine_empty
      · exact isLine_quotientText _ _

/-- The duration of a turn is on one line. -/
lemma isLine_durationText {metadata : Fields} {text : String}
    (h : durationText metadata = .ok text) : IsLine text := by
  have hdash : IsLine " - " := by decide
  unfold durationText at h
  split at h
  · obtain rfl := Except.ok.inj h
    exact isLine_empty
  · obtain ⟨shown, hshown, hdashed⟩ := bind_eq_ok_iff.1 h
    obtain rfl := Except.ok.inj hdashed
    split
    · exact isLine_empty
    · exact hdash.append (isLine_duration hshown)

/-- A preview is on one line. -/
theorem isLine_preview (value : Json) : IsLine (Preview.ofJson value) := by
  intro hfeed
  have hspaced := (Preview.isWordLine_ofJson value).isSingleSpaced
  have hspace := hspaced.space '\n' hfeed (by decide)
  contradiction

end Transcript

end ChatHistory
