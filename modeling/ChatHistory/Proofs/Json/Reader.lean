import ChatHistory.Json.Reader
import ChatHistory.Proofs.Fault
import Mathlib.Data.List.Infix
import Mathlib.Data.List.TakeWhile
import Mathlib.Tactic.Common

/-!
# Numbers with too many digits

A JSON text is refused as `Malformed.tooManyDigits` only if it has more digits in a row than a
whole number may have (`hasLongRun_of_read`), and a text that is nothing but such a number is
refused for it (`read_of_long_number`).

Every function of the reader answers with an end of the text that it is given, so that a run of
digits that any of them meets stands in the whole text.  `Leaves` says both of one function at a
time, and `Leaves.bind` of one function after another.
-/

namespace ChatHistory.Json

open Text

/-- More digits in a row than a whole number may have. -/
def HasLongRun (text : List Char) : Prop :=
  ∃ run, run <:+: text ∧ Numeral.maxDigits < run.length ∧ ∀ c ∈ run, isAsciiDigit c

lemma HasLongRun.mono {text more : List Char} (h : HasLongRun text) (inside : text <:+: more) :
    HasLongRun more := by
  obtain ⟨run, hrun, long, digits⟩ := h
  exact ⟨run, hrun.trans inside, long, digits⟩

/-- A result with an end of a text as what is left of it, or a refusal that is due to too many
digits only if the text has so many in a row. -/
def Leaves {α : Type} (text : List Char) : Except Malformed (α × List Char) → Prop
  | .ok (_, rest) => rest <:+ text
  | .error .tooManyDigits => HasLongRun text
  | .error .grammar => True

namespace Leaves

variable {α β : Type} {text rest : List Char} {result : Except Malformed (α × List Char)}

/-- What leaves an end of an end of a text leaves an end of the text. -/
lemma of_suffix (h : Leaves rest result) (suffix : rest <:+ text) : Leaves text result := by
  cases result with
  | ok reading => exact h.trans suffix
  | error why =>
    cases why with
    | grammar => trivial
    | tooManyDigits => exact h.mono suffix.isInfix

/-- Reading goes on with an end of the text. -/
lemma bind {next : α × List Char → Except Malformed (β × List Char)} (h : Leaves text result)
    (hnext : ∀ value rest, rest <:+ text → Leaves text (next (value, rest))) :
    Leaves text (result >>= next) := by
  cases result with
  | ok reading => exact hnext reading.1 reading.2 h
  | error why =>
    cases why with
    | grammar => trivial
    | tooManyDigits => exact h

end Leaves

/-! ## Strings -/

lemma skipGap_suffix (text : List Char) : skipGap text <:+ text :=
  List.dropWhile_suffix _

/-- What stands behind a token is an end of the text. -/
lemma suffix_of_skipGap {text rest behind : List Char} {token : Char} (suffix : rest <:+ text)
    (h : skipGap rest = token :: behind) : behind <:+ text := by
  have hgap := (skipGap_suffix rest).trans suffix
  rw [h] at hgap
  exact (List.suffix_cons token behind).trans hgap

lemma leaves_readUnit (text : List Char) : Leaves text (readUnit text) := by
  unfold readUnit
  split
  · rename_i a b c d rest
    split
    · exact List.suffix_append [a, b, c, d] rest
    · trivial
  · trivial

lemma leaves_readEscapedUnit (text : List Char) : Leaves text (readEscapedUnit text) := by
  unfold readEscapedUnit
  refine (leaves_readUnit text).bind fun unit rest hrest => ?_
  dsimp only
  split
  · split
    · rename_i after
      have hafter : after <:+ text := (List.suffix_append ['\\', 'u'] after).trans hrest
      refine ((leaves_readUnit after).of_suffix hafter).bind fun second final hfinal => ?_
      dsimp only
      split
      · exact hfinal
      · exact hrest
    · exact hrest
  · exact hrest

lemma leaves_readEscape (text : List Char) : Leaves text (readEscape text) := by
  unfold readEscape
  split
  case h_9 rest => exact (leaves_readEscapedUnit rest).of_suffix (List.suffix_cons 'u' rest)
  case h_10 => trivial
  all_goals exact List.suffix_cons _ _

lemma leaves_readChars (bound : ℕ) (text : List Char) : Leaves text (readChars bound text) := by
  induction bound generalizing text with
  | zero => trivial
  | succ bound ih =>
    cases text with
    | nil => trivial
    | cons c rest =>
      have hrest : rest <:+ c :: rest := List.suffix_cons c rest
      rw [readChars]
      split
      · exact hrest
      split
      · refine ((leaves_readEscape rest).of_suffix hrest).bind fun d behind hbehind => ?_
        refine ((ih behind).of_suffix hbehind).bind fun ds final hfinal => ?_
        exact hfinal
      split
      · trivial
      · refine ((ih rest).of_suffix hrest).bind fun ds final hfinal => ?_
        exact hfinal

lemma leaves_readString (text : List Char) : Leaves text (readString text) := by
  unfold readString
  exact (leaves_readChars _ text).bind fun cs rest hrest => hrest

/-! ## Numbers -/

lemma takeFraction_suffix (text : List Char) : (takeFraction text).2 <:+ text := by
  unfold takeFraction
  split
  · rename_i rest
    split
    · exact List.suffix_rfl
    · exact (List.dropWhile_suffix _).trans (List.suffix_cons '.' rest)
  · exact List.suffix_rfl

lemma takeExponent_suffix (text : List Char) : (takeExponent text).2 <:+ text := by
  unfold takeExponent
  split
  · rename_i mark rest
    have hrest : rest <:+ mark :: rest := List.suffix_cons mark rest
    split
    · dsimp only
      split
      · exact List.suffix_rfl
      · rename_i digits more _ hdigits
        have hmore := congrArg Prod.snd hdigits
        rw [← hmore]
        refine (List.dropWhile_suffix _).trans (List.IsSuffix.trans ?_ hrest)
        split
        · exact List.suffix_cons _ _
        · exact List.suffix_cons _ _
        · exact List.suffix_rfl
    · exact List.suffix_rfl
  · exact List.suffix_rfl

/-- The whole digits of a number stand at the beginning of the text. -/
lemma takeWhole_append (text : List Char) :
    (takeWhole text).1 ++ (takeWhole text).2 = text ∧ ∀ c ∈ (takeWhole text).1, isAsciiDigit c := by
  unfold takeWhole
  split
  · exact ⟨rfl, fun c hc => List.mem_singleton.1 hc ▸ rfl⟩
  · exact ⟨List.takeWhile_append_dropWhile, fun c hc => List.mem_takeWhile_imp hc⟩

lemma leaves_readNumber (negative : Bool) (text : List Char) :
    Leaves text (readNumber negative text) := by
  unfold readNumber
  obtain ⟨happend, digits⟩ := takeWhole_append text
  generalize takeWhole text = taken at happend digits
  obtain ⟨whole, behind⟩ := taken
  dsimp only at happend digits ⊢
  subst happend
  have hrest : ∀ exponent rest, takeExponent (takeFraction behind).2 = (exponent, rest) →
      rest <:+ whole ++ behind := by
    intro exponent rest hexponent
    have hsuffix := takeExponent_suffix (takeFraction behind).2
    rw [hexponent] at hsuffix
    exact (hsuffix.trans (takeFraction_suffix behind)).trans (List.suffix_append whole behind)
  split
  · trivial
  · rename_i digits' behind' _ htaken
    obtain ⟨rfl, rfl⟩ := Prod.mk.inj htaken
    split
    · rename_i hexponent
      split
      · rename_i long
        exact ⟨whole, (List.prefix_append whole behind).isInfix, long, digits⟩
      · exact hrest _ _ hexponent
    · rename_i hexponent _
      exact hrest _ _ hexponent

lemma leaves_readScalar (text : List Char) : Leaves text (readScalar text) := by
  unfold readScalar
  split
  · rename_i reading hword
    obtain ⟨entry, -, hentry⟩ := List.exists_of_findSome?_eq_some hword
    obtain ⟨rest, hrest, rfl⟩ := Option.map_eq_some_iff.1 hentry
    exact ⟨_, List.append_eq_of_isPrefixOf?_eq_some hrest⟩
  · split
    · rename_i rest _
      exact (leaves_readNumber true rest).of_suffix (List.suffix_cons '-' rest)
    · exact leaves_readNumber false _

/-! ## Values -/

/-- Values, items and fields leave an end of the text. -/
lemma leaves_of_bound (bound : ℕ) :
    (∀ text, Leaves text (readValue bound text)) ∧ (∀ text, Leaves text (readItems bound text)) ∧
      ∀ text, Leaves text (readEntries bound text) := by
  induction bound with
  | zero => exact ⟨fun _ => trivial, fun _ => trivial, fun _ => trivial⟩
  | succ bound ih =>
    obtain ⟨hvalue, hitems, hentries⟩ := ih
    refine ⟨fun text => ?_, fun text => ?_, fun text => ?_⟩
    · rw [readValue.eq_def]
      dsimp only
      split
      · rename_i rest
        refine ((leaves_readString rest).of_suffix (List.suffix_cons '"' rest)).bind ?_
        exact fun s final hfinal => hfinal
      · rename_i rest
        have hrest : rest <:+ '[' :: rest := List.suffix_cons '[' rest
        split
        · rename_i hclose
          exact suffix_of_skipGap hrest hclose
        · refine ((hitems _).of_suffix ((skipGap_suffix rest).trans hrest)).bind ?_
          exact fun items final hfinal => hfinal
      · rename_i rest
        have hrest : rest <:+ '{' :: rest := List.suffix_cons '{' rest
        split
        · rename_i hclose
          exact suffix_of_skipGap hrest hclose
        · refine ((hentries _).of_suffix ((skipGap_suffix rest).trans hrest)).bind ?_
          exact fun entries final hfinal => hfinal
      · exact leaves_readScalar text
    · rw [readItems.eq_def]
      refine (hvalue text).bind fun item rest hrest => ?_
      dsimp only
      split
      · rename_i hclose
        exact suffix_of_skipGap hrest hclose
      · rename_i behind hcomma
        have hbehind := (skipGap_suffix behind).trans (suffix_of_skipGap hrest hcomma)
        exact ((hitems _).of_suffix hbehind).bind fun items final hfinal => hfinal
      · trivial
    · rw [readEntries.eq_def]
      dsimp only
      split
      · rename_i rest
        have hname := (leaves_readString rest).of_suffix (List.suffix_cons '"' rest)
        refine hname.bind fun name rest hrest => ?_
        dsimp only
        split
        · rename_i behind hcolon
          have hbehind := (skipGap_suffix behind).trans (suffix_of_skipGap hrest hcolon)
          refine ((hvalue _).of_suffix hbehind).bind fun value rest hrest => ?_
          dsimp only
          split
          · rename_i hclose
            exact suffix_of_skipGap hrest hclose
          · rename_i behind hcomma
            have hbehind := (skipGap_suffix behind).trans (suffix_of_skipGap hrest hcomma)
            exact ((hentries _).of_suffix hbehind).bind fun entries final hfinal => hfinal
          · trivial
        · trivial
      · trivial

/-- A text that is refused for a number with too many digits has so many digits in a row. -/
theorem hasLongRun_of_read {text : List Char} (h : read text = .error .tooManyDigits) :
    HasLongRun text := by
  have hvalue := ((leaves_of_bound (2 * text.length + 2)).1 (skipGap text)).of_suffix
    (skipGap_suffix text)
  unfold read at h
  cases hread : readValue (2 * text.length + 2) (skipGap text) with
  | ok reading =>
    rw [hread, ok_bind] at h
    dsimp only at h
    split at h <;> cases h
  | error why =>
    rw [hread, error_bind, Except.error.injEq] at h
    subst h
    rwa [hread] at hvalue

/-- A text without a value is no JSON. -/
lemma read_nil : read [] = .error .grammar := rfl

/-! ## A number alone -/

lemma ne_of_isAsciiDigit {c d : Char} (digit : isAsciiDigit c) (other : isAsciiDigit d = false) :
    c ≠ d := by
  rintro rfl
  rw [digit] at other
  contradiction

/-- No value that is written as a word begins with a digit. -/
lemma readScalar_of_digit {c : Char} (digit : isAsciiDigit c) (rest : List Char) :
    readScalar (c :: rest) = readNumber false (c :: rest) := by
  have hwords : ∀ entry ∈ wordValues, ∃ d ds, entry.1 = d :: ds ∧ isAsciiDigit d = false := by
    simp [wordValues, isAsciiDigit]
  unfold readScalar
  split
  · rename_i reading hword
    obtain ⟨entry, hentry, hreads⟩ := List.exists_of_findSome?_eq_some hword
    obtain ⟨d, ds, hfirst, hother⟩ := hwords entry hentry
    simp [hfirst, List.isPrefixOf?, (ne_of_isAsciiDigit digit hother).symm] at hreads
  · split
    · rename_i hminus
      exact absurd (List.cons.inj hminus).1 (ne_of_isAsciiDigit digit rfl)
    · rfl

/-- A text that is nothing but a whole number with too many digits is refused for it. -/
theorem read_of_long_number {text : List Char} (digits : ∀ c ∈ text, isAsciiDigit c)
    (nonzero : text.head? ≠ some '0') (long : Numeral.maxDigits < text.length) :
    read text = .error .tooManyDigits := by
  cases text with
  | nil => exact absurd long (Nat.not_lt_zero _)
  | cons c rest =>
    have digit := digits c List.mem_cons_self
    have hgap : skipGap (c :: rest) = c :: rest := by
      refine List.dropWhile_cons_of_neg ?_
      have hne (d : Char) (other : isAsciiDigit d = false) : c ≠ d :=
        ne_of_isAsciiDigit digit other
      simp [isGap, hne ' ' rfl, hne '\t' rfl, hne '\n' rfl, hne '\r' rfl]
    have hwhole : takeWhole (c :: rest) = (c :: rest, []) := by
      unfold takeWhole
      split
      · rename_i hzero
        simp [(List.cons.inj hzero).1] at nonzero
      · exact Prod.ext (List.takeWhile_eq_self_iff.2 digits) (List.dropWhile_eq_nil_iff.2 digits)
    have hnumber : readNumber false (c :: rest) = .error .tooManyDigits := by
      simpa [readNumber, hwhole, takeFraction, takeExponent] using long
    have hvalue : readValue (2 * (c :: rest).length + 2) (c :: rest) = .error .tooManyDigits := by
      rw [readValue.eq_def]
      dsimp only
      split
      case h_4 => rw [readScalar_of_digit digit, hnumber]
      all_goals
        rename_i hopen
        exact absurd (List.cons.inj hopen).1 (ne_of_isAsciiDigit digit rfl)
    rw [read, hgap, hvalue]
    rfl

end ChatHistory.Json
