import ChatHistory.Time.Reader
import Mathlib.Data.Int.Notation
import Mathlib.Data.List.Basic
import Mathlib.Data.List.TakeWhile
import Mathlib.Tactic.Common

/-!
# Timestamps that end in `Z`

A `Z` at the end of a timestamp should mean universal time.  It is read as an offset of zero put
behind the rest of the text, and so it depends on the rest what becomes of the offset
(`offset_of_read`).  Behind a time of day it is read as what it is, unless the time has an offset of
its own in front of a character that ends the text.  But behind a date that stands alone, its sign
is taken for the character that ends the date, and a time of day without any offset is read.

The date never reaches into the offset, since it would have to hold its sign
(`plus_notMem_of_readDate`).  An offset of its own would have to hold it too, but for a character
that ends the text: what is read stops there (`readParts_of_stop`).
-/

namespace ChatHistory

namespace Timestamp

open Text

/-! ## What the readers take -/

/-- Digits that are read are in front of what is left. -/
lemma exists_digits_of_readDigits {count value : ℕ} {text rest : List Char}
    (h : readDigits count text = some (value, rest)) :
    ∃ digits, text = digits ++ rest ∧ digits.length = count ∧ ∀ c ∈ digits, isAsciiDigit c := by
  dsimp only [readDigits] at h
  split at h
  · rename_i hdigits
    obtain ⟨-, rfl⟩ := Prod.ext_iff.1 (Option.some.inj h)
    exact ⟨text.take count, (List.take_append_drop count text).symm, hdigits.1,
      List.all_eq_true.1 hdigits.2⟩
  · contradiction

lemma plus_notMem_of_digits {digits : List Char} (h : ∀ c ∈ digits, isAsciiDigit c) :
    '+' ∉ digits :=
  fun hplus => absurd (h '+' hplus) (by decide)

/-- Digits that fill their place have no plus among them. -/
lemma plus_notMem_of_readDigits {count value : ℕ} {text rest : List Char}
    (h : readDigits count text = some (value, rest)) (short : text.length ≤ count) :
    '+' ∉ text := by
  obtain ⟨digits, rfl, hcount, hall⟩ := exists_digits_of_readDigits h
  obtain rfl : rest = [] := by
    rw [← List.length_eq_zero_iff]
    rw [List.length_append] at short
    omega
  simpa using plus_notMem_of_digits hall

/-- A weekday that fills its place has no plus in it. -/
lemma plus_notMem_of_readWeekday {dashed : Bool} {text : List Char} {day : ℕ}
    (h : readWeekday dashed text = some day) (short : text.length ≤ if dashed then 2 else 1) :
    '+' ∉ text := by
  cases text with
  | nil => exact List.not_mem_nil
  | cons c rest =>
    cases dashed with
    | true =>
      simp only [readWeekday, if_true] at h
      split at h
      · rename_i dash
        obtain ⟨_, hdigits, -⟩ := Option.map_eq_some_iff.1 h
        simpa [dash] using plus_notMem_of_readDigits hdigits (by simpa using short)
      · contradiction
    | false =>
      obtain ⟨_, hdigits, -⟩ := Option.map_eq_some_iff.1 h
      exact plus_notMem_of_readDigits hdigits (by simpa using short)

/-- The date of a year that a text writes behind the year, and behind a dash if there is one. -/
def readInYear (year : ℕ) (dashed : Bool) : List Char → Option Date
  | 'W' :: rest => do
    let (week, rest) ← readDigits 2 rest
    let day ← readWeekday dashed rest
    Date.ofWeek? year week day
  | rest => do
    let (month, rest) ← readDigits 2 rest
    let rest ← if dashed then ['-'].isPrefixOf? rest else some rest
    let (day, _) ← readDigits 2 rest
    return ⟨year, month, day⟩

/-- A date is a year and what stands behind it. -/
lemma readDate_eq (text : List Char) : readDate text = (readDigits 4 text).bind fun read =>
    match read.2 with
    | '-' :: rest => readInYear read.1 true rest
    | rest => readInYear read.1 false rest := by
  unfold readDate
  refine congrArg _ (funext fun read => ?_)
  obtain ⟨year, rest⟩ := read
  dsimp only
  rcases rest with _ | ⟨c, rest⟩
  · rfl
  · by_cases dash : c = '-'
    · subst dash
      rcases rest with _ | ⟨d, rest⟩
      · rfl
      · by_cases week : d = 'W'
        · subst week
          rfl
        · simp [readInYear, week]
    · by_cases week : c = 'W'
      · subst week
        rfl
      · simp [readInYear, dash, week]

/-- What stands behind the year has no plus in it, if it fills its place. -/
lemma plus_notMem_of_readInYear {year : ℕ} {dashed : Bool} {text : List Char} {date : Date}
    (h : readInYear year dashed text = some date)
    (short : text.length ≤ if dashed then 5 else 4) : '+' ∉ text := by
  unfold readInYear at h
  split at h
  · obtain ⟨⟨week, rest⟩, hweek, hrest⟩ := Option.bind_eq_some_iff.1 h
    obtain ⟨day, hday, -⟩ := Option.bind_eq_some_iff.1 hrest
    obtain ⟨digits, rfl, htwo, hall⟩ := exists_digits_of_readDigits hweek
    have behind : '+' ∉ rest := by
      refine plus_notMem_of_readWeekday hday ?_
      rw [List.length_cons, List.length_append] at short
      cases dashed <;> simp at short ⊢ <;> omega
    simp [plus_notMem_of_digits hall, behind]
  · obtain ⟨⟨month, rest⟩, hmonth, hrest⟩ := Option.bind_eq_some_iff.1 h
    obtain ⟨digits, rfl, htwo, hall⟩ := exists_digits_of_readDigits hmonth
    dsimp only at hrest
    rw [List.length_append, htwo] at short
    rw [List.mem_append, not_or]
    refine ⟨plus_notMem_of_digits hall, ?_⟩
    cases dashed with
    | true =>
      obtain ⟨behind, hdash, hday⟩ := Option.bind_eq_some_iff.1 hrest
      obtain ⟨_, hdigits, -⟩ := Option.bind_eq_some_iff.1 hday
      obtain rfl := List.append_eq_of_isPrefixOf?_eq_some hdash
      simpa using plus_notMem_of_readDigits hdigits (by simp at short; omega)
    | false =>
      obtain ⟨_, hdigits, -⟩ := Option.bind_eq_some_iff.1 hrest
      exact plus_notMem_of_readDigits hdigits (by simp at short; omega)

/-- A date that fills its place has no plus in it: ten characters if there is a dash behind the
year, and eight otherwise. -/
lemma plus_notMem_of_readDate {text : List Char} {date : Date} (h : readDate text = some date)
    (short : text.length ≤ if text[4]? = some '-' then 10 else 8) : '+' ∉ text := by
  rw [readDate_eq] at h
  obtain ⟨⟨year, rest⟩, hyear, hrest⟩ := Option.bind_eq_some_iff.1 h
  obtain ⟨digits, rfl, hfour, hall⟩ := exists_digits_of_readDigits hyear
  have hdash : (digits ++ rest)[4]? = rest[0]? := by
    rw [List.getElem?_append_right (Nat.le_of_eq hfour), hfour]
  rw [hdash, List.length_append, hfour] at short
  rw [List.mem_append, not_or]
  refine ⟨plus_notMem_of_digits hall, ?_⟩
  dsimp only at hrest
  split at hrest
  · have behind := plus_notMem_of_readInYear hrest (by simp at short ⊢; omega)
    simpa using behind
  · rename_i plain
    refine plus_notMem_of_readInYear hrest ?_
    have first : rest[0]? ≠ some '-' := by
      cases rest with
      | nil => simp
      | cons c rest =>
        intro dash
        obtain rfl : c = '-' := by simpa using dash
        exact plain rest rfl
    rw [if_neg first] at short
    simp only [Bool.false_eq_true, if_false]
    omega

/-! ## The place of the date -/

/-- A date takes seven, eight or ten characters, and ten only with a dash behind the year. -/
lemma dateLength_cases (text : List Char) :
    dateLength text = 7 ∨ dateLength text = 8 ∨ dateLength text = 10 ∧ text[4]? = some '-' := by
  unfold dateLength
  dsimp only
  split
  · rename_i dash
    split_ifs <;> simp [dash]
  · split_ifs
    · rename_i short
      generalize ((text.drop 7).takeWhile isAsciiDigit).length = run at short ⊢
      obtain rfl | rfl : run = 0 ∨ run = 1 := by omega
      · exact .inl rfl
      · exact .inr (.inl rfl)
    · exact .inl rfl
    · exact .inr (.inl rfl)
    · exact .inr (.inl rfl)

/-- The characters of a date are not more than can be read. -/
lemma length_take_dateLength_le (text : List Char) : (text.take (dateLength text)).length ≤
    if (text.take (dateLength text))[4]? = some '-' then 10 else 8 := by
  have hle := List.length_take_le (dateLength text) text
  rcases dateLength_cases text with h | h | ⟨h, dash⟩
  · rw [h] at hle ⊢
    split <;> omega
  · rw [h] at hle ⊢
    split <;> omega
  · rw [h] at hle ⊢
    rwa [List.getElem?_take_of_lt (by decide), if_pos dash]

/-- The offset that a `Z` at the end stands for. -/
def zeroOffset : List Char := '+' :: "00:00".toList

/-- A text with a `Z` at the end is read with an offset of zero in its place. -/
lemma read_of_ends {text : String} {init : List Char} (ends : text.toList = init ++ ['Z']) :
    read text = readIso (init ++ zeroOffset) := by
  rw [read, ends, List.getLast?_concat, List.dropLast_concat]
  rfl

/-- A run of characters that has no plus in it ends before an offset that is put behind. -/
lemma takeWhile_append_offset {p : Char → Bool} (plus : p '+' = false) (text : List Char) :
    (text ++ zeroOffset).takeWhile p = text.takeWhile p := by
  have stopped : zeroOffset.takeWhile p = [] := by
    rw [zeroOffset, List.takeWhile_cons_of_neg (by simp [plus])]
  rw [List.takeWhile_append, stopped, List.append_nil]
  split
  · rename_i whole
    exact ((List.takeWhile_prefix _).eq_of_length whole).symm
  · rfl

/-- A date ends where it does without the offset behind it. -/
lemma dateLength_append {text : List Char} (long : 7 ≤ text.length) (unclear : text.length ≠ 9) :
    dateLength (text ++ zeroOffset) = dateLength text := by
  have within {i : ℕ} (h : i < text.length) : (text ++ zeroOffset)[i]? = text[i]? :=
    List.getElem?_append_left h
  have beyond {i : ℕ} (h : text.length ≤ i) :
      (text ++ zeroOffset)[i]? = zeroOffset[i - text.length]? :=
    List.getElem?_append_right h
  have run : ((text ++ zeroOffset).drop 7).takeWhile isAsciiDigit =
      (text.drop 7).takeWhile isAsciiDigit := by
    rw [List.drop_append_of_le_length long, takeWhile_append_offset (by decide)]
  have dash : (text ++ zeroOffset)[8]? = some '-' ↔ text[8]? = some '-' := by
    by_cases long8 : 8 < text.length
    · rw [within long8]
    · have missing : text[8]? = none := List.getElem?_eq_none (Nat.not_lt.1 long8)
      rw [beyond (Nat.not_lt.1 long8), missing]
      obtain h | h : text.length = 7 ∨ text.length = 8 := by omega
      · simp [h, zeroOffset]
      · simp [h, zeroOffset]
  have digit (h : text[8]? = some '-') : ((text ++ zeroOffset)[10]?).any isAsciiDigit =
      (text[10]?).any isAsciiDigit := by
    obtain ⟨long8, -⟩ := List.getElem?_eq_some_iff.1 h
    by_cases long10 : 10 < text.length
    · rw [within long10]
    · obtain hlength : text.length = 10 := by omega
      have missing : text[10]? = none := List.getElem?_eq_none (Nat.not_lt.1 long10)
      rw [beyond (Nat.not_lt.1 long10), missing, hlength]
      decide
  unfold dateLength
  simp only [within (by omega : 4 < text.length), within (by omega : 5 < text.length), run, dash]
  split_ifs <;> simp_all

/-! ## Clocks that are cut off -/

/-- Digits in front are read. -/
lemma readDigits_append {digits : List Char} (h : ∀ c ∈ digits, isAsciiDigit c)
    (rest : List Char) :
    readDigits digits.length (digits ++ rest) = some (asciiNumber digits, rest) := by
  have hall : digits.all isAsciiDigit := List.all_eq_true.2 h
  simp [readDigits, hall]

/-- A clock begins with two digits, if there is as much of it. -/
lemma digits_of_readParts {count : ℕ} {colons : Bool} {parts : List ℕ} {text : List Char}
    {clock : Clock} (h : readParts count colons parts text = some clock) :
    ∀ c ∈ text.take 2, isAsciiDigit c := by
  have front {count value : ℕ} {rest : List Char}
      (read : readDigits count text = some (value, rest)) (enough : min 2 text.length ≤ count) :
      ∀ c ∈ text.take 2, isAsciiDigit c := by
    obtain ⟨digits, rfl, hcount, hall⟩ := exists_digits_of_readDigits read
    intro c hc
    obtain ⟨i, hi, rfl⟩ := List.mem_take_iff_getElem.1 hc
    rw [List.getElem_append_left (by omega)]
    exact hall _ (List.getElem_mem _)
  cases count with
  | zero =>
    obtain ⟨⟨value, rest⟩, hdigits, -⟩ := Option.bind_eq_some_iff.1 h
    exact front hdigits (by omega)
  | succ count =>
    obtain ⟨⟨value, rest⟩, hdigits, -⟩ := Option.bind_eq_some_iff.1 h
    exact front hdigits (by omega)

/-- A character that no clock goes on with: the one that ends a text, or the sign of an offset. -/
def IsStop (c : Char) : Prop :=
  c = '\x00' ∨ c = '+'

lemma IsStop.not_digit {c : Char} (h : IsStop c) : ¬isAsciiDigit c := by
  rcases h with rfl | rfl <;> decide

/-- Digits that are read end before a character that no clock goes on with. -/
lemma exists_readDigits_of_stop {count value : ℕ} {shown more rest : List Char} {c : Char}
    (stop : IsStop c) (h : readDigits count (shown ++ c :: more) = some (value, rest)) :
    ∃ digits behind, shown = digits ++ behind ∧ rest = behind ++ c :: more ∧
      digits.length = count ∧ value = asciiNumber digits ∧ ∀ d ∈ digits, isAsciiDigit d := by
  obtain ⟨digits, htext, rfl, hall⟩ := exists_digits_of_readDigits h
  rw [htext, readDigits_append hall] at h
  obtain ⟨hvalue, -⟩ := Prod.ext_iff.1 (Option.some.inj h)
  rcases List.append_eq_append_iff.1 htext with ⟨behind, rfl, hbehind⟩ | ⟨behind, rfl, hrest⟩
  · cases behind with
    | nil =>
      rw [List.append_nil] at hvalue hall ⊢
      exact ⟨shown, [], (List.append_nil shown).symm, hbehind.symm, rfl, hvalue.symm, hall⟩
    | cons d behind =>
      obtain ⟨rfl, -⟩ := List.cons.inj hbehind
      exact absurd (hall c (by simp)) stop.not_digit
  · exact ⟨digits, behind, rfl, hrest, rfl, hvalue.symm, hall⟩

/-- A fraction that nothing is left of ends before the character that ends the text. -/
lemma readFraction_of_stop {parts : List ℕ} {shown more : List Char} {c : Char} {clock : Clock}
    (stop : IsStop c) (visible : '\x00' ∉ shown)
    (h : readFraction parts (shown ++ c :: more) = some clock) (whole : clock.leftover = false) :
    c = '\x00' ∧ readFraction parts shown = some clock := by
  obtain ⟨⟨value, rest⟩, hdigits, hclock⟩ := Option.bind_eq_some_iff.1 h
  obtain ⟨digits, behind, rfl, rfl, hcount, rfl, hall⟩ := exists_readDigits_of_stop stop hdigits
  obtain rfl := Option.some.inj hclock
  have hsix : digits.length = 6 := by
    simp only [List.length_append, List.length_cons] at hcount
    omega
  have atEnd : isOver ((behind ++ c :: more).dropWhile isAsciiDigit) := by simpa using whole
  -- What is left behind the digits starts with the stop, since nothing before it ends the text.
  have hbehind : behind.dropWhile isAsciiDigit = [] := by
    rw [List.dropWhile_append] at atEnd
    split at atEnd
    · rename_i empty
      simpa using empty
    · cases hleft : behind.dropWhile isAsciiDigit with
      | nil => rfl
      | cons d left =>
        have hd : d = '\x00' := by simpa [hleft, isOver] using atEnd
        have hmem : d ∈ behind := (List.dropWhile_sublist isAsciiDigit).subset (by simp [hleft])
        exact absurd (List.mem_append_right digits (hd ▸ hmem)) visible
  rw [List.dropWhile_append, hbehind, List.isEmpty_nil, if_pos rfl,
    List.dropWhile_cons_of_neg stop.not_digit] at atEnd
  have hc : c = '\x00' := by simpa [isOver] using atEnd
  refine ⟨hc, ?_⟩
  have hshort : min 6 (digits ++ behind).length = digits.length := by
    rw [List.length_append]
    omega
  dsimp only at whole
  rw [readFraction, hshort, readDigits_append hall, ← hcount, whole]
  simp [hbehind, isOver]

/-- What comes behind a part of a clock, where it is more than one character.  The flag says whether
colons separate the parts. -/
def readBehind (count : ℕ) (colons : Bool) (parts : List ℕ) (c : Char) (more : List Char) :
    Option Clock :=
  if colons && c = ':' then readParts count colons parts more
  else if c = '.' || c = ',' then readFraction parts more
  else if colons then none
  else readParts count colons parts (c :: more)

/-- A clock is a part of it and what comes behind; the first part is followed by a colon if the
others are. -/
lemma readParts_append {digits : List Char} (two : digits.length = 2)
    (h : ∀ c ∈ digits, isAsciiDigit c) (count : ℕ) (colons : Bool) (parts : List ℕ) (c d : Char)
    (more : List Char) :
    readParts (count + 1) colons parts (digits ++ c :: d :: more) =
      readBehind count
        (decide (if (parts ++ [asciiNumber digits]).length = 1 then c = ':' else colons = true))
        (parts ++ [asciiNumber digits]) c (d :: more) := by
  rw [readParts, ← two, readDigits_append h]
  simp only [readBehind, decide_eq_true_eq]
  rfl

/-- Behind a part of a clock there is no stop among the next two characters. -/
lemma not_isStop_of_readBehind {count : ℕ} {colons : Bool} {parts : List ℕ} {c d : Char}
    {more : List Char} {clock : Clock}
    (h : readBehind count colons parts c (d :: more) = some clock) : ¬IsStop c ∧ ¬IsStop d := by
  have apart {e : Char} (mark : e = ':' ∨ e = '.' ∨ e = ',') : ¬IsStop e := by
    rintro (rfl | rfl) <;> simp at mark
  unfold readBehind at h
  split at h
  · rename_i colon
    have hc : c = ':' := by simp_all
    exact ⟨apart (.inl hc), fun stop => stop.not_digit (digits_of_readParts h d (by simp))⟩
  · split at h
    · rename_i point
      have hc : c = '.' ∨ c = ',' := by simpa using point
      have hfraction : readParts 0 colons parts (d :: more) = some clock := h
      exact ⟨apart (.inr hc),
        fun stop => stop.not_digit (digits_of_readParts hfraction d (by simp))⟩
    · split at h
      · contradiction
      · exact ⟨fun stop => stop.not_digit (digits_of_readParts h c (by simp)),
          fun stop => stop.not_digit (digits_of_readParts h d (by simp))⟩

/-- What comes behind a part ends before the character that ends the text, if further parts do. -/
lemma readBehind_of_stop {count : ℕ} {colons : Bool} {parts : List ℕ} {d c : Char}
    {shown more : List Char} {clock : Clock} (stop : IsStop c) (visible : '\x00' ∉ d :: shown)
    (whole : clock.leftover = false)
    (further : ∀ shown, '\x00' ∉ shown → readParts count colons parts (shown ++ c :: more) =
      some clock → c = '\x00' ∧ readParts count colons parts shown = some clock)
    (h : readBehind count colons parts d (shown ++ c :: more) = some clock) :
    c = '\x00' ∧ readBehind count colons parts d shown = some clock := by
  have visibleMore : '\x00' ∉ shown := fun hmem => visible (List.mem_cons_of_mem _ hmem)
  unfold readBehind at h ⊢
  split at h
  · rename_i colon
    rw [if_pos colon]
    exact further shown visibleMore h
  · rename_i plain
    rw [if_neg plain]
    split at h
    · rename_i point
      rw [if_pos point]
      exact readFraction_of_stop stop visibleMore h whole
    · rename_i plain
      rw [if_neg plain]
      split at h
      · contradiction
      · rename_i compact
        rw [if_neg compact]
        exact further (d :: shown) visible h

/-- A clock that nothing is left of ends before the character that ends the text. -/
lemma readParts_of_stop {count : ℕ} {colons : Bool} {parts : List ℕ} {shown more : List Char}
    {c : Char} {clock : Clock} (stop : IsStop c) (visible : '\x00' ∉ shown) (goesOn : more ≠ [])
    (h : readParts count colons parts (shown ++ c :: more) = some clock)
    (whole : clock.leftover = false) :
    c = '\x00' ∧ readParts count colons parts shown = some clock := by
  induction count generalizing colons parts shown with
  | zero => exact readFraction_of_stop stop visible h whole
  | succ count ih =>
    obtain ⟨⟨value, rest⟩, hdigits, -⟩ := Option.bind_eq_some_iff.1 h
    obtain ⟨digits, behind, rfl, -, two, -, hall⟩ := exists_readDigits_of_stop stop hdigits
    rw [List.append_assoc] at h
    match behind with
    | [] =>
      obtain ⟨next, more, rfl⟩ := List.exists_cons_of_ne_nil goesOn
      rw [List.nil_append, readParts_append two hall] at h
      exact absurd stop (not_isStop_of_readBehind h).1
    | [d] =>
      rw [List.singleton_append, readParts_append two hall] at h
      exact absurd stop (not_isStop_of_readBehind h).2
    | d :: e :: behind =>
      rw [List.cons_append, List.cons_append, readParts_append two hall] at h
      rw [readParts_append two hall]
      have visibleBehind : '\x00' ∉ d :: e :: behind := fun hmem =>
        visible (List.mem_append_right _ hmem)
      exact readBehind_of_stop stop visibleBehind whole (fun _ => ih) h

/-! ## Texts that end in `Z` -/

/-- A character that an offset starts with. -/
def isMark (c : Char) : Bool := c = '+' || c = '-' || c = 'Z'

/-- What a text has behind its date and the one character that ends it; nothing if it ends with the
date. -/
def timePart? (text : List Char) : Option (List Char) :=
  match text.drop (dateLength text) with
  | [] => none
  | _ :: rest => some rest

/-- The offset that a time of day has behind it already, up to a character that ends the text. -/
def ownOffset? (text : List Char) : Option ℤ :=
  match text.dropWhile fun c => !isMark c with
  | [] => none
  | mark :: rest =>
    if mark = 'Z' then none else readOffset (mark = '-') (rest.takeWhile fun c => c ≠ '\x00')

/-- An offset with another one put behind it is read only up to a character that ends it. -/
lemma readOffset_append {negative : Bool} {text : List Char} {offset : ℤ}
    (h : readOffset negative (text ++ zeroOffset) = some offset) :
    '\x00' ∈ text ∧
      readOffset negative (text.takeWhile fun c => c ≠ '\x00') = some offset := by
  obtain ⟨clock, hclock, hoffset⟩ := Option.bind_eq_some_iff.1 h
  have whole : clock.leftover = false := by
    by_contra left
    simp [left] at hoffset
  by_cases ended : '\x00' ∈ text
  · obtain ⟨shown, rest, rfl, visible⟩ := List.eq_append_cons_of_mem ended
    have cut : (shown ++ '\x00' :: rest).takeWhile (fun c => c ≠ '\x00') = shown := by
      rw [List.takeWhile_append_of_pos (fun c hc => by
        simpa using fun h : c = '\x00' => visible (h ▸ hc))]
      simp
    rw [List.append_assoc, List.cons_append] at hclock
    have stopped := readParts_of_stop (.inl rfl) visible (by simp [zeroOffset]) hclock whole
    refine ⟨ended, ?_⟩
    rw [cut, readOffset, readClock, stopped.2]
    exact hoffset
  · have stopped := readParts_of_stop (.inr rfl) ended (by decide) hclock whole
    exact absurd stopped.1 (by decide)

/-- A time of day ends at the first character that an offset starts with. -/
lemma readTime_cases {date : Date} {text : List Char} {time : Timestamp}
    (h : readTime date text = some time) :
    (∃ clock, readClock (text.takeWhile fun c => !isMark c) = some clock) ∧
      match text.dropWhile fun c => !isMark c with
      | [] => time.offset = none
      | mark :: rest =>
        if mark = 'Z' then time.offset = some 0
        else ∃ offset, readOffset (mark = '-') rest = some offset ∧ time.offset = some offset := by
  obtain ⟨clock, hclock, hrest⟩ := Option.bind_eq_some_iff.1 h
  refine ⟨⟨clock, hclock⟩, ?_⟩
  unfold isMark
  dsimp only at hrest
  generalize (text.dropWhile fun c => !(c = '+' || c = '-' || c = 'Z')) = behind at hrest ⊢
  split at hrest
  · split at hrest
    · contradiction
    · obtain rfl := Option.some.inj hrest
      rfl
  · split at hrest
    · obtain rfl := Option.some.inj hrest
      dsimp only
      rw [if_pos rfl]
    · contradiction
  · rename_i signed
    obtain ⟨offset, hoffset, htime⟩ := Option.bind_eq_some_iff.1 hrest
    obtain ⟨value, hvalue, rfl⟩ := Option.map_eq_some_iff.1 hoffset
    obtain rfl := Option.some.inj htime
    dsimp only
    rw [if_neg signed]
    exact ⟨value, hvalue, rfl⟩

/-- A time of day with an offset of zero put behind it has this offset, or its own. -/
lemma offset_of_readTime_append {date : Date} {text : List Char} {time : Timestamp}
    (h : readTime date (text ++ zeroOffset) = some time) :
    time.offset = some ((ownOffset? text).getD 0) ∧
      ((ownOffset? text).isSome → '\x00' ∈ text) ∧ 2 ≤ text.length := by
  obtain ⟨⟨clock, hclock⟩, hoffset⟩ := readTime_cases h
  have long : 2 ≤ text.length := by
    rw [takeWhile_append_offset (by decide)] at hclock
    obtain ⟨⟨value, rest⟩, hdigits, -⟩ := Option.bind_eq_some_iff.1 hclock
    obtain ⟨digits, hsplit, two, -⟩ := exists_digits_of_readDigits hdigits
    have hlength := (List.takeWhile_prefix (fun c => !isMark c) (l := text)).length_le
    rw [hsplit, List.length_append] at hlength
    omega
  have zero : zeroOffset.dropWhile (fun c => !isMark c) = '+' :: "00:00".toList := by decide
  rw [List.dropWhile_append, zero] at hoffset
  unfold ownOffset?
  cases hown : text.dropWhile fun c => !isMark c with
  | nil =>
    rw [hown] at hoffset
    obtain ⟨offset, hread, htime⟩ := hoffset
    have hzero : readOffset false "00:00".toList = some 0 := by decide
    obtain rfl : 0 = offset := Option.some.inj (hzero.symm.trans hread)
    exact ⟨htime, by simp, long⟩
  | cons mark rest =>
    rw [hown, List.isEmpty_cons, if_neg Bool.false_ne_true, List.cons_append] at hoffset
    dsimp only at hoffset ⊢
    split at hoffset
    · rename_i universal
      rw [if_pos universal]
      exact ⟨hoffset, by simp, long⟩
    · rename_i signed
      obtain ⟨offset, hread, htime⟩ := hoffset
      obtain ⟨ended, hcut⟩ := readOffset_append hread
      have hmem : '\x00' ∈ text := (List.dropWhile_sublist fun c => !isMark c).subset (by
        rw [hown]
        exact List.mem_cons_of_mem _ ended)
      rw [if_neg signed, hcut]
      exact ⟨htime, fun _ => hmem, long⟩

/-- A timestamp is a date and, if there is more, a time of day behind one character. -/
lemma readIso_cases {text : List Char} {time : Timestamp} (h : readIso text = some time) :
    ∃ length date, length = (if text.length = 7 then 7 else dateLength text) ∧
      readDate (text.take length) = some date ∧
      match text.drop length with
      | [] => time.offset = none
      | _ :: rest => readTime date rest = some time := by
  unfold readIso at h
  split at h
  · contradiction
  · obtain ⟨date, hdate, hrest⟩ := Option.bind_eq_some_iff.1 h
    refine ⟨_, date, rfl, hdate, ?_⟩
    dsimp only at hrest
    generalize text.drop (if text.length = 7 then 7 else dateLength text) = behind at hrest ⊢
    cases behind with
    | nil =>
      obtain ⟨made, hmade, hvalid⟩ := Option.bind_eq_some_iff.1 hrest
      split at hvalid
      · obtain rfl := Option.some.inj hvalid
        obtain rfl := Option.some.inj hmade
        rfl
      · contradiction
    | cons divider rest =>
      obtain ⟨made, hmade, hvalid⟩ := Option.bind_eq_some_iff.1 hrest
      split at hvalid
      · obtain rfl := Option.some.inj hvalid
        exact hmade
      · contradiction

/-- The date of a text with an offset of zero put behind it ends before the offset. -/
lemma place_of_readDate {text : List Char} {length : ℕ} {date : Date}
    (hlength : length = if (text ++ zeroOffset).length = 7 then 7
      else dateLength (text ++ zeroOffset))
    (h : readDate ((text ++ zeroOffset).take length) = some date) :
    length ≤ text.length ∧ length = dateLength (text ++ zeroOffset) := by
  have plus : '+' ∉ (text ++ zeroOffset).take length := by
    refine plus_notMem_of_readDate h ?_
    split at hlength
    · have hseven := List.length_take_le length (text ++ zeroOffset)
      split <;> omega
    · rw [hlength]
      exact length_take_dateLength_le _
  have hplace : length ≤ text.length := by
    by_contra far
    refine plus ?_
    obtain ⟨k, hk⟩ : ∃ k, length - text.length = k + 1 := ⟨length - text.length - 1, by omega⟩
    rw [List.take_append, List.mem_append, hk, zeroOffset, List.take_succ_cons]
    exact .inr List.mem_cons_self
  refine ⟨hplace, ?_⟩
  split at hlength
  · -- A text of seven characters would have a single one in front of the offset.
    have hoffset : (text ++ zeroOffset).length = text.length + 6 := List.length_append
    omega
  · exact hlength

/-- The offset of a timestamp that was read from a text with a `Z` at the end.  It has none if the
text is a date, and an offset of zero if a time of day follows, unless this has an offset of its own
in front of a character that ends the text. -/
theorem offset_of_read {text : String} {init : List Char} {time : Timestamp}
    (ends : text.toList = init ++ ['Z']) (h : read text = some time) :
    time.offset = (timePart? init).map (fun rest => (ownOffset? rest).getD 0) ∧
      ∀ rest ∈ timePart? init, (ownOffset? rest).isSome → '\x00' ∈ rest := by
  rw [read_of_ends ends] at h
  obtain ⟨length, date, hlength, hdate, hrest⟩ := readIso_cases h
  obtain ⟨hplace, rfl⟩ := place_of_readDate hlength hdate
  have hcases := dateLength_cases (init ++ zeroOffset)
  rw [List.drop_append_of_le_length hplace] at hrest
  cases hdrop : init.drop (dateLength (init ++ zeroOffset)) with
  | nil =>
    -- The sign of the offset is taken for the character that ends the date.
    rw [hdrop] at hrest
    have hbare : time.offset = none := (readTime_cases hrest).2
    have hlong := List.drop_eq_nil_iff.1 hdrop
    rw [dateLength_append (by omega) (by omega)] at hdrop
    simp [timePart?, hdrop, hbare]
  | cons divider rest =>
    rw [hdrop] at hrest
    obtain ⟨hoffset, hown, hlong⟩ := offset_of_readTime_append hrest
    have hlength : init.length = dateLength (init ++ zeroOffset) + (rest.length + 1) := by
      have htotal := congrArg List.length hdrop
      rw [List.length_drop, List.length_cons] at htotal
      omega
    rw [dateLength_append (by omega) (by omega)] at hdrop
    simpa [timePart?, hdrop] using ⟨hoffset, hown⟩

/-- A week date with a time of day is in universal time. -/
theorem offset_of_read_weekDate :
    let init := "2026-W01-2T03:04:05.5".toList
    let time : Timestamp := ⟨⟨2025, 12, 30⟩, 3, 4, 5, 500000, some 0⟩
    read "2026-W01-2T03:04:05.5Z" = some time ∧ timePart? init = some "03:04:05.5".toList ∧
      time.offset = (timePart? init).map fun rest => (ownOffset? rest).getD 0 := by
  intro init time
  have h : read "2026-W01-2T03:04:05.5Z" = some time := by decide +kernel
  exact ⟨h, by decide, (offset_of_read rfl h).1⟩

/-- A date alone is read without an offset, and an offset that stands in front of the end of the
text is kept. -/
theorem read_not_universal :
    read "2026-01-02Z" = some ⟨⟨2026, 1, 2⟩, 0, 0, 0, 0, none⟩ ∧
      read "2026-01-02T03:04+05:30:00.123456\x00Z" =
        some ⟨⟨2026, 1, 2⟩, 3, 4, 0, 0, some 19800123456⟩ := by
  constructor <;> decide +kernel

end Timestamp

end ChatHistory
