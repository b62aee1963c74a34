import ChatHistory.Json.Writer
import ChatHistory.Proofs.Assoc
import ChatHistory.Proofs.Json.Reader

/-!
# Reading what was written

The text of a JSON value reads back as the value (`read_write`).  Left out are doubles and whole
numbers that are too long for a numeral, which have no text that is read as they are, and objects
with two fields of one name, which no text describes.  `IsExact` says which values remain; they may
be nested to any depth.  So two such values with the same text are equal (`eq_of_write_eq`).

The reader is followed along the writer: the characters of a string (`readChars_escape`), the digits
of a number (`readNumber_toDigits`), and then values, items and fields together (`reads_of_bound`).
Behind a value there is nothing or the end of a member (`IsEnd`), so no number is read too far, and
the reader needs no more steps than the text has characters.
-/

namespace ChatHistory.Json

open Text

/-- Values that their text describes completely. -/
inductive IsExact : Json → Prop
  | null : IsExact .null
  | bool (value : Bool) : IsExact (.bool value)
  | int (value : ℤ) (writable : Numeral.isWritable value) : IsExact (.int value)
  | string (value : String) : IsExact (.string value)
  | array (items : List Json) (exact : ∀ item ∈ items, IsExact item) : IsExact (.array items)
  | object (fields : Fields) (distinct : (fields.map Prod.fst).Nodup)
      (exact : ∀ field ∈ fields, IsExact field.2) : IsExact (.object fields)

/-! ## Strings -/

lemma hexDigitValue?_hexDigit (n : ℕ) : hexDigitValue? (hexDigit n) = some (n % 16) := by
  have hdigit : ∀ d, d < 16 → hexDigitValue? (Nat.digitChar d) = some d := by decide
  exact hdigit (n % 16) (Nat.mod_lt n (by decide))

/-- The escape of a control character reads back. -/
lemma readEscape_control {c : Char} (control : c < ' ') (rest : List Char) :
    readEscape ('u' :: '0' :: '0' :: hexDigit (c.toNat / 16) :: hexDigit c.toNat :: rest) =
      .ok (c, rest) := by
  have low : c.toNat < 32 := control
  have hvalue : ofDigits 16 [0, 0, c.toNat / 16 % 16, c.toNat % 16] = c.toNat := by
    simp [ofDigits]
    omega
  have hunit : readUnit ('0' :: '0' :: hexDigit (c.toNat / 16) :: hexDigit c.toNat :: rest) =
      .ok (c.toNat, rest) := by
    have hzero : hexDigitValue? '0' = some 0 := rfl
    simp [readUnit, hexDigitValue?_hexDigit, hzero, hvalue]
  have hhigh : isHighSurrogate c.toNat = false := by
    simp [isHighSurrogate]
    omega
  have hlow : isLowSurrogate c.toNat = false := by
    simp [isLowSurrogate]
    omega
  simp [readEscape, readEscapedUnit, hunit, charOfUnit, hhigh, hlow]

/-- Whatever stands for a character in a string reads back as the character. -/
lemma readChars_escape (bound : ℕ) (c : Char) (rest : List Char) :
    readChars (bound + 1) (escape c ++ rest) = do
      let (cs, rest) ← readChars bound rest
      return (c :: cs, rest) := by
  have backslash {d : Char} {text : List Char} (same : c = d)
      (h : readEscape text = .ok (d, rest)) :
      readChars (bound + 1) ('\\' :: text) = do
        let (cs, rest) ← readChars bound rest
        return (c :: cs, rest) := by
    rw [readChars, if_neg (by decide), if_pos rfl, h, same]
    rfl
  unfold escape
  split_ifs with quote slash newline carriage tab backspace feed control
  · exact backslash quote rfl
  · exact backslash slash rfl
  · exact backslash newline rfl
  · exact backslash carriage rfl
  · exact backslash tab rfl
  · exact backslash backspace rfl
  · exact backslash feed rfl
  · exact backslash rfl (readEscape_control control rest)
  · rw [List.singleton_append, readChars, if_neg quote, if_neg slash, if_neg control]

/-- The characters of a written string read back. -/
lemma readChars_flatMap_escape {bound : ℕ} {cs : List Char} (h : cs.length < bound)
    (rest : List Char) :
    readChars bound (cs.flatMap escape ++ '"' :: rest) = .ok (cs, rest) := by
  induction cs generalizing bound with
  | nil =>
    obtain ⟨bound, rfl⟩ := Nat.exists_eq_add_of_lt h
    simp [readChars]
  | cons c cs ih =>
    obtain ⟨bound, rfl⟩ : ∃ steps, bound = steps + 1 := ⟨bound - 1, by omega⟩
    rw [List.flatMap_cons, List.append_assoc, readChars_escape,
      ih (by simpa using h)]
    rfl

lemma length_le_length_flatMap_escape (cs : List Char) :
    cs.length ≤ (cs.flatMap escape).length := by
  induction cs with
  | nil => rfl
  | cons c cs ih =>
    have hpos : 1 ≤ (escape c).length := by
      unfold escape
      split_ifs <;> simp
    rw [List.flatMap_cons, List.length_append, List.length_cons]
    omega

/-- A written string reads back, behind its opening quote. -/
lemma readString_flatMap_escape (s : String) (rest : List Char) :
    readString (s.toList.flatMap escape ++ '"' :: rest) = .ok (s, rest) := by
  have hlength := length_le_length_flatMap_escape s.toList
  rw [readString, readChars_flatMap_escape]
  · simp
  · rw [List.length_append, List.length_cons]
    omega

/-! ## Numbers -/

/-- What may stand behind a value: nothing, or what ends a member of a composite value. -/
def IsEnd (rest : List Char) : Prop :=
  ∀ c ∈ rest.head?, c = ',' ∨ c = ']' ∨ c = '}'

lemma isEnd_nil : IsEnd [] := by
  simp [IsEnd]

lemma isEnd_cons {c : Char} (h : c = ',' ∨ c = ']' ∨ c = '}') (rest : List Char) :
    IsEnd (c :: rest) := by
  simpa [IsEnd] using h

/-- No end of a value can be part of a number. -/
lemma IsEnd.cases {rest : List Char} (h : IsEnd rest) :
    rest = [] ∨ ∃ c behind, rest = c :: behind ∧ isAsciiDigit c = false ∧ c ≠ '.' ∧ c ≠ 'e' ∧
      c ≠ 'E' := by
  cases rest with
  | nil => exact .inl rfl
  | cons c behind =>
    right
    refine ⟨c, behind, rfl, ?_⟩
    rcases h c rfl with rfl | rfl | rfl <;> decide

lemma isAsciiDigit_of_isDigit {c : Char} (h : c.isDigit) : isAsciiDigit c := by
  simpa [isAsciiDigit, Char.isDigit, Char.le_def] using h

/-- The digits of a number have its value. -/
lemma asciiNumber_toDigits (n : ℕ) : asciiNumber (Nat.toDigits 10 n) = n := by
  have hvalue : ∀ c ∈ Nat.toDigits 10 n,
      (asciiDigitValue? c).getD 0 = c.toNat - '0'.toNat := by
    intro c hc
    have digit := isAsciiDigit_of_isDigit (Nat.isDigit_of_mem_toDigits (by decide) (by decide) hc)
    simp only [isAsciiDigit, Bool.and_eq_true, decide_eq_true_eq] at digit
    rw [asciiDigitValue?, if_pos digit, Option.getD_some]
  calc
    asciiNumber (Nat.toDigits 10 n) = Nat.ofDigitChars 10 (Nat.toDigits 10 n) 0 := by
      rw [asciiNumber, List.map_congr_left hvalue, ofDigits, List.foldl_map]
      rfl
    _ = n := Nat.ofDigitChars_ten_toDigits

/-- The digits of a positive number do not begin with a zero. -/
lemma head?_toDigits_ne {n : ℕ} (h : 0 < n) : (Nat.toDigits 10 n).head? ≠ some '0' := by
  induction n using Nat.strong_induction_on with
  | _ n ih =>
    rw [Nat.toDigits_eq_if (by decide)]
    split
    · rw [List.head?_cons, ne_eq, Option.some.injEq, Nat.digitChar_eq_zero]
      omega
    · have hfewer := ih (n / 10) (by omega) (by omega)
      rw [List.head?_append]
      cases hdigits : Nat.toDigits 10 (n / 10) with
      | nil => exact absurd hdigits Nat.toDigits_ne_nil
      | cons c cs => rwa [hdigits] at hfewer

/-- The digits of a number are read up to their end. -/
lemma takeWhole_toDigits (n : ℕ) {rest : List Char} (h : IsEnd rest) :
    takeWhole (Nat.toDigits 10 n ++ rest) = (Nat.toDigits 10 n, rest) := by
  rcases Nat.eq_zero_or_pos n with rfl | hpos
  · rfl
  · have digits : ∀ c ∈ Nat.toDigits 10 n, isAsciiDigit c := fun c hc =>
      isAsciiDigit_of_isDigit (Nat.isDigit_of_mem_toDigits (by decide) (by decide) hc)
    have stop : rest.takeWhile isAsciiDigit = [] ∧ rest.dropWhile isAsciiDigit = rest := by
      rcases h.cases with rfl | ⟨c, behind, rfl, digit, -⟩
      · exact ⟨rfl, rfl⟩
      · simp [digit]
    have hfirst := head?_toDigits_ne hpos
    unfold takeWhole
    split
    · rename_i hzero
      cases hdigits : Nat.toDigits 10 n with
      | nil => exact absurd hdigits Nat.toDigits_ne_nil
      | cons c cs => simp_all
    · rw [takeDigits, List.takeWhile_append_of_pos digits, List.dropWhile_append_of_pos digits,
        stop.1, stop.2, List.append_nil]

lemma length_toDigits_le {n digits : ℕ} (h : n < Nat.pow 10 digits) (hpos : 0 < digits) :
    (Nat.toDigits 10 n).length ≤ digits :=
  (Nat.length_toDigits_le_iff (by decide) hpos).2 h

/-- The digits of a number that is not too long read back, with the sign that was read. -/
lemma readNumber_toDigits (negative : Bool) {n : ℕ} (short : n < Nat.pow 10 Numeral.maxDigits)
    {rest : List Char} (h : IsEnd rest) :
    readNumber negative (Nat.toDigits 10 n ++ rest) =
      .ok (.int (if negative then -(n : ℤ) else n), rest) := by
  have hfraction : takeFraction rest = ([], rest) := by
    rcases h.cases with rfl | ⟨c, behind, rfl, -, point, -⟩
    · rfl
    · unfold takeFraction
      split
      · rename_i hpoint
        exact absurd (List.cons.inj hpoint).1 point
      · rfl
  have hexponent : takeExponent rest = (none, rest) := by
    rcases h.cases with rfl | ⟨c, behind, rfl, -, -, small, capital⟩
    · rfl
    · simp [takeExponent, small, capital]
  have hlength : (Nat.toDigits 10 n).length ≤ Numeral.maxDigits :=
    length_toDigits_le short (by decide)
  rw [readNumber, takeWhole_toDigits n h]
  cases hdigits : Nat.toDigits 10 n with
  | nil => exact absurd hdigits Nat.toDigits_ne_nil
  | cons c cs =>
    simp only [hfraction, hexponent]
    rw [← hdigits, if_neg (Nat.not_lt.2 hlength), asciiNumber_toDigits]

/-- A minus in front of a digit is the sign of a number. -/
lemma readScalar_minus {c : Char} (digit : isAsciiDigit c) (rest : List Char) :
    readScalar ('-' :: c :: rest) = readNumber true (c :: rest) := by
  have hword : c ≠ 'I' := ne_of_isAsciiDigit digit rfl
  simp [readScalar, wordValues, List.isPrefixOf?, hword.symm]

/-- A value that is neither a string nor composite is read as such. -/
lemma readValue_of_plain {c : Char} (plain : c ≠ '"' ∧ c ≠ '[' ∧ c ≠ '{') (bound : ℕ)
    (text : List Char) : readValue (bound + 1) (c :: text) = readScalar (c :: text) := by
  rw [readValue.eq_def]
  dsimp only
  split
  · rename_i hopen
    exact absurd (List.cons.inj hopen).1 plain.1
  · rename_i hopen
    exact absurd (List.cons.inj hopen).1 plain.2.1
  · rename_i hopen
    exact absurd (List.cons.inj hopen).1 plain.2.2
  · rfl

/-- A digit that begins the text of a number. -/
lemma exists_toDigits_cons (n : ℕ) :
    ∃ c digits, Nat.toDigits 10 n = c :: digits ∧ isAsciiDigit c := by
  cases hdigits : Nat.toDigits 10 n with
  | nil => exact absurd hdigits Nat.toDigits_ne_nil
  | cons c digits =>
    have hc : c ∈ Nat.toDigits 10 n := by simp [hdigits]
    exact ⟨c, digits, rfl,
      isAsciiDigit_of_isDigit (Nat.isDigit_of_mem_toDigits (by decide) (by decide) hc)⟩

/-- A whole number reads back if numerals can write it. -/
lemma readValue_intDigits (bound : ℕ) {n : ℤ} (writable : Numeral.isWritable n)
    {rest : List Char} (h : IsEnd rest) :
    readValue (bound + 1) (intDigits n ++ rest) = .ok (.int n, rest) := by
  have short : n.natAbs < Nat.pow 10 Numeral.maxDigits := by
    simpa [Numeral.isWritable] using writable
  obtain ⟨c, digits, hdigits, digit⟩ := exists_toDigits_cons n.natAbs
  unfold intDigits
  split
  · rename_i negative
    have hvalue : (if true then -(n.natAbs : ℤ) else n.natAbs) = n := by
      rw [if_pos rfl]
      omega
    have hnumber := readNumber_toDigits true short h
    rw [hdigits] at hnumber ⊢
    rw [List.cons_append, readValue_of_plain (by decide), List.cons_append,
      readScalar_minus digit, ← List.cons_append, hnumber, hvalue]
  · rename_i positive
    have hvalue : (if false then -(n.natAbs : ℤ) else n.natAbs) = n := by
      rw [if_neg Bool.false_ne_true]
      omega
    have hnumber := readNumber_toDigits false short h
    rw [hdigits] at hnumber ⊢
    rw [List.cons_append, readValue_of_plain, readScalar_of_digit digit, ← List.cons_append,
      hnumber, hvalue]
    exact ⟨ne_of_isAsciiDigit digit rfl, ne_of_isAsciiDigit digit rfl,
      ne_of_isAsciiDigit digit rfl⟩

/-! ## Values -/

lemma writeWith_array_cons (depth : ℕ) (item : Json) (items : List Json) :
    writeWith .inline depth (.array (item :: items)) =
      '[' :: (writeWith .inline (depth + 1) item ++ (writeItems .inline depth items ++ [']'])) := by
  simp [writeWith, Spacing.inline]

lemma writeItems_cons (depth : ℕ) (item : Json) (items : List Json) :
    writeItems .inline depth (item :: items) =
      ',' :: ' ' :: (writeWith .inline (depth + 1) item ++ writeItems .inline depth items) := by
  simp [writeItems, Spacing.inline]

/-- The text of a field on one line. -/
def writeField (depth : ℕ) (field : String × Json) : List Char :=
  '"' :: (field.1.toList.flatMap escape ++ '"' :: ':' :: ' ' ::
    writeWith .inline (depth + 1) field.2)

lemma writeWith_object_cons (depth : ℕ) (field : String × Json) (fields : Fields) :
    writeWith .inline depth (.object (field :: fields)) =
      '{' :: (writeField depth field ++ (writeFields .inline depth fields ++ ['}'])) := by
  simp [writeWith, writeField, writeString, Spacing.inline]

lemma writeFields_cons (depth : ℕ) (field : String × Json) (fields : Fields) :
    writeFields .inline depth (field :: fields) =
      ',' :: ' ' :: (writeField depth field ++ writeFields .inline depth fields) := by
  simp [writeFields, writeField, writeString, Spacing.inline]

/-- A text that begins with a character that is no gap has no gap in front of it. -/
lemma skipGap_cons {c : Char} (solid : isGap c = false) (text : List Char) :
    skipGap (c :: text) = c :: text := by
  simp [skipGap, solid]

/-- The text of a value begins with a character that is neither a gap nor a closing bracket. -/
lemma exists_writeWith_cons (depth : ℕ) {value : Json} (h : IsExact value) :
    ∃ c text, writeWith .inline depth value = c :: text ∧ isGap c = false ∧ c ≠ ']' := by
  cases h with
  | null => exact ⟨'n', _, rfl, rfl, by decide⟩
  | bool value =>
    cases value with
    | true => exact ⟨'t', _, rfl, rfl, by decide⟩
    | false => exact ⟨'f', _, rfl, rfl, by decide⟩
  | int value writable =>
    obtain ⟨c, digits, hdigits, digit⟩ := exists_toDigits_cons value.natAbs
    rw [writeWith, intDigits, hdigits]
    split
    · exact ⟨'-', _, rfl, rfl, by decide⟩
    · refine ⟨c, digits, rfl, ?_, ne_of_isAsciiDigit digit rfl⟩
      have hne (d : Char) (other : isAsciiDigit d = false) : c ≠ d :=
        ne_of_isAsciiDigit digit other
      simp [isGap, hne ' ' rfl, hne '\t' rfl, hne '\n' rfl, hne '\r' rfl]
  | string value => exact ⟨'"', _, rfl, rfl, by decide⟩
  | array items exact =>
    cases items with
    | nil => exact ⟨'[', _, rfl, rfl, by decide⟩
    | cons item items => exact ⟨'[', _, rfl, rfl, by decide⟩
  | object fields distinct exact =>
    cases fields with
    | nil => exact ⟨'{', _, rfl, rfl, by decide⟩
    | cons field fields => exact ⟨'{', _, rfl, rfl, by decide⟩

/-- An array with items is read behind its bracket. -/
lemma readValue_array {bound : ℕ} {c : Char} {text rest : List Char} {items : List Json}
    (solid : isGap c = false) (filled : c ≠ ']')
    (hread : readItems bound (c :: text) = .ok (items, rest)) :
    readValue (bound + 1) ('[' :: c :: text) = .ok (.array items, rest) := by
  rw [readValue, skipGap_cons solid]
  split
  · rename_i hclose
    exact absurd (List.cons.inj hclose).1 filled
  · rw [hread]
    rfl

/-- An object with fields is read behind its brace. -/
lemma readValue_object {bound : ℕ} {c : Char} {text rest : List Char} {entries : Fields}
    (solid : isGap c = false) (filled : c ≠ '}')
    (hread : readEntries bound (c :: text) = .ok (entries, rest)) :
    readValue (bound + 1) ('{' :: c :: text) = .ok (.object (Assoc.ofEntries entries), rest) := by
  rw [readValue, skipGap_cons solid]
  split
  · rename_i hclose
    exact absurd (List.cons.inj hclose).1 filled
  · rw [hread]
    rfl

/-- A space in front of a value is skipped. -/
lemma skipGap_space (depth : ℕ) {value : Json} (h : IsExact value) (behind : List Char) :
    skipGap (' ' :: (writeWith .inline depth value ++ behind)) =
      writeWith .inline depth value ++ behind := by
  obtain ⟨c, text, htext, solid, -⟩ := exists_writeWith_cons depth h
  rw [htext]
  exact skipGap_cons solid _

section Member

variable {bound depth : ℕ} {item : Json} {field : String × Json}
  {text behind rest after : List Char}

/-- The last item of an array is read up to the closing bracket. -/
lemma readItems_last (hread : readValue bound text = .ok (item, ']' :: rest)) :
    readItems (bound + 1) text = .ok ([item], rest) := by
  rw [readItems, hread]
  rfl

/-- Another item of an array is read up to the comma, and then the items behind it. -/
lemma readItems_more {items : List Json} (hread : readValue bound text = .ok (item, ',' :: rest))
    (hmore : readItems bound (skipGap rest) = .ok (items, after)) :
    readItems (bound + 1) text = .ok (item :: items, after) := by
  rw [readItems, hread]
  change (readItems bound (skipGap rest) >>= _) = _
  rw [hmore]
  rfl

/-- The last field of an object is read up to the closing brace. -/
lemma readEntries_last (exact : IsExact field.2)
    (hread : readValue bound (writeWith .inline (depth + 1) field.2 ++ behind) =
      .ok (field.2, '}' :: rest)) :
    readEntries (bound + 1) (writeField depth field ++ behind) = .ok ([field], rest) := by
  rw [← skipGap_space _ exact] at hread
  simp only [writeField, List.cons_append, List.append_assoc]
  rw [readEntries, readString_flatMap_escape]
  change (readValue bound (skipGap (' ' :: _)) >>= _) = _
  rw [hread]
  rfl

/-- Another field of an object is read up to the comma, and then the fields behind it. -/
lemma readEntries_more {fields : Fields} (exact : IsExact field.2)
    (hread : readValue bound (writeWith .inline (depth + 1) field.2 ++ behind) =
      .ok (field.2, ',' :: rest))
    (hmore : readEntries bound (skipGap rest) = .ok (fields, after)) :
    readEntries (bound + 1) (writeField depth field ++ behind) = .ok (field :: fields, after) := by
  rw [← skipGap_space _ exact] at hread
  simp only [writeField, List.cons_append, List.append_assoc]
  rw [readEntries, readString_flatMap_escape]
  change (readValue bound (skipGap (' ' :: _)) >>= _) = _
  rw [hread]
  change (readEntries bound (skipGap rest) >>= _) = _
  rw [hmore]
  rfl

end Member

/-- The text of an exact value is read back with the given number of steps if it has no more
characters. -/
def Reads (bound : ℕ) : Prop :=
  ∀ depth value rest, IsExact value → IsEnd rest →
    (writeWith .inline depth value).length ≤ bound →
      readValue bound (writeWith .inline depth value ++ rest) = .ok (value, rest)

/-- The items of an array are read back, up to its closing bracket. -/
def ReadsItems (bound : ℕ) : Prop :=
  ∀ depth item items rest, (∀ member ∈ item :: items, IsExact member) →
    (writeWith .inline (depth + 1) item).length + (writeItems .inline depth items).length < bound →
      readItems bound (writeWith .inline (depth + 1) item ++
        (writeItems .inline depth items ++ ']' :: rest)) = .ok (item :: items, rest)

/-- The fields of an object are read back, up to its closing brace. -/
def ReadsFields (bound : ℕ) : Prop :=
  ∀ depth field fields rest, (∀ member ∈ field :: fields, IsExact member.2) →
    (writeField depth field).length + (writeFields .inline depth fields).length < bound →
      readEntries bound (writeField depth field ++
        (writeFields .inline depth fields ++ '}' :: rest)) = .ok (field :: fields, rest)

/-- A value takes one step more than its members. -/
lemma reads_succ {bound : ℕ} (hitems : ReadsItems bound) (hfields : ReadsFields bound) :
    Reads (bound + 1) := by
  intro depth value rest exact hend hlength
  cases exact with
  | null => exact readValue_of_plain (by decide) bound _
  | bool value => cases value <;> exact readValue_of_plain (by decide) bound _
  | int value writable =>
    rw [writeWith]
    exact readValue_intDigits bound writable hend
  | string value =>
    have htext : writeWith .inline depth (.string value) ++ rest =
        '"' :: (value.toList.flatMap escape ++ '"' :: rest) := by
      simp [writeWith, writeString]
    rw [htext, readValue, readString_flatMap_escape]
    rfl
  | array items exact =>
    cases items with
    | nil => rfl
    | cons item items =>
      rw [writeWith_array_cons] at hlength ⊢
      have hread := hitems depth item items rest exact (by simp at hlength; omega)
      obtain ⟨c, text, htext, solid, filled⟩ :=
        exists_writeWith_cons (depth + 1) (exact item List.mem_cons_self)
      simp only [List.cons_append, List.append_assoc, List.nil_append]
      rw [htext] at hread ⊢
      exact readValue_array solid filled hread
  | object fields distinct exact =>
    cases fields with
    | nil => rfl
    | cons field fields =>
      rw [writeWith_object_cons] at hlength ⊢
      have hread := hfields depth field fields rest exact (by simp at hlength; omega)
      simp only [writeField, List.cons_append, List.append_assoc, List.nil_append] at hread ⊢
      have hvalue := readValue_object rfl (by decide) hread
      rwa [Assoc.ofEntries_of_nodup distinct] at hvalue

/-- An item takes one step more than its value, and the items behind it the same. -/
lemma readsItems_succ {bound : ℕ} (hvalue : Reads bound) (hitems : ReadsItems bound) :
    ReadsItems (bound + 1) := by
  intro depth item items rest exact hlength
  obtain ⟨hitem, hrest⟩ := List.forall_mem_cons.1 exact
  cases items with
  | nil =>
    rw [writeItems, List.nil_append]
    apply readItems_last
    exact hvalue (depth + 1) item _ hitem (isEnd_cons (by simp) rest) (by omega)
  | cons next items =>
    rw [writeItems_cons] at hlength ⊢
    rw [List.length_cons, List.length_cons, List.length_append] at hlength
    have hmore := hitems depth next items rest hrest (by omega)
    simp only [List.cons_append, List.append_assoc]
    apply readItems_more
    · exact hvalue (depth + 1) item _ hitem (isEnd_cons (.inl rfl) _) (by omega)
    · rw [skipGap_space _ (hrest next List.mem_cons_self), hmore]

/-- A field takes one step more than its value, and the fields behind it the same. -/
lemma readsFields_succ {bound : ℕ} (hvalue : Reads bound) (hfields : ReadsFields bound) :
    ReadsFields (bound + 1) := by
  intro depth field fields rest exact hlength
  obtain ⟨hfield, hrest⟩ := List.forall_mem_cons.1 exact
  have hfieldLength : (writeWith .inline (depth + 1) field.2).length <
      (writeField depth field).length := by
    simp [writeField]
    omega
  cases fields with
  | nil =>
    rw [writeFields, List.nil_append]
    apply readEntries_last hfield
    exact hvalue (depth + 1) field.2 _ hfield (isEnd_cons (by simp) rest) (by omega)
  | cons next fields =>
    rw [writeFields_cons] at hlength ⊢
    rw [List.length_cons, List.length_cons, List.length_append] at hlength
    have hmore := hfields depth next fields rest hrest (by omega)
    have hgap : skipGap (' ' :: (writeField depth next ++
        (writeFields .inline depth fields ++ '}' :: rest))) =
          writeField depth next ++ (writeFields .inline depth fields ++ '}' :: rest) :=
      skipGap_cons (c := '"') rfl _
    simp only [List.cons_append, List.append_assoc]
    apply readEntries_more hfield
    · exact hvalue (depth + 1) field.2 _ hfield (isEnd_cons (.inl rfl) _) (by omega)
    · rw [hgap, hmore]

/-- With as many steps as a text has characters, values, items and fields are read back. -/
lemma reads_of_bound (bound : ℕ) : Reads bound ∧ ReadsItems bound ∧ ReadsFields bound := by
  induction bound with
  | zero =>
    refine ⟨?_, ?_, ?_⟩
    · intro depth value rest exact hend hlength
      obtain ⟨c, text, htext, -⟩ := exists_writeWith_cons depth exact
      simp [htext] at hlength
    · intro depth item items rest exact hlength
      omega
    · intro depth field fields rest exact hlength
      omega
  | succ bound ih =>
    obtain ⟨hvalue, hitems, hfields⟩ := ih
    exact ⟨reads_succ hitems hfields, readsItems_succ hvalue hitems,
      readsFields_succ hvalue hfields⟩

/-- The text of an exact value reads back as the value. -/
theorem read_write {value : Json} (h : IsExact value) : read value.write = .ok value := by
  obtain ⟨c, text, htext, solid, -⟩ := exists_writeWith_cons 0 h
  have hgap : skipGap value.write = value.write := by
    rw [write, htext]
    exact skipGap_cons solid text
  have hread : readValue (2 * value.write.length + 2) (value.write ++ []) = .ok (value, []) :=
    (reads_of_bound _).1 0 value [] h isEnd_nil (by rw [write]; omega)
  rw [List.append_nil] at hread
  rw [read, hgap, hread]
  rfl

/-- Two exact values with the same text are equal. -/
theorem eq_of_write_eq {value other : Json} (h : IsExact value) (h' : IsExact other)
    (same : value.write = other.write) : value = other := by
  have hread := read_write h
  rw [same, read_write h'] at hread
  exact (Except.ok.inj hread).symm

end ChatHistory.Json
