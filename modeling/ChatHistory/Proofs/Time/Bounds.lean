import ChatHistory.Time.Reader
import Mathlib.Algebra.BigOperators.Group.List.Basic
import Mathlib.Algebra.Order.Ring.Nat
import Mathlib.Data.List.Induction
import Mathlib.Tactic.Common

/-!
# Timestamps within the calendar

A timestamp that was read exists, to the microsecond, and has an offset of less than a day
(`read_sound`).  Its reading in a zone goes through other instants, which have to lie within the
calendar (`exists_inZone_iff`).  They are no more than two days away, so that they do unless the
year of the timestamp is the first or the last one (`hasReading_of_inner_year`).
-/

namespace ChatHistory

namespace Date

/-- The days up to the last one of a month are days of the year. -/
lemma sum_take_add_monthLength_le (year month : ℕ) :
    ((monthLengths year).take (month - 1)).sum + monthLength year month ≤ 366 := by
  have hyear : (monthLengths year).sum ≤ 366 := by
    cases h : isLeap year <;> simp [monthLengths, h]
  have hparts := List.sum_take_add_sum_drop (monthLengths year) (month - 1)
  unfold monthLength
  split
  · omega
  · cases hlength : (monthLengths year)[month - 1]? with
    | none =>
      rw [Option.getD_none]
      omega
    | some length =>
      obtain ⟨hindex, rfl⟩ := List.getElem?_eq_some_iff.1 hlength
      rw [List.drop_eq_getElem_cons hindex, List.sum_cons] at hparts
      rw [Option.getD_some]
      omega

/-- The days of a year are numbered behind those of the years before. -/
lemma number_bounds {date : Date} (h : date.isValid) :
    daysBeforeYear date.year < date.number ∧ date.number ≤ daysBeforeYear date.year + 366 := by
  simp only [isValid, Bool.and_eq_true, decide_eq_true_eq] at h
  obtain ⟨⟨-, first⟩, last⟩ := h
  have hmonth := sum_take_add_monthLength_le date.year date.month
  rw [number, ← List.sum_eq_foldl_nat]
  omega

end Date

namespace Timestamp

open Text

/-! ## What is read -/

/-- A timestamp that exists, to the microsecond, with an offset of less than a day if it has
one. -/
structure Sound (time : Timestamp) : Prop where
  valid : time.isValid
  microsecond : time.microsecond < perSecond
  offset : ∀ offset ∈ time.offset, offset.natAbs < perDay

/-- Digits write a number that has no more of them. -/
lemma ofDigits_lt {digits : List ℕ} (h : ∀ d ∈ digits, d < 10) :
    ofDigits 10 digits < 10 ^ digits.length := by
  induction digits using List.reverseRecOn with
  | nil => exact Nat.one_pos
  | append_singleton digits d ih =>
    have hdigits := ih fun e he => h e (List.mem_append_left _ he)
    have hd := h d (List.mem_append_right _ List.mem_cons_self)
    have hstep : ofDigits 10 (digits ++ [d]) = 10 * ofDigits 10 digits + d := by
      simp [ofDigits]
    rw [hstep, List.length_append, List.length_singleton, Nat.pow_succ]
    omega

lemma asciiNumber_lt (digits : List Char) : asciiNumber digits < 10 ^ digits.length := by
  have hdigits : ∀ d ∈ digits.map fun c => (asciiDigitValue? c).getD 0, d < 10 := by
    intro d hd
    obtain ⟨c, -, rfl⟩ := List.mem_map.1 hd
    unfold asciiDigitValue?
    split
    · rename_i digit
      have hhigh : c.toNat ≤ 57 := digit.2
      change c.toNat - 48 < 10
      omega
    · decide
  simpa [asciiNumber] using ofDigits_lt hdigits

lemma readDigits_lt {count value : ℕ} {text rest : List Char}
    (h : readDigits count text = some (value, rest)) : value < 10 ^ count := by
  dsimp only [readDigits] at h
  split at h
  · rename_i hdigits
    obtain ⟨rfl, -⟩ := Prod.ext_iff.1 (Option.some.inj h)
    simpa [hdigits.1] using asciiNumber_lt (text.take count)
  · contradiction

/-- A fraction has less than a second. -/
lemma microsecond_of_readFraction {parts : List ℕ} {text : List Char} {clock : Clock}
    (h : readFraction parts text = some clock) : clock.microsecond < perSecond := by
  obtain ⟨⟨value, rest⟩, hdigits, hclock⟩ := Option.bind_eq_some_iff.1 h
  obtain rfl := Option.some.inj hclock
  have hvalue := readDigits_lt hdigits
  calc value * 10 ^ (6 - min 6 text.length)
      < 10 ^ min 6 text.length * 10 ^ (6 - min 6 text.length) :=
        Nat.mul_lt_mul_of_pos_right hvalue (Nat.pow_pos (by decide))
    _ = 10 ^ 6 := by rw [← Nat.pow_add, Nat.add_sub_cancel' (Nat.min_le_left _ _)]
    _ = perSecond := rfl

lemma microsecond_of_readParts {count : ℕ} {colons : Bool} {parts : List ℕ} {text : List Char}
    {clock : Clock} (h : readParts count colons parts text = some clock) :
    clock.microsecond < perSecond := by
  induction count generalizing colons parts text clock with
  | zero => exact microsecond_of_readFraction h
  | succ count ih =>
    obtain ⟨⟨part, rest⟩, -, h⟩ := Option.bind_eq_some_iff.1 h
    have hsecond : 0 < perSecond := by decide
    dsimp only at h
    split at h
    · obtain rfl := Option.some.inj h
      exact hsecond
    · split at h
      · obtain rfl := Option.some.inj h
        exact hsecond
      · contradiction
    · -- A part that is not the last is followed by another one or by a fraction.
      split_ifs at h
      all_goals first | contradiction | exact ih h | exact microsecond_of_readFraction h

/-- An offset is less than a day. -/
lemma natAbs_of_readOffset {negative : Bool} {text : List Char} {offset : ℤ}
    (h : readOffset negative text = some offset) : offset.natAbs < perDay := by
  obtain ⟨clock, -, h⟩ := Option.bind_eq_some_iff.1 h
  split at h
  · contradiction
  · have hpositive : 0 ≤ if secondsOf clock.parts = 0 then (0 : ℤ)
        else secondsOf clock.parts * perSecond + clock.microsecond := by
      split
      · exact Int.le_refl 0
      · exact Int.add_nonneg (Int.mul_nonneg (Int.natCast_nonneg _) (Int.natCast_nonneg _))
          (Int.natCast_nonneg _)
    dsimp only at h
    generalize (if secondsOf clock.parts = 0 then (0 : ℤ)
        else secondsOf clock.parts * perSecond + clock.microsecond) = magnitude at h hpositive
    split at h
    · cases negative
      all_goals
        obtain rfl := Option.some.inj h
        simp only [Bool.false_eq_true, if_false, if_true]
        omega
    · contradiction

lemma sound_of_readTime {date : Date} {text : List Char} {time : Timestamp}
    (h : readTime date text = some time) :
    time.microsecond < perSecond ∧ ∀ offset ∈ time.offset, offset.natAbs < perDay := by
  obtain ⟨clock, hclock, h⟩ := Option.bind_eq_some_iff.1 h
  have hmicrosecond := microsecond_of_readParts hclock
  dsimp only at h
  split at h
  · split at h
    · contradiction
    · obtain rfl := Option.some.inj h
      exact ⟨hmicrosecond, by simp⟩
  · split at h
    · obtain rfl := Option.some.inj h
      exact ⟨hmicrosecond, by simp [perDay, perSecond]⟩
    · contradiction
  · obtain ⟨offset, hoffset, h⟩ := Option.bind_eq_some_iff.1 h
    obtain ⟨value, hvalue, rfl⟩ := Option.map_eq_some_iff.1 hoffset
    obtain rfl := Option.some.inj h
    refine ⟨hmicrosecond, fun other hother => ?_⟩
    obtain rfl := Option.some.inj hother
    exact natAbs_of_readOffset hvalue

lemma sound_of_readIso {text : List Char} {time : Timestamp} (h : readIso text = some time) :
    time.Sound := by
  unfold readIso at h
  split at h
  · contradiction
  · obtain ⟨date, -, h⟩ := Option.bind_eq_some_iff.1 h
    dsimp only at h
    split at h
    · obtain ⟨made, hmade, h⟩ := Option.bind_eq_some_iff.1 h
      split at h
      · rename_i valid
        obtain rfl := Option.some.inj h
        obtain rfl := Option.some.inj hmade
        exact ⟨valid, Nat.pos_of_ne_zero (by decide), by simp⟩
      · contradiction
    · obtain ⟨made, hmade, h⟩ := Option.bind_eq_some_iff.1 h
      split at h
      · rename_i valid
        obtain rfl := Option.some.inj h
        obtain ⟨hmicrosecond, hoffset⟩ := sound_of_readTime hmade
        exact ⟨valid, hmicrosecond, hoffset⟩
      · contradiction

/-- What is read is sound. -/
theorem read_sound {text : String} {time : Timestamp} (h : read text = some time) :
    time.Sound := by
  unfold read at h
  split at h <;> exact sound_of_readIso h

/-! ## Readings in a zone -/

/-- The instants that a reading in a zone goes through lie within the calendar: universal time and
the local time for a timestamp with an offset, and for one without offset the instants at which the
zone is asked for its own. -/
def HasReading (zone : ℤ) (time : Timestamp) : Prop :=
  match time.offset with
  | some offset =>
    inCalendar (time.instant - offset) ∧
      inCalendar (time.instant - offset + zone * 60 * perSecond)
  | none =>
    inCalendar (time.instant + zone * 60 * perSecond) ∧ inCalendar (time.instant - perDay) ∧
      inCalendar (time.instant - zone * 60 * perSecond)

/-- A timestamp can be read in a zone exactly if these instants lie within the calendar. -/
theorem exists_inZone_iff (zone : ℤ) (time : Timestamp) :
    (∃ reading, time.inZone zone = .ok reading) ↔ time.HasReading zone := by
  unfold inZone HasReading
  cases time.offset with
  | some offset =>
    dsimp only
    split <;> simp_all
  | none =>
    dsimp only
    split
    · rename_i outside
      simp only [reduceCtorEq, exists_false, false_iff]
      grind
    · split <;> simp_all

/-- An instant lies within its day. -/
lemma instant_bounds {time : Timestamp} (h : time.Sound) :
    (time.date.number : ℤ) * perDay ≤ time.instant ∧
      time.instant < (time.date.number + 1 : ℤ) * perDay := by
  have hvalid := h.valid
  have hmicrosecond := h.microsecond
  simp only [isValid, Bool.and_eq_true, decide_eq_true_eq] at hvalid
  obtain ⟨⟨⟨-, hour⟩, minute⟩, second⟩ := hvalid
  simp only [instant, perDay, perSecond] at hmicrosecond ⊢
  constructor <;> omega

/-- Two days around an instant of a year that is neither the first nor the last one lie within the
calendar. -/
lemma inCalendar_of_inner_year {time : Timestamp} (h : time.Sound) (first : 1 < time.date.year)
    (last : time.date.year < Date.maxYear) {shift : ℤ} (small : shift.natAbs ≤ 2 * perDay) :
    inCalendar (time.instant + shift) := by
  obtain ⟨hlow, hhigh⟩ := instant_bounds h
  have hvalid := h.valid
  simp only [isValid, Bool.and_eq_true] at hvalid
  obtain ⟨hbefore, hyear⟩ := Date.number_bounds hvalid.1.1.1
  have hlast : lastInstant = 3652060 * 86400000000 - 1 := by decide
  rw [inCalendar, Bool.and_eq_true, decide_eq_true_eq, decide_eq_true_eq, firstInstant, hlast]
  simp only [Date.daysBeforeYear, Date.maxYear] at hbefore hyear last
  simp only [perDay, perSecond] at hlow hhigh small ⊢
  omega

/-- A timestamp of a year that is neither the first nor the last one can be read in every zone. -/
theorem hasReading_of_inner_year {time : Timestamp} (h : time.Sound) (first : 1 < time.date.year)
    (last : time.date.year < Date.maxYear) {zone : ℤ} (small : zone.natAbs < 24 * 60) :
    time.HasReading zone := by
  have hshift : (zone * 60 * perSecond).natAbs < perDay := by
    simp only [perDay, perSecond]
    omega
  have hwithin (shift : ℤ) (hsmall : shift.natAbs ≤ 2 * perDay) :
      inCalendar (time.instant + shift) := inCalendar_of_inner_year h first last hsmall
  unfold HasReading
  cases hoffset : time.offset with
  | some offset =>
    have hsmall := h.offset offset hoffset
    have huniversal := hwithin (-offset) (by omega)
    have hlocal := hwithin (-offset + zone * 60 * perSecond) (by omega)
    rw [← add_assoc] at hlocal
    exact ⟨huniversal, hlocal⟩
  | none =>
    exact ⟨hwithin _ (by omega), hwithin (-perDay) (by omega), hwithin (-_) (by omega)⟩

end Timestamp

end ChatHistory
