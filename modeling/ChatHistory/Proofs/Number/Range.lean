import ChatHistory.Number.Double
import Mathlib.Algebra.Order.Ring.Nat
import Mathlib.Tactic.Ring

/-!
# Whole numbers beyond the doubles

A whole number whose magnitude reaches `Double.limit` has no finite double, and any other has one
(`isInfinite_ofInt`).  The limit lies halfway between the greatest double and what would be its
successor: the tie is rounded up, because the significand of the greatest double is odd.
-/

namespace ChatHistory

/-- Rounding gives the quotient or the number behind it. -/
lemma roundHalfEven_bounds (num den : ℕ) :
    num / den ≤ roundHalfEven num den ∧ roundHalfEven num den ≤ num / den + 1 := by
  dsimp only [roundHalfEven]
  split
  · omega
  · split <;> omega

/-- From the middle on, rounding leads away from an odd quotient. -/
lemma roundHalfEven_of_odd {num half : ℕ} (odd : num / (2 * half) % 2 = 1) :
    roundHalfEven num (2 * half) = num / (2 * half) + 1 ↔ half ≤ num % (2 * half) := by
  dsimp only [roundHalfEven]
  split
  · omega
  · split <;> omega

/-- A number with a significand of 53 bits is rounded up to one more bit from the middle of the last
step on. -/
lemma roundHalfEven_eq_two_pow_iff {num half : ℕ} (h : num < 2 ^ 54 * half) :
    roundHalfEven num (2 * half) = 2 ^ 53 ↔ (2 ^ 54 - 1) * half ≤ num := by
  have hnum : 2 * half * (num / (2 * half)) + num % (2 * half) = num := Nat.div_add_mod _ _
  have hrest : num % (2 * half) < 2 * half := Nat.mod_lt _ (by omega)
  have hquotient : num / (2 * half) < 2 ^ 53 := Nat.div_lt_of_lt_mul (by omega)
  by_cases last : num / (2 * half) = 2 ^ 53 - 1
  · have hup := roundHalfEven_of_odd (show num / (2 * half) % 2 = 1 by rw [last]; rfl)
    rw [last] at hup hnum
    rw [Nat.sub_add_cancel (by decide)] at hup
    rw [hup]
    omega
  · have hbounds := roundHalfEven_bounds num (2 * half)
    have hbelow : 2 * half * (num / (2 * half)) ≤ 2 * half * (2 ^ 53 - 2) :=
      Nat.mul_le_mul_left _ (by omega)
    constructor
    · omega
    · omega

namespace Double

/-- Half the distance between the greatest doubles. -/
@[irreducible] def halfStep : ℕ :=
  2 ^ 970

/-- The least magnitude of a whole number that is rounded to an infinity. -/
def limit : ℕ :=
  (2 ^ 54 - 1) * halfStep

lemma halfStep_pos : 0 < halfStep := by
  unfold halfStep
  generalize 970 = exponent
  exact Nat.two_pow_pos exponent

lemma two_pow_eq {exponent k : ℕ} (h : exponent = 970 + k) :
    2 ^ exponent = 2 ^ k * halfStep := by
  unfold halfStep
  generalize 970 = least at h ⊢
  rw [h, Nat.pow_add, Nat.mul_comm]

lemma two_pow_le {exponent k : ℕ} (h : exponent ≤ 970 + k) :
    2 ^ exponent ≤ 2 ^ k * halfStep :=
  (Nat.pow_le_pow_right Nat.two_pos h).trans (two_pow_eq rfl).le

/-- An infinity of either sign. -/
def isInfinite : Double → Bool
  | .infinite _ => true
  | _ => false

/-- The significand of a whole number has all the bits that a significand can have. -/
lemma exponentOf_one {num : ℕ} (h : num ≠ 0) : exponentOf num 1 = (num.log2 : ℤ) - 52 := by
  have hlow : 2 ^ num.log2 ≤ num := Nat.log2_self_le h
  have hone : Nat.log2 1 = 0 := by decide
  have hbits : Nat.pow 2 53 * (scaled num 1 ((num.log2 : ℤ) - 53)).2 ≤
      (scaled num 1 ((num.log2 : ℤ) - 53)).1 := by
    rcases Nat.lt_or_ge num.log2 53 with hsmall | hlarge
    · obtain ⟨k, hk⟩ := Nat.exists_eq_add_of_le hsmall.le
      have hscaled : scaled num 1 ((num.log2 : ℤ) - 53) = (num * 2 ^ k, 1) := by
        rw [scaled, if_neg (by omega)]
        have hexponent : (-((num.log2 : ℤ) - 53)).toNat = k := by omega
        rw [hexponent]
        rfl
      rw [hscaled, Nat.mul_one]
      calc 2 ^ 53 = 2 ^ num.log2 * 2 ^ k := by rw [← pow_add, ← hk]
        _ ≤ num * 2 ^ k := Nat.mul_le_mul_right _ hlow
    · obtain ⟨k, hk⟩ := Nat.exists_eq_add_of_le hlarge
      have hscaled : scaled num 1 ((num.log2 : ℤ) - 53) = (num, 2 ^ k) := by
        rw [scaled, if_pos (by omega), Nat.one_mul]
        have hexponent : ((num.log2 : ℤ) - 53).toNat = k := by omega
        rw [hexponent]
        rfl
      rw [hscaled]
      calc 2 ^ 53 * 2 ^ k = 2 ^ num.log2 := by rw [← pow_add, hk]
        _ ≤ num := hlow
  rw [exponentOf]
  simp only [hone, precision, Nat.cast_zero, sub_zero, Nat.cast_ofNat]
  rw [if_pos hbits, leastExponent]
  omega

lemma isInfinite_ite (negative : Bool) (significand : ℕ) (exponent : ℤ) :
    (if greatestExponent < exponent then infinite negative
      else finite negative significand exponent).isInfinite ↔ greatestExponent < exponent := by
  split <;> simp_all [isInfinite]

/-- A whole number is rounded to an infinity if its exponent is too great, which can be because its
significand is rounded up to one more bit. -/
lemma isInfinite_ofRatio_one {num : ℕ} (h : num ≠ 0) (negative : Bool) :
    (ofRatio negative num 1).isInfinite ↔
      1024 ≤ num.log2 ∨ num.log2 = 1023 ∧ roundHalfEven num (2 * halfStep) = 2 ^ 53 := by
  have hscaled : num.log2 = 1023 →
      scaled num 1 ((num.log2 : ℤ) - 52) = (num, 2 * halfStep) := by
    intro hlog
    have hexponent : ((num.log2 : ℤ) - 52).toNat = 970 + 1 := by omega
    rw [scaled, if_pos (by omega), Nat.one_mul]
    exact congrArg (Prod.mk num) (two_pow_eq hexponent)
  rw [ofRatio, if_neg h]
  simp only [exponentOf_one h, precision]
  generalize scaled num 1 ((num.log2 : ℤ) - 52) = quotient at hscaled ⊢
  obtain ⟨n, d⟩ := quotient
  have hround : num.log2 = 1023 → roundHalfEven n d = roundHalfEven num (2 * halfStep) := by
    intro hlog
    obtain ⟨hn, hd⟩ := Prod.ext_iff.1 (hscaled hlog)
    exact congrArg₂ roundHalfEven hn hd
  by_cases up : roundHalfEven n d = Nat.pow 2 53
  · simp only [up, if_true]
    rw [isInfinite_ite, greatestExponent]
    constructor
    · intro hexponent
      by_cases hlog : num.log2 = 1023
      · exact .inr ⟨hlog, (hround hlog).symm.trans up⟩
      · omega
    · rintro (hlog | ⟨hlog, -⟩) <;> omega
  · simp only [up, if_false]
    rw [isInfinite_ite, greatestExponent]
    constructor
    · omega
    · rintro (hlog | ⟨hlog, hup⟩)
      · omega
      · exact absurd ((hround hlog).trans hup) up

/-- Exactly the whole numbers from the limit on are rounded to an infinity. -/
theorem isInfinite_ofInt (n : ℤ) : (ofInt n).isInfinite ↔ limit ≤ n.natAbs := by
  have hstep := halfStep_pos
  by_cases hzero : n.natAbs = 0
  · have hfinite : (ofInt n).isInfinite = false := by
      rw [ofInt, ofRatio, if_pos hzero]
      rfl
    rw [hfinite, hzero, limit]
    simp only [Bool.false_eq_true, false_iff]
    omega
  · rw [ofInt, isInfinite_ofRatio_one hzero]
    have hlow : 2 ^ n.natAbs.log2 ≤ n.natAbs := Nat.log2_self_le hzero
    have hhigh : n.natAbs < 2 ^ (n.natAbs.log2 + 1) := Nat.lt_log2_self
    rcases Nat.lt_trichotomy n.natAbs.log2 1023 with hless | hequal | hgreater
    · have hpower : 2 ^ (n.natAbs.log2 + 1) ≤ 2 ^ 53 * halfStep := two_pow_le (by omega)
      rw [limit]
      omega
    · have hpower : 2 ^ (n.natAbs.log2 + 1) = 2 ^ 54 * halfStep := two_pow_eq (by omega)
      rw [hpower] at hhigh
      rw [limit, ← roundHalfEven_eq_two_pow_iff hhigh]
      simp [hequal]
    · obtain ⟨k, hk⟩ := Nat.exists_eq_add_of_lt hgreater
      have hpower : 2 ^ n.natAbs.log2 = 2 ^ (54 + k) * halfStep := two_pow_eq (by omega)
      have hmore : 2 ^ 54 * halfStep ≤ 2 ^ (54 + k) * halfStep :=
        Nat.mul_le_mul_right _ (Nat.pow_le_pow_right Nat.two_pos (by omega))
      rw [limit]
      omega

end Double

end ChatHistory
