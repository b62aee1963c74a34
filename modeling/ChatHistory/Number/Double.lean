/-!
# Binary floating-point numbers

`Double` is the set of values of the 64-bit binary format: not-a-number, two infinities, and the
finite numbers `± significand · 2 ^ exponent` with a significand below `2 ^ 53` and an exponent of
at least `-1074`.  All arithmetic here is exact: `ofRatio` rounds a quotient of natural numbers to
the nearest double, a tie going to the even significand, and `ratio?` gives back the magnitude of a
finite double as a quotient.
-/

namespace ChatHistory

/-- A number of the 64-bit binary floating-point format. -/
inductive Double where
  /-- Not a number. -/
  | nan
  /-- An infinity of either sign. -/
  | infinite (negative : Bool)
  /-- The number `± significand · 2 ^ exponent`; zero has two signs. -/
  | finite (negative : Bool) (significand : Nat) (exponent : Int)
  deriving DecidableEq, Repr

/-- The quotient rounded to the nearest natural number, a tie going to the even one. -/
def roundHalfEven (num den : Nat) : Nat :=
  let quotient := num / den
  let rest := 2 * (num % den)
  if rest < den then quotient
  else if den < rest then quotient + 1
  else quotient + quotient % 2

namespace Double

/-- The number of significant bits. -/
def precision : Nat := 53

/-- The least exponent of a significand. -/
def leastExponent : Int := -1074

/-- The greatest exponent of a significand. -/
def greatestExponent : Int := 971

/-- A zero of the given sign. -/
def zero (negative : Bool) : Double :=
  .finite negative 0 leastExponent

/-- The quotient `num / den` divided by `2 ^ exponent`, again as a quotient. -/
def scaled (num den : Nat) (exponent : Int) : Nat × Nat :=
  if 0 ≤ exponent then (num, den * Nat.pow 2 exponent.toNat)
  else (num * Nat.pow 2 (-exponent).toNat, den)

/-- The exponent at which a positive quotient has a significand of `precision` bits, or the least
exponent where the quotient is too small for that. -/
def exponentOf (num den : Nat) : Int :=
  let estimate : Int := (num.log2 : Int) - den.log2 - precision
  let (n, d) := scaled num den estimate
  max leastExponent (if Nat.pow 2 precision * d ≤ n then estimate + 1 else estimate)

/-- The double nearest to `± num / den`; from the midpoint between the greatest finite double and
its successor on, that is an infinity. -/
def ofRatio (negative : Bool) (num den : Nat) : Double :=
  if num = 0 then
    zero negative
  else
    let exponent := exponentOf num den
    let (n, d) := scaled num den exponent
    let significand := roundHalfEven n d
    let (significand, exponent) :=
      if significand = Nat.pow 2 precision then (Nat.pow 2 (precision - 1), exponent + 1)
      else (significand, exponent)
    if greatestExponent < exponent then .infinite negative
    else .finite negative significand exponent

/-- The double nearest to `± digits · 10 ^ exponent`.  Exponents far outside the range are decided
without computing the power. -/
def ofDecimal (negative : Bool) (digits : Nat) (exponent : Int) : Double :=
  if digits = 0 then zero negative
  else if 400 < exponent then .infinite negative
  else if exponent + digits.log2 / 3 + 1 < -400 then zero negative
  else if 0 ≤ exponent then ofRatio negative (digits * Nat.pow 10 exponent.toNat) 1
  else ofRatio negative digits (Nat.pow 10 (-exponent).toNat)

/-- The magnitude of a finite double as a quotient of natural numbers. -/
def ratio? : Double → Option (Nat × Nat)
  | .nan | .infinite _ => none
  | .finite _ significand exponent =>
    if 0 ≤ exponent then some (significand * Nat.pow 2 exponent.toNat, 1)
    else some (significand, Nat.pow 2 (-exponent).toNat)

/-- Equal to zero, of either sign. -/
def isZero : Double → Bool
  | .finite _ significand _ => significand == 0
  | _ => false

/-- The sign bit. -/
def isNegative : Double → Bool
  | .nan => false
  | .infinite negative => negative
  | .finite negative _ _ => negative

/-- A finite double without its fraction, rounded toward zero. -/
def truncate? (x : Double) : Option Int :=
  x.ratio?.map fun (num, den) =>
    if x.isNegative then -((num / den : Nat) : Int) else ((num / den : Nat) : Int)

/-- The double nearest to an integer. -/
def ofInt (n : Int) : Double :=
  ofRatio (decide (n < 0)) n.natAbs 1

end Double

end ChatHistory
