import ChatHistory.Number.Double

/-!
# The shortest decimal text of a double

A finite double is the nearest one to a whole interval of real numbers.  `shortest` picks, among
the decimals in that interval, one with the fewest digits, and of those the one nearest to the
double: for each number of digits it tests the two neighbours of the double on the decimal grid
with that many digits.  `Layout` says how digits and exponent become text, and `Layout.text` writes
a double with it.
-/

namespace ChatHistory

/-- The number `digits · 10 ^ exponent`. -/
structure Decimal where
  digits : Nat
  exponent : Int
  deriving DecidableEq, Repr

namespace Decimal

/-- The quotient of natural numbers that is `digits · 10 ^ exponent`. -/
def ratio (x : Decimal) : Nat × Nat :=
  if 0 ≤ x.exponent then (x.digits * Nat.pow 10 x.exponent.toNat, 1)
  else (x.digits, Nat.pow 10 (-x.exponent).toNat)

/-- The same number with trailing zeros of the digits moved into the exponent, as far as the bound
on steps allows. -/
def normalize : Nat → Decimal → Decimal
  | 0, x => x
  | steps + 1, x =>
    if x.digits ≠ 0 ∧ x.digits % 10 = 0 then normalize steps ⟨x.digits / 10, x.exponent + 1⟩ else x

end Decimal

namespace Double

/-- The most digits that a shortest decimal of a double needs. -/
def maxShortestDigits : Nat := 17

/-- The interval of the numbers that round to `significand · 2 ^ exponent`, in units of a quarter
of `2 ^ exponent`.  Just above a power of two the doubles below lie twice as close. -/
def roundingInterval (significand : Nat) (exponent : Int) : Nat × Nat :=
  if significand = Nat.pow 2 (precision - 1) ∧ leastExponent < exponent then
    (4 * significand - 1, 4 * significand + 2)
  else
    (4 * significand - 2, 4 * significand + 2)

/-- The decimal rounds to the double `significand · 2 ^ exponent`; the ends of the interval do so
exactly when the significand is even. -/
def roundsTo (significand : Nat) (exponent : Int) (x : Decimal) : Bool :=
  let (low, high) := roundingInterval significand exponent
  let (n, d) := x.ratio
  let (n, d) := scaled n d (exponent - 2)
  if significand % 2 = 0 then decide (low * d ≤ n) && decide (n ≤ high * d)
  else decide (low * d < n) && decide (n < high * d)

/-- The exponent of the leading decimal digit of a positive quotient. -/
def decimalExponent (num den : Nat) : Int :=
  let estimate : Int := ((num.log2 : Int) - den.log2) * 30103 / 100000
  let reaches (e : Int) : Bool :=
    if 0 ≤ e then decide (den * Nat.pow 10 e.toNat ≤ num)
    else decide (den ≤ num * Nat.pow 10 (-e).toNat)
  ([estimate + 1, estimate, estimate - 1].find? reaches).getD (estimate - 2)

/-- The decimals with the given exponent next to a quotient: the one not above it and the one
above. -/
def neighbours (num den : Nat) (exponent : Int) : Decimal × Decimal :=
  let below := if 0 ≤ exponent then num / (den * Nat.pow 10 exponent.toNat)
    else num * Nat.pow 10 (-exponent).toNat / den
  (⟨below, exponent⟩, ⟨below + 1, exponent⟩)

/-- Of two neighbours of a quotient, the nearer one; at equal distance the one with even digits. -/
def nearer (num den : Nat) (below above : Decimal) : Decimal :=
  let doubled := if 0 ≤ below.exponent then (2 * num, den * Nat.pow 10 below.exponent.toNat)
    else (2 * num * Nat.pow 10 (-below.exponent).toNat, den)
  let middle := (2 * below.digits + 1) * doubled.2
  if doubled.1 < middle then below
  else if middle < doubled.1 then above
  else if below.digits % 2 = 0 then below else above

/-- The decimal of a positive double on the first grid that has one, from a number of digits on. -/
def shortestFrom (significand : Nat) (exponent : Int) (num den : Nat) (leading : Int) :
    Nat → Nat → Decimal
  | 0, digits => (neighbours num den (leading - digits + 1)).1
  | more + 1, digits =>
    let (below, above) := neighbours num den (leading - digits + 1)
    match roundsTo significand exponent below, roundsTo significand exponent above with
    | true, true => nearer num den below above
    | true, false => below
    | false, true => above
    | false, false => shortestFrom significand exponent num den leading more (digits + 1)

/-- The shortest decimal that rounds to the magnitude of a finite double. -/
def shortest (significand : Nat) (exponent : Int) : Decimal :=
  if significand = 0 then
    ⟨0, 0⟩
  else
    let (num, den) := scaled significand 1 (-exponent)
    let leading := decimalExponent num den
    (shortestFrom significand exponent num den leading maxShortestDigits 1).normalize
      (maxShortestDigits + 1)

end Double

/-- How a double is written: which exponents of the leading digit are written positionally, the
least number of digits of a written exponent, and the words for the values that are no numbers. -/
structure Layout where
  leastPositional : Int
  firstScientific : Int
  exponentWidth : Nat
  notANumber : String
  infinity : String

namespace Layout

/-- Digits without an exponent: a point, and at least one digit on each side of it. -/
def positional (digits : List Char) (leading : Int) : List Char :=
  if leading < 0 then
    '0' :: '.' :: List.replicate (-leading - 1).toNat '0' ++ digits
  else
    let whole := leading.toNat + 1
    let fraction := digits.drop whole
    digits.take whole ++ List.replicate (whole - digits.length) '0' ++ '.' ::
      (if fraction.isEmpty then ['0'] else fraction)

/-- One digit, a point if more digits follow, and the exponent with its sign. -/
def scientific (layout : Layout) (digits : List Char) (leading : Int) : List Char :=
  let mantissa := match digits with
    | d :: e :: more => d :: '.' :: e :: more
    | short => short
  let exponent := Nat.toDigits 10 leading.natAbs
  mantissa ++ 'e' :: (if leading < 0 then '-' else '+') ::
    (List.replicate (layout.exponentWidth - exponent.length) '0' ++ exponent)

/-- The text of a double. -/
def text (layout : Layout) : Double → String
  | .nan => layout.notANumber
  | .infinite negative => if negative then "-" ++ layout.infinity else layout.infinity
  | .finite negative significand exponent =>
    let decimal := Double.shortest significand exponent
    let digits := Nat.toDigits 10 decimal.digits
    let leading : Int := decimal.exponent + digits.length - 1
    let body :=
      if layout.leastPositional ≤ leading ∧ leading < layout.firstScientific then
        positional digits leading
      else
        scientific layout digits leading
    String.ofList (if negative then '-' :: body else body)

end Layout

end ChatHistory
