import ChatHistory.Fault

/-!
# Durations

The duration of a turn is a number of milliseconds.  Below a second it is shown in milliseconds,
below ten seconds in seconds with one decimal place, and above that in seconds.  Rounding takes a
half to the even neighbour of the exact value.
-/

namespace ChatHistory

/-- A number of milliseconds. -/
inductive Milliseconds where
  | whole (value : Int)
  | fractional (value : Double)
  deriving DecidableEq, Repr

namespace Milliseconds

/-- The duration that a JSON number gives. -/
def ofJson? : Json → Option Milliseconds
  | .int n => some (.whole n)
  | .double x => some (.fractional x)
  | _ => none

/-- The text of a duration of a second or more, given in milliseconds as a quotient. -/
def secondsText (num den : Nat) : String :=
  match (Double.ofRatio false num (1000 * den)).ratio? with
  | none => ""
  | some (n, d) =>
    if n < 10 * d then
      let tenths := roundHalfEven (10 * n) d
      s!"{tenths / 10}.{tenths % 10}s"
    else
      s!"{roundHalfEven n d}s"

/-- The text of a duration that is not negative, given in milliseconds as a quotient. -/
def quotientText (num den : Nat) : String :=
  if num < 1000 * den then s!"{roundHalfEven num den}ms" else secondsText num den

/-- The text of a duration, empty for one that is negative or not finite.  A whole number has to be
within the range of the doubles. -/
def text : Milliseconds → Except Fault String
  | .whole n =>
    match Double.ofInt n with
    | .infinite _ => .error .hugeNumber
    | _ => .ok (if n < 0 then "" else quotientText n.natAbs 1)
  | .fractional x =>
    .ok <| match x.ratio? with
      | none => ""
      | some (num, den) => if x.isNegative && num != 0 then "" else quotientText num den

end Milliseconds

end ChatHistory
