import Pluck.Binary64.Rounding

/-!
# The shortest decimal numeral of a number

`shortest` gives the decimal number of the fewest digits that is rounded to a given finite number, and of those the one
nearest to it, or the even one if two are as near. For each count of digits there are two candidates, next to the number
on either side.
-/

namespace Pluck.Binary64

/-- The number has the form `d.ddd * 10 ^ e` for this `e`, if the magnitude is not zero. The least positive number is
greater than `10 ^ -324`, so that the magnitude times `10 ^ 324` has as many digits as its integral part. -/
def decimalExponent (code : Nat) : Int :=
  (Nat.toDigits 10 (magnitude code * Nat.pow 10 324 / Nat.pow 2 unitExponent)).length - 325

def inPowersOfTen (code : Nat) (exponent : Int) : Nat × Nat :=
  (magnitude code * Nat.pow 10 (-exponent).toNat, Nat.pow 2 unitExponent * Nat.pow 10 exponent.toNat)

def readsBack (code : Nat) (decimal : Decimal) : Bool :=
  nearestCode (decimal.coefficient * Nat.pow 10 decimal.exponent.toNat) (Nat.pow 10 (-decimal.exponent).toNat) = code

/-- The nearest decimal number with the last digit at `10 ^ exponent` that reads back. -/
def atExponent? (code : Nat) (exponent : Int) : Option Decimal :=
  let (numerator, denominator) := inPowersOfTen code exponent
  let below : Decimal := ⟨numerator / denominator, exponent⟩
  let above : Decimal := ⟨numerator / denominator + 1, exponent⟩
  let nearest := roundHalfEven numerator denominator
  let candidates := if nearest = below.coefficient then [below, above] else [above, below]
  candidates.find? (readsBack code)

def exactDecimal (code : Nat) : Decimal :=
  ⟨magnitude code * Nat.pow 5 unitExponent, -unitExponent⟩

/-- The shortest decimal number that reads back as the number with the given code. Seventeen digits are always
enough. -/
def shortest (code : Nat) : Decimal :=
  let leading := decimalExponent code
  ((List.range 17).findSome? fun further : Nat => atExponent? code (leading - further)).getD (exactDecimal code)

end Pluck.Binary64
