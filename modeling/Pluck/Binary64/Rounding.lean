import Pluck.Binary64.Basic

/-!
# The nearest floating-point number

`nearestCode` rounds an exact ratio to the code of the nearest number, a tie to the even one. Integers and decimal
numerals are rounded through it, in exact arithmetic on natural numbers.
-/

namespace Pluck

/-- The number `coefficient * 10 ^ exponent`. -/
structure Decimal where
  coefficient : Nat
  exponent : Int
  deriving Repr, DecidableEq

namespace Binary64

/-- The integer nearest to `numerator / denominator`, of two the even one. -/
def roundHalfEven (numerator denominator : Nat) : Nat :=
  let quotient := numerator / denominator
  let twice := 2 * (numerator % denominator)
  if twice < denominator || twice = denominator && quotient % 2 = 0 then quotient else quotient + 1

/-- The code of the number nearest to `numerator / denominator`; from `infinityCode` on, there is none. In units of the
least positive number, a magnitude of `shift + 53` binary digits keeps 53 of them. Rounding may carry into a further
digit, and the sum is right then, too: the next exponent begins where the fractions of this one end. -/
def nearestCode (numerator denominator : Nat) : Nat :=
  let scaled := numerator * Nat.pow 2 unitExponent
  let shift := (scaled / denominator).log2 - 52
  shift * Nat.pow 2 52 + roundHalfEven scaled (denominator * Nat.pow 2 shift)

/-- The nearest number with the given sign, unless the magnitude is beyond all numbers. -/
def ofRatio? (negative : Bool) (numerator denominator : Nat) : Option Binary64 :=
  let code := nearestCode numerator denominator
  if code < infinityCode then some (ofCode negative code) else none

def ofUInt64 (n : UInt64) : Binary64 :=
  ofCode false (nearestCode n.toNat 1)

/-- The number nearest to a decimal one with the given sign, unless the magnitude is beyond all numbers. It is rounded
once, from the exact value, which faster conversions that round the power of ten as well do not do. A coefficient
of `n` digits is less than `10 ^ n` and, unless it is zero, at least `10 ^ (n - 1)`, which settles exponents far from
any number's without the power. -/
def ofDecimal? (negative : Bool) (decimal : Decimal) : Option Binary64 :=
  let ⟨coefficient, exponent⟩ := decimal
  let digits := (Nat.toDigits 10 coefficient).length
  if coefficient = 0 || exponent + digits < -400 then some (ofCode negative 0)
  else if 400 < exponent + digits then none
  else ofRatio? negative (coefficient * Nat.pow 10 exponent.toNat) (Nat.pow 10 (-exponent).toNat)

end Binary64

end Pluck
