/-!
# Binary floating-point numbers

A `Binary64` is a 64-bit word of IEEE 754: a sign, eleven bits of exponent and 52 bits of fraction. The values are never
computed with, so that the words are enough; `Binary64.equal` compares them as numbers.
-/

namespace Pluck

structure Binary64 where
  bits : UInt64
  deriving Repr, DecidableEq

namespace Binary64

def isNegative (x : Binary64) : Bool :=
  Nat.pow 2 63 ≤ x.bits.toNat

/-- The word without its sign. Of two finite numbers, the one with the greater code has the greater magnitude. -/
def code (x : Binary64) : Nat :=
  x.bits.toNat % Nat.pow 2 63

/-- The code of the infinities. Those of finite numbers are less, and those of words that are no number are greater. -/
def infinityCode : Nat :=
  2047 * Nat.pow 2 52

def isFinite (x : Binary64) : Bool :=
  x.code < infinityCode

def isNaN (x : Binary64) : Bool :=
  infinityCode < x.code

def ofCode (negative : Bool) (code : Nat) : Binary64 :=
  ⟨.ofNat ((if negative then Nat.pow 2 63 else 0) + code)⟩

/-- Equality of numbers: the zeros are equal, and a word that is no number does not equal even itself. -/
def equal (x y : Binary64) : Bool :=
  !x.isNaN && !y.isNaN && (x == y || x.code = 0 && y.code = 0)

/-- The least positive number is `2 ^ -unitExponent`. -/
def unitExponent : Nat :=
  1074

/-- The magnitude of the finite number with the given code, in units of the least positive one. -/
def magnitude (code : Nat) : Nat :=
  let fractions := Nat.pow 2 52
  if code < fractions then code else (fractions + code % fractions) * Nat.pow 2 (code / fractions - 1)

end Binary64

end Pluck
