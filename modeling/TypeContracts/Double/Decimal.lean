import TypeContracts.Double.Rounding

/-!
# Scaling by powers of ten

A number that is given by a significand and a power of ten is computed with doubles: the significand is rounded,
and multiplied or divided by a rounded power of ten. Each of these steps is exact up to its own rounding, but the
result need not be the double nearest to the number: `3e25` becomes the upper neighbour of the nearest one.
-/

namespace TypeContracts.Double

def ratio (x : Double) : Nat × Nat :=
  (x.significand * Nat.pow 2 x.exponent.toNat, Nat.pow 2 (-x.exponent).toNat)

def product (x y : Double) : Double :=
  ofRatio (x.isNegative != y.isNegative) (x.ratio.1 * y.ratio.1) (x.ratio.2 * y.ratio.2)

/-- The quotient of two finite numbers, of which the second is not zero. -/
def quotient (x y : Double) : Double :=
  ofRatio (x.isNegative != y.isNegative) (x.ratio.1 * y.ratio.2) (x.ratio.2 * y.ratio.1)

def maxPowerOfTen : Nat := 308

def powerOfTen (k : Nat) : Double := ofRatio false (Nat.pow 10 k) 1

def scaleUp (x : Double) (k : Nat) : Double :=
  if x.isZero then x
  else if k ≤ maxPowerOfTen then x.product (powerOfTen k)
  else infinity x.isNegative

/-- The number, at most `2 ^ 64`, divided by `10 ^ k`. What the largest power cannot do at once is done in two
steps, and beyond that nothing is left. -/
def scaleDown (x : Double) (k : Nat) : Double :=
  if k ≤ maxPowerOfTen then x.quotient (powerOfTen k)
  else if k ≤ 2 * maxPowerOfTen then
    (x.quotient (powerOfTen maxPowerOfTen)).quotient (powerOfTen (k - maxPowerOfTen))
  else ofMagnitude x.isNegative 0

/-- The number `± significand * 10 ^ power`, for a significand below `2 ^ 64`. -/
def ofScaled (negative : Bool) (significand : Nat) (power : Int) : Double :=
  let x := ofRatio negative significand 1
  if 0 ≤ power then x.scaleUp power.toNat else x.scaleDown (-power).toNat

end TypeContracts.Double
