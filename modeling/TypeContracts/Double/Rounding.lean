import TypeContracts.Double.Basic

/-!
# Rounding to the nearest double

A fraction is rounded once, exactly: to the nearest double, a tie going to the even significand, and beyond the
largest finite number to infinity.
-/

namespace TypeContracts.Double

/-- The quotient `num / den` rounded to the nearest integer, a half going to the even neighbour. -/
def roundHalfEven (num den : Nat) : Nat :=
  let quotient := num / den
  let twice := 2 * (num % den)
  if twice < den then quotient
  else if den < twice then quotient + 1
  else if quotient % 2 = 0 then quotient else quotient + 1

/-- The fraction `num * 2 ^ k / den`, in naturals for either sign of `k`. -/
def scaleBinary (num den : Nat) (k : Int) : Nat × Nat :=
  if 0 ≤ k then (num * Nat.pow 2 k.toNat, den) else (num, den * Nat.pow 2 (-k).toNat)

/-- The largest `k` with `2 ^ k ≤ num / den`, for positive `num` and `den`. -/
def floorLog2 (num den : Nat) : Int :=
  let guess : Int := (Nat.log2 num : Int) - Nat.log2 den
  let (scaledNum, scaledDen) := scaleBinary num den (-guess)
  if scaledNum < scaledDen then guess - 1 else guess

/-- The exponent of the last significand bit of the double nearest to `num / den`. -/
def lastPlace (num den : Nat) : Int := max (-1074) (floorLog2 num den - 52)

/-- The magnitude bits of `significand * 2 ^ q`. A significand of `2 ^ 53` carries into the exponent. -/
def packMagnitude (significand : Nat) (q : Int) : Nat :=
  if significand < hiddenBit then significand
  else min infiniteMagnitude ((q + 1075).toNat * hiddenBit + (significand - hiddenBit))

def ofRatio (negative : Bool) (num den : Nat) : Double :=
  if num = 0 then ofMagnitude negative 0
  else
    let q := lastPlace num den
    let (scaledNum, scaledDen) := scaleBinary num den (-q)
    ofMagnitude negative (packMagnitude (roundHalfEven scaledNum scaledDen) q)

/-- The double nearest to `± digits * 10 ^ power`. Powers so large that every such number is beyond the
largest double, or so small that it is nearer to zero than to any other, are answered at once. -/
def ofDecimal (negative : Bool) (digits : Nat) (power : Int) : Double :=
  if digits = 0 then ofMagnitude negative 0
  else if 0 ≤ power then
    if 400 < power then infinity negative else ofRatio negative (digits * Nat.pow 10 power.toNat) 1
  else if (Nat.log2 digits : Int) + 1200 < -(3 * power) then ofMagnitude negative 0
  else ofRatio negative digits (Nat.pow 10 (-power).toNat)

def ofNat (n : Nat) : Double := ofRatio false n 1

def twice (x : Double) : Double :=
  if x.isFinite then
    ofRatio x.isNegative (2 * x.significand * Nat.pow 2 x.exponent.toNat) (Nat.pow 2 (-x.exponent).toNat)
  else x

end TypeContracts.Double
