/-!
# Double-precision numbers

A number is its 64 bits: a sign, eleven exponent bits and fifty-two fraction bits. A finite number is
`± significand * 2 ^ exponent` with exact integers, and everything about its text is computed from those.
-/

namespace TypeContracts

structure Double where
  bits : UInt64
deriving DecidableEq, Inhabited, Repr

namespace Double

def signWeight : Nat := 0x8000000000000000

/-- The weight of the lowest exponent bit and the significand's hidden bit, `2 ^ 52`. -/
def hiddenBit : Nat := 0x10000000000000

def magnitude (x : Double) : Nat := x.bits.toNat % signWeight

/-- Is the sign bit set? Also true of negative zero. -/
def isNegative (x : Double) : Bool := signWeight ≤ x.bits.toNat

def storedExponent (x : Double) : Nat := x.magnitude / hiddenBit

def fraction (x : Double) : Nat := x.magnitude % hiddenBit

def isNaN (x : Double) : Bool := x.storedExponent == 2047 && x.fraction != 0

def isInfinite (x : Double) : Bool := x.storedExponent == 2047 && x.fraction == 0

def isFinite (x : Double) : Bool := x.storedExponent != 2047

def isZero (x : Double) : Bool := x.magnitude == 0

/-- The integer `m` of a finite number `± m * 2 ^ q`. -/
def significand (x : Double) : Nat :=
  if x.storedExponent = 0 then x.fraction else x.fraction + hiddenBit

/-- The exponent `q` of a finite number `± m * 2 ^ q`. -/
def exponent (x : Double) : Int :=
  if x.storedExponent = 0 then -1074 else (x.storedExponent : Int) - 1075

def ofMagnitude (negative : Bool) (magnitude : Nat) : Double :=
  ⟨UInt64.ofNat (if negative then signWeight + magnitude else magnitude)⟩

/-- The magnitude bits of infinity, above those of every finite number. -/
def infiniteMagnitude : Nat := 2047 * hiddenBit

def nan : Double := ofMagnitude false (infiniteMagnitude + hiddenBit / 2)

def infinity (negative : Bool) : Double := ofMagnitude negative infiniteMagnitude

def zero : Double := ofMagnitude false 0

/-- Numeric equality: a NaN equals nothing and the two zeros are equal. -/
def equals (x y : Double) : Bool :=
  !x.isNaN && !y.isNaN && (x.bits == y.bits || (x.isZero && y.isZero))

end Double

end TypeContracts
