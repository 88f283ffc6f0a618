import TypeContracts.Double.Decimal
import TypeContracts.Double.Shortest

/-!
# JSON values

A number keeps the digits that fit into 64 bits, and whether its text is an integer: `1`, `1.0` and `1e0` are
equal numbers, and only the first may stand where a count is wanted.
-/

namespace TypeContracts

/-- The number `± significand * 10 ^ power`, and whether it was written without fraction and exponent. A
significand is below `2 ^ 64`. -/
structure Numeral where
  negative : Bool
  significand : Nat
  power : Int
  integral : Bool
deriving DecidableEq, Repr

namespace Numeral

def ofNat (n : Nat) : Numeral := ⟨false, n, 0, true⟩

/-- The double that stands for the numeral: infinity if it is too large. -/
def toDouble (n : Numeral) : Double := Double.ofScaled n.negative n.significand n.power

/-- The count that the numeral states. A sign is not allowed, not even on zero. -/
def toNat? (n : Numeral) : Option Nat :=
  if n.integral && !n.negative then some n.significand else none

/-- The numeral that is written for a finite double: the shortest one to which it is nearest, with a zero after the
point if it is written out and has no fraction. -/
def ofDouble (x : Double) : Numeral :=
  let d := x.shortest
  if x.isZero then ⟨x.isNegative, 0, -1, false⟩
  else if 0 ≤ d.power ∧ (Nat.toDigits 10 d.digits).length + d.power ≤ 16 then
    ⟨x.isNegative, d.digits * Nat.pow 10 (d.power.toNat + 1), -1, false⟩
  else ⟨x.isNegative, d.digits, d.power, false⟩

end Numeral

/-- A JSON value. An object keeps its members as written: in order, and with repeated names. -/
inductive Json where
  | null
  | bool (value : Bool)
  | number (value : Numeral)
  | string (value : String)
  | array (elements : List Json)
  | object (members : List (String × Json))
deriving Inhabited, Repr

namespace Json

def ofNat (n : Nat) : Json := .number (.ofNat n)

def member? (name : String) : Json → Option Json
  | .object members => members.lookup name
  | _ => none

end Json

end TypeContracts
