import TypeContracts.Double.Rounding

/-!
# The shortest decimal that reads back

The reals that round to a finite double form an interval around it, whose ends belong to it when the
significand is even. Of the powers of ten with a multiple inside the interval the largest leaves the fewest
digits; of its multiples next to the number the nearer one is taken, and the upper one of two equally near.
-/

namespace TypeContracts

/-- The number `digits * 10 ^ power`. -/
structure Decimal where
  digits : Nat
  power : Int
deriving DecidableEq, Repr

namespace Double

/-- Four times the number in units of the last place, and the ends of its rounding interval on that scale.
Below a power of two the neighbour is half as far away. -/
structure Interval where
  lower : Nat
  center : Nat
  upper : Nat
  closed : Bool

def interval (x : Double) : Interval where
  lower := 4 * x.significand - (if x.fraction = 0 ∧ 1 < x.storedExponent then 1 else 2)
  center := 4 * x.significand
  upper := 4 * x.significand + 2
  closed := x.significand % 2 = 0

/-- Does `point`, on the scale of the interval times `unit`, lie inside it? -/
def Interval.holds (i : Interval) (unit point : Nat) : Bool :=
  if i.closed then i.lower * unit ≤ point && point ≤ i.upper * unit
  else i.lower * unit < point && point < i.upper * unit

/-- The scale `10 ^ (-k) * 2 ^ q` as a fraction: the factor of the numerator and the denominator. -/
def gridScale (q k : Int) : Nat × Nat :=
  ((if 0 ≤ q then Nat.pow 2 q.toNat else 1) * (if 0 ≤ k then 1 else Nat.pow 10 (-k).toNat),
   (if 0 ≤ q then 1 else Nat.pow 2 (-q).toNat) * (if 0 ≤ k then Nat.pow 10 k.toNat else 1))

/-- The multiple of `10 ^ k` that is nearest to the number, among the two next to it that round to it. -/
def nearestOnGrid (x : Double) (k : Int) : Option Nat :=
  let i := x.interval
  let (unit, step) := gridScale (x.exponent - 2) k
  let below := i.center * unit / step
  let rest := i.center * unit % step
  let down := i.holds unit (below * step)
  let up := i.holds unit ((below + 1) * step)
  if down && (!up || 2 * rest < step) then some below
  else if up then some (below + 1)
  else none

/-- The first power of ten at or below `k` with a multiple that rounds to the number. -/
def searchGrid (x : Double) : Nat → Int → Decimal
  | 0, k => ⟨0, k⟩
  | n + 1, k =>
    match x.nearestOnGrid k with
    | some digits => ⟨digits, k⟩
    | none => x.searchGrid n (k - 1)

/-- A power of ten above every number that rounds to `x`. -/
def powerAbove (x : Double) : Int := (floorLog2 x.significand 1 + x.exponent) * 1233 / 4096 + 2

/-- The shortest decimal that rounds to a finite number other than zero, without its sign. -/
def shortest (x : Double) : Decimal := x.searchGrid 24 x.powerAbove

end Double

end TypeContracts
