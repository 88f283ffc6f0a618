import TypeContracts.Double.Shortest

/-!
# The text of a number

Three layouts share the shortest digits: those of messages, of debug text and of JSON text.
-/

namespace TypeContracts.Double

/-- How digits become text. Numbers whose leading digit has a weight `10 ^ e` with
`positionalFrom ≤ e < positionalBelow` are written out, the others with an exponent. -/
structure Layout where
  positionalFrom : Int
  positionalBelow : Int
  /-- Written before an exponent that is not negative. -/
  plus : String
  /-- Appended to a number that is written out without a fraction. -/
  noFraction : String
  zero : String
  negativeZero : String
  nan : String
  infinity : String

/-- Numbers in messages: written out from `1e-6` up to `1e21`, and no sign on zero. -/
def Layout.message : Layout where
  positionalFrom := -6
  positionalBelow := 21
  plus := "+"
  noFraction := ""
  zero := "0"
  negativeZero := "0"
  nan := "NaN"
  infinity := "Infinity"

/-- Numbers in debug text: always recognisable as a fraction or by an exponent. -/
def Layout.debug : Layout where
  positionalFrom := -4
  positionalBelow := 16
  plus := ""
  noFraction := ".0"
  zero := "0.0"
  negativeZero := "-0.0"
  nan := "NaN"
  infinity := "inf"

/-- Numbers in JSON text, where fractions are written out from `1e-5`. -/
def Layout.json : Layout := { Layout.debug with positionalFrom := -5 }

def zeros (n : Nat) : String := String.ofList (List.replicate n '0')

/-- Digits with the point after the first `point` of them; zeros fill the gap on either side. -/
def positional (noFraction : String) (digits : List Char) (point : Int) : String :=
  if point ≤ 0 then "0." ++ zeros (-point).toNat ++ String.ofList digits
  else if digits.length ≤ point.toNat then
    String.ofList digits ++ zeros (point.toNat - digits.length) ++ noFraction
  else String.ofList (digits.take point.toNat) ++ "." ++ String.ofList (digits.drop point.toNat)

/-- Digits as `d.ddd` and the weight `10 ^ e` of the first one. -/
def exponential (plus : String) (digits : List Char) (e : Int) : String :=
  let fraction := digits.drop 1
  String.ofList (digits.take 1) ++ (if fraction.isEmpty then "" else "." ++ String.ofList fraction) ++
    "e" ++ (if e < 0 then "-" else plus) ++ toString e.natAbs

def Layout.decimal (layout : Layout) (d : Decimal) : String :=
  let digits := Nat.toDigits 10 d.digits
  let e : Int := digits.length - 1 + d.power
  if layout.positionalFrom ≤ e ∧ e < layout.positionalBelow then
    positional layout.noFraction digits (e + 1)
  else exponential layout.plus digits e

def Layout.text (layout : Layout) (x : Double) : String :=
  if x.isNaN then layout.nan
  else if x.isZero then if x.isNegative then layout.negativeZero else layout.zero
  else
    let sign := if x.isNegative then "-" else ""
    if x.isInfinite then sign ++ layout.infinity else sign ++ layout.decimal x.shortest

def text (x : Double) : String := Layout.message.text x

def debugText (x : Double) : String := Layout.debug.text x

end TypeContracts.Double
