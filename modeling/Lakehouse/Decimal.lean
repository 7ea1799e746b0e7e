/-!
Decimal numbers that stand for a double: the shortest decimal that reads back as the double nearest
to what was written, or near to it. `Double.nearest?` finds the double, `Double.stepwise?` one that may
be its neighbour; `Double.shortest` is its decimal, and `Decimal.text` writes that in a given layout.
All of it is exact arithmetic on naturals.
-/
namespace Lakehouse

-- `digits * 10 ^ exponent`, with the sign apart so that zero has two of them.
structure Decimal where
  negative : Bool
  digits : Nat
  exponent : Int
  deriving DecidableEq, Repr, Inhabited

-- `mantissa * 2 ^ exponent`, a nonnegative finite double.
structure Double where
  mantissa : Nat
  exponent : Int
  deriving DecidableEq, Repr, Inhabited

namespace Double

-- The least mantissa of a double that has all of its bits.
def hiddenBit : Nat := 4503599627370496

def leastExponent : Int := -1074
def greatestExponent : Int := 971

-- The quotient rounded to the nearest natural, a half to the even one.
def roundHalfEven (num den : Nat) : Nat :=
  let quotient := num / den
  let rest := 2 * (num % den)
  if den < rest || (rest == den && quotient % 2 == 1) then quotient + 1 else quotient

-- A nonnegative rational as numerator and denominator.
def fraction (factor base : Nat) (exponent : Int) : Nat × Nat :=
  if exponent < 0 then (factor, base.pow exponent.natAbs) else (factor * base.pow exponent.toNat, 1)

-- The exponent of the highest power of two that is at most `num / den`.
def binaryOrder (num den : Nat) : Int :=
  let guess : Int := (Nat.log2 num : Int) - (Nat.log2 den : Int)
  let (p, q) := fraction den 2 guess
  if p ≤ num * q then guess else guess - 1

-- The double nearest to `num / den`, unless that is beyond the greatest finite one.
def ofFraction? (num den : Nat) : Option Double :=
  if num = 0 then some ⟨0, leastExponent⟩ else
  let exponent := max (binaryOrder num den - 52) leastExponent
  let (p, q) := fraction den 2 exponent
  let mantissa := roundHalfEven (num * q) p
  let (mantissa, exponent) :=
    if mantissa = 2 * hiddenBit then (hiddenBit, exponent + 1) else (mantissa, exponent)
  if greatestExponent < exponent then none else some ⟨mantissa, exponent⟩

-- The double nearest to `digits * 10 ^ exponent`. Magnitudes far outside the range of doubles are
-- settled by their decimal order, before any large power is taken.
def nearest? (digits : Nat) (exponent : Int) : Option Double :=
  let order := exponent + (Nat.toDigits 10 digits).length
  if digits = 0 || order < -330 then some ⟨0, leastExponent⟩
  else if 320 < order then none
  else
    let (num, den) := fraction digits 10 exponent
    ofFraction? num den

-- A double as numerator and denominator.
def toFraction (d : Double) : Nat × Nat := fraction d.mantissa 2 d.exponent

-- The double nearest to a product.
def mul? (d e : Double) : Option Double :=
  ofFraction? (d.toFraction.1 * e.toFraction.1) (d.toFraction.2 * e.toFraction.2)

-- The double nearest to a quotient by a double that is not zero.
def div? (d e : Double) : Option Double :=
  ofFraction? (d.toFraction.1 * e.toFraction.2) (d.toFraction.2 * e.toFraction.1)

-- The greatest exponent of a power of ten that is finite.
def greatestPower : Nat := 308

def powerOfTen? (n : Nat) : Option Double := nearest? 1 n

-- Divides by `10 ^ n`, of which at most the greatest finite power at a time, and rounds after each
-- division.
def shrink? (d : Double) (n : Nat) : Option Double :=
  if d.mantissa = 0 then some d
  else if n ≤ greatestPower then do d.div? (← powerOfTen? n)
  else do
    let smaller ← d.div? (← powerOfTen? greatestPower)
    smaller.shrink? (n - greatestPower)
termination_by n
decreasing_by simp only [greatestPower] at *; omega

-- Multiplies by `10 ^ n` in a single step.
def grow? (d : Double) (n : Nat) : Option Double :=
  if d.mantissa = 0 then some d
  else if n ≤ greatestPower then do d.mul? (← powerOfTen? n)
  else none

-- The double read from a coefficient and a power of ten in steps, each of which rounds: first the
-- coefficient, then the power, then their product or quotient.
def stepwise? (digits : Nat) (exponent : Int) : Option Double := do
  let d ← nearest? digits 0
  if exponent < 0 then d.shrink? exponent.natAbs else d.grow? exponent.toNat

-- The exponent of the highest power of ten that is at most the double.
def decimalOrder (d : Double) : Int :=
  let (num, den) := d.toFraction
  ((Nat.toDigits 10 (num * Nat.pow 10 340 / den)).length : Int) - 341

-- Numerators, over a common denominator, of the double and of the ends of the interval of reals
-- that round to it.
structure Neighbourhood where
  low : Nat
  value : Nat
  high : Nat
  den : Nat
  closed : Bool

def neighbourhood (d : Double) : Neighbourhood :=
  let narrow := d.mantissa == hiddenBit && leastExponent < d.exponent
  let (unit, den) := fraction 1 2 (d.exponent - 2)
  { low := (4 * d.mantissa - if narrow then 1 else 2) * unit
    value := 4 * d.mantissa * unit
    high := (4 * d.mantissa + 2) * unit
    den
    closed := d.mantissa % 2 == 0 }

-- Whether `num / den` rounds to the double.
def Neighbourhood.contains (n : Neighbourhood) (num den : Nat) : Bool :=
  let x := num * n.den
  if n.closed then n.low * den ≤ x && x ≤ n.high * den else n.low * den < x && x < n.high * den

-- The multiple of `10 ^ exponent` nearest to the double among its two neighbours on that grid,
-- if one of them rounds to the double; a tie goes to the even one.
def onGrid? (n : Neighbourhood) (exponent : Int) : Option Nat :=
  let (unit, den) := fraction 1 10 exponent
  let below := n.value * den / (n.den * unit)
  let above := below + 1
  match n.contains (below * unit) den, n.contains (above * unit) den with
  | false, false => none
  | true, false => some below
  | false, true => some above
  | true, true =>
    let twice := 2 * n.value * den
    let middle := (below + above) * unit * n.den
    if twice < middle || (twice == middle && below % 2 == 0) then some below else some above

-- Drops trailing zeros of a coefficient, at most `fuel` of them.
def strip : Nat → Nat → Int → Nat × Int
  | 0, digits, exponent => (digits, exponent)
  | fuel + 1, digits, exponent =>
    if digits % 10 == 0 then strip fuel (digits / 10) (exponent + 1) else (digits, exponent)

-- Tries grids of one significant digit, two, and so on; seventeen are always enough.
def search (n : Neighbourhood) (order : Int) : Nat → Nat × Int
  | 0 => (0, 0)
  | left + 1 =>
    let exponent := order - (17 - (left + 1) : Int)
    match onGrid? n exponent with
    | some digits => strip 18 digits exponent
    | none => search n order left

-- Coefficient and exponent of the shortest decimal that reads back as the double.
def shortest (d : Double) : Nat × Int :=
  if d.mantissa = 0 then (0, 0) else search d.neighbourhood d.decimalOrder 17

end Double

namespace Decimal

def ofDouble (negative : Bool) (d : Double) : Decimal :=
  { negative, digits := d.shortest.1, exponent := d.shortest.2 }

-- The decimal of the double nearest to `± digits * 10 ^ exponent`; none if that is infinite.
def nearest? (negative : Bool) (digits : Nat) (exponent : Int) : Option Decimal :=
  (Double.nearest? digits exponent).map (ofDouble negative)

-- The decimal of the double that is read in steps; none if that is infinite.
def stepwise? (negative : Bool) (digits : Nat) (exponent : Int) : Option Decimal :=
  (Double.stepwise? digits exponent).map (ofDouble negative)

-- How a decimal is laid out: between which orders of magnitude it is positional, and whether the
-- exponent of the other form carries a plus sign.
structure Layout where
  leastPositional : Int
  greatestPositional : Int
  plusSign : Bool

def zeros (n : Nat) : String := String.ofList (List.replicate n '0')

def exponentText (layout : Layout) (e : Int) : String :=
  if e < 0 then s!"-{e.natAbs}" else (if layout.plusSign then "+" else "") ++ s!"{e.natAbs}"

-- Always with a point or an exponent, so that the text does not read as a whole number.
def unsignedText (layout : Layout) (d : Decimal) : String :=
  let digits := toString d.digits
  let length : Int := digits.length
  let order := length + d.exponent - 1
  if d.digits = 0 then "0.0"
  else if order < layout.leastPositional || layout.greatestPositional < order then
    let first := String.ofList (digits.toList.take 1)
    let rest := String.ofList (digits.toList.drop 1)
    (if rest.isEmpty then first else first ++ "." ++ rest) ++ "e" ++ exponentText layout order
  else if 0 ≤ d.exponent then digits ++ zeros d.exponent.toNat ++ ".0"
  else if 0 ≤ order then
    let whole := (order + 1).toNat
    String.ofList (digits.toList.take whole) ++ "." ++ String.ofList (digits.toList.drop whole)
  else "0." ++ zeros (-(order + 1)).toNat ++ digits

def text (layout : Layout) (d : Decimal) : String :=
  (if d.negative then "-" else "") ++ d.unsignedText layout

end Decimal

end Lakehouse
