import Montage.Decimal.Reading

/-!
# Scaled reading

A numeral is read at a bounded price.  Of its digits as many are kept as make a number of sixty-four
bits (`Numeral.kept`), that number becomes a float, and a power of ten moves the point
(`Scaled.toFloat?`).  The conversion and the scaling round one after the other, so a numeral of
sixteen digits or more may be read as a neighbour of the float nearest to it; up to fifteen digits
and a scale up to `10 ^ 22` both steps start from exact numbers and the result is the nearest one.
-/

namespace Montage.Decimal

/-- The decimal `significand * 10 ^ exponent`. -/
structure Scaled where
  significand : Nat
  exponent : Int
  deriving Repr, DecidableEq

/-! ## The digits that are kept -/

/-- Appends digits to a number as long as sixty-four bits hold it; the digits from the first one
that does not fit are left over. -/
def appendDigits (n : Nat) : List Char → Nat × List Char
  | [] => (n, [])
  | c :: cs =>
    let next := n * 10 + (c.toNat - '0'.toNat)
    if next < UInt64.size then appendDigits next cs else (n, c :: cs)

/-- What is kept of a numeral.  A digit left over before the point counts as a zero, one left over
behind it is dropped. -/
def Numeral.kept (n : Numeral) : Scaled :=
  let (front, zeros) := appendDigits 0 n.whole
  let (significand, dropped) := appendDigits front n.decimals
  ⟨significand, n.exponent.getD 0 + zeros.length - n.decimals.length + dropped.length⟩

/-- The natural number that a numeral stands for, if it has neither point nor exponent and
sixty-four bits hold it. -/
def Numeral.natural? (n : Numeral) : Option Nat :=
  match n.decimals, n.exponent, appendDigits 0 n.whole with
  | [], none, (value, []) => some value
  | _, _, _ => none

/-! ## Moving the point -/

/-- The exponent of the greatest power of ten that is a finite float. -/
def greatestScale : Nat := 308

/-- The float nearest to `10 ^ n`. -/
def tenTo (n : Nat) : Float := Float.ofScientific 1 false n

/-- Multiplies by `10 ^ n`; nothing if that is beyond the range of floats. -/
def scaleUp? (x : Float) (n : Nat) : Option Float :=
  if n ≤ greatestScale then
    let y := x * tenTo n
    if y.isInf then none else some y
  else if x == 0.0 then some x
  else none

/-- Divides by `10 ^ n`, by no more than the greatest power of ten at a time. -/
def scaleDown (x : Float) (n : Nat) : Float :=
  if n ≤ greatestScale then x / tenTo n
  else if x == 0.0 then x
  else scaleDown (x / tenTo greatestScale) (n - greatestScale)
termination_by n
decreasing_by simp only [greatestScale] at *; omega

/-- The float read for a scaled decimal; nothing if it is too great. -/
def Scaled.toFloat? (d : Scaled) : Option Float :=
  let x := Float.ofNat d.significand
  if 0 ≤ d.exponent then scaleUp? x d.exponent.toNat
  else some (scaleDown x (-d.exponent).toNat)

/-- The float read for a numeral with the given sign; nothing if it is too great. -/
def Numeral.toFloat? (negative : Bool) (n : Numeral) : Option Float :=
  n.kept.toFloat?.map fun x => if negative then -x else x

end Montage.Decimal
