import Montage.Decimal.Binary

/-!
# Shortest decimal digits

A finite float other than zero stands for an interval of reals: those that round to it.  `shortest`
finds the fewest decimal digits of a number in that interval, and of those with the fewest digits
the one nearest to the float; between two that are equally near a `Tie` decides.  For a given number
of digits it is enough to test the two neighbours of the float on the grid of such decimals: if any
point of the grid lies in the interval, one of the two does.
-/

namespace Montage.Decimal

/-- `digits * 10 ^ exponent`. -/
structure Digits where
  digits : Nat
  exponent : Int
  deriving Repr, DecidableEq

/-- Which of two equally near neighbours is taken. -/
inductive Tie where
  /-- The greater one. -/
  | up
  /-- The one with an even last digit. -/
  | even
  deriving Repr, DecidableEq

/-- The neighbour to take if `below` and the number after it are equally near. -/
def Tie.pick (tie : Tie) (below : Nat) : Nat :=
  match tie with
  | .up => below + 1
  | .even => below + below % 2

/-- The reals that round to a float, and the float itself, all in units of
`1 / (4 * denominator)`. -/
structure Interval where
  low : Nat
  value : Nat
  high : Nat
  /-- Both ends belong to the interval. -/
  closed : Bool
  denominator : Nat
  deriving Repr

/-- The interval of `significand * 2 ^ exponent`.  Below a power of two the floats are twice as
dense, except at the bottom of the range. -/
def Interval.ofFloat (significand : Nat) (exponent : Int) : Interval :=
  let scale := Nat.pow 2 exponent.toNat
  let below := if significand = Nat.pow 2 52 ∧ exponent ≠ -1074 then 1 else 2
  { low := (4 * significand - below) * scale
    value := 4 * significand * scale
    high := (4 * significand + 2) * scale
    closed := significand % 2 == 0
    denominator := 4 * Nat.pow 2 (-exponent).toNat }

/-- The number `candidate * unit / per`, in the interval's own units `1 / denominator`, lies in the
interval. -/
def Interval.holds (i : Interval) (candidate unit per : Nat) : Bool :=
  let x := candidate * unit * i.denominator
  if i.closed then i.low * per ≤ x && x ≤ i.high * per
  else i.low * per < x && x < i.high * per

/-- The least `k` up to `bound` with `10 ^ k * numerator ≥ denominator`. -/
def leadingZeros (numerator denominator : Nat) : Nat → Nat
  | 0 => 0
  | bound + 1 =>
    if numerator ≥ denominator then 0 else leadingZeros (10 * numerator) denominator bound + 1

/-- The power of ten of the first digit of `numerator / denominator`. -/
def leadingExponent (numerator denominator : Nat) : Int :=
  if numerator ≥ denominator then (Nat.toDigits 10 (numerator / denominator)).length - 1
  else -(leadingZeros numerator denominator 400 : Nat)

/-- The nearest point of the grid of multiples of `10 ^ exponent` that lies in the interval. -/
def Interval.onGrid (i : Interval) (tie : Tie) (exponent : Int) : Option Nat :=
  let unit := Nat.pow 10 exponent.toNat
  let per := Nat.pow 10 (-exponent).toNat
  let below := i.value * per / (unit * i.denominator)
  let above := below + 1
  match i.holds below unit per, i.holds above unit per with
  | false, false => none
  | true, false => some below
  | false, true => some above
  | true, true =>
    let toBelow := i.value * per - below * unit * i.denominator
    let toAbove := above * unit * i.denominator - i.value * per
    some (if toBelow < toAbove then below else if toAbove < toBelow then above else tie.pick below)

/-- Tries grids from the coarsest down; `fuel` more digits are allowed. -/
def Interval.coarsest (i : Interval) (tie : Tie) (exponent : Int) : Nat → Digits
  | 0 => ⟨i.value / i.denominator, 0⟩
  | fuel + 1 =>
    match i.onGrid tie exponent with
    | some digits => ⟨digits, exponent⟩
    | none => i.coarsest tie (exponent - 1) fuel

/-- Without trailing zeros; `fuel` bounds the zeros to drop. -/
def Digits.stripZeros (d : Digits) : Nat → Digits
  | 0 => d
  | fuel + 1 =>
    if d.digits % 10 = 0 ∧ d.digits ≠ 0 then
      Digits.stripZeros ⟨d.digits / 10, d.exponent + 1⟩ fuel
    else d

/-- The shortest digits that round to `significand * 2 ^ exponent`, which is not zero.  Seventeen
digits always do. -/
def shortest (tie : Tie) (significand : Nat) (exponent : Int) : Digits :=
  let i := Interval.ofFloat significand exponent
  (i.coarsest tie (leadingExponent i.value i.denominator) 18).stripZeros 1

end Montage.Decimal
