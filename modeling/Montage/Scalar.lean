/-!
# Scalars

The numbers that positions, times and fractions are computed with.  A definition over `Scalar` runs
on floats and can be reasoned about on rationals.  `least` and `greatest` pass over a value that is
no number, so that one such value in a list does not spoil the result.
-/

namespace Montage

/-- Arithmetic and order on a type of numbers. -/
class Scalar (α : Type) extends Add α, Sub α, Mul α, Div α, Neg α where
  /-- A natural number. -/
  ofNat : Nat → α
  /-- Strictly less. -/
  less : α → α → Bool
  /-- The lesser of two; the other one if one is no number. -/
  least : α → α → α
  /-- The greater of two; the other one if one is no number. -/
  greatest : α → α → α
  /-- Neither infinite nor no number. -/
  finite : α → Bool

namespace Scalar

def zero {α : Type} [Scalar α] : α := Scalar.ofNat 0

def one {α : Type} [Scalar α] : α := Scalar.ofNat 1

def half {α : Type} [Scalar α] (x : α) : α := x / Scalar.ofNat 2

/-- The number moved into the range from `low` to `high`. -/
def clamp {α : Type} [Scalar α] (low high x : α) : α :=
  if Scalar.less x low then low else if Scalar.less high x then high else x

/-- The nearest whole number, halves away from zero.  From `2 ^ 52` on every float is whole. -/
def nearest (x : Float) : Float :=
  let size := x.abs
  if size < 4503599627370496.0 then
    let whole := size.toUInt64.toFloat
    let rounded := if size - whole < 0.5 then whole else whole + 1.0
    if x.toBits < 0x8000000000000000 then rounded else -rounded
  else x

end Scalar

instance : Scalar Float where
  ofNat := Float.ofNat
  less a b := a < b
  least a b := if a.isNaN then b else if b.isNaN then a else if b < a then b else a
  greatest a b := if a.isNaN then b else if b.isNaN then a else if a < b then b else a
  finite := Float.isFinite

instance : Scalar Rat where
  ofNat n := n
  less a b := a < b
  least a b := if b < a then b else a
  greatest a b := if a < b then b else a
  finite _ := true

end Montage
