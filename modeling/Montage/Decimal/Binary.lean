/-!
# Floats as integers

`Binary.ofFloat` takes a float apart into a sign, a natural significand and a power of two, so that
its decimal texts can be computed exactly.
-/

namespace Montage.Decimal

/-- A binary floating-point number: no number, an infinity, or `± significand * 2 ^ exponent`. -/
inductive Binary where
  | nan
  | infinite (negative : Bool)
  | finite (negative : Bool) (significand : Nat) (exponent : Int)
  deriving Repr, DecidableEq

namespace Binary

/-- The parts of a float in the interchange format: one sign bit, eleven exponent bits, fifty-two
fraction bits. -/
def ofFloat (x : Float) : Binary :=
  let bits := x.toBits.toNat
  let negative := bits / Nat.pow 2 63 == 1
  let biased : Nat := bits / Nat.pow 2 52 % Nat.pow 2 11
  let fraction := bits % Nat.pow 2 52
  if biased = 2047 then
    if fraction = 0 then .infinite negative else .nan
  else if biased = 0 then .finite negative fraction (-1074)
  else .finite negative (Nat.pow 2 52 + fraction) ((biased : Int) - 1075)

end Binary

/-- `numerator / denominator`, written with a denominator that is not zero. -/
structure Ratio where
  numerator : Nat
  denominator : Nat
  deriving Repr, DecidableEq

/-- `significand * 2 ^ exponent` as a quotient of naturals. -/
def Ratio.ofScaled (significand : Nat) (exponent : Int) : Ratio :=
  ⟨significand * Nat.pow 2 exponent.toNat, Nat.pow 2 (-exponent).toNat⟩

end Montage.Decimal
