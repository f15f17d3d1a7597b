import Montage.Scalar

/-!
# Milliseconds

Lengths are added up in whole milliseconds, so that sums stay exact.  A length in seconds becomes
the nearest number of milliseconds, held to sixty-four bits.  A sum or a difference that does not
fit into sixty-four bits wraps around: that is the arithmetic of a build that does not check for
overflow, and one that does check stops there instead.
-/

namespace Montage

/-- A float as a whole number, towards zero, held to sixty-four bits; no number is zero. -/
def truncate64 (x : Float) : Int :=
  let size := x.abs.toUInt64.toNat
  if x < 0.0 then -(min size 9223372036854775808 : Nat) else (min size 9223372036854775807 : Nat)

/-- Seconds to the nearest millisecond, halves away from zero. -/
def toMillis (seconds : Float) : Int := truncate64 (Scalar.nearest (seconds * 1000.0))

/-- Milliseconds to seconds. -/
def toSeconds (millis : Int) : Float := Float.ofInt millis / 1000.0

/-- Lengths added up. -/
def addUp : List Int → Int
  | [] => 0
  | length :: rest => length + addUp rest

/-- A number as sixty-four bits hold it. -/
def wrap64 (x : Int) : Int := x.bmod 18446744073709551616

/-- The number fits into sixty-four bits. -/
def Fits64 (x : Int) : Prop := -9223372036854775808 ≤ x ∧ x < 9223372036854775808

instance (x : Int) : Decidable (Fits64 x) := inferInstanceAs (Decidable (_ ∧ _))

theorem wrap64_eq_self {x : Int} (h : Fits64 x) : wrap64 x = x := by
  obtain ⟨hlow, hhigh⟩ := h
  exact Int.bmod_eq_of_le (by omega) (by omega)

/-- Wrapping a sum once is the same as wrapping it after each summand. -/
theorem wrap64_wrap64_add (x y : Int) : wrap64 (wrap64 x + y) = wrap64 (x + y) :=
  Int.bmod_add_bmod

theorem wrap64_wrap64_sub (x y : Int) : wrap64 (wrap64 x - y) = wrap64 (x - y) :=
  Int.bmod_sub_bmod

end Montage
