import Montage.Text.Ascii

/-!
# Whole numbers as text

A number is its decimal digits, at least one of them, behind a sign that may be left out.  Zeros in
front count for nothing; a value out of range is no number.
-/

namespace Montage.Text

/-- A number below `size` that is not negative; it may carry a plus sign. -/
def unsigned? (size : Nat) (cs : List Char) : Option Nat :=
  let digits := match cs with
    | '+' :: rest => rest
    | _ => cs
  (natOfDigits? digits).filter (· < size)

/-- A number of sixty-four bits with a sign. -/
def signed64? (cs : List Char) : Option Int :=
  match cs with
  | '-' :: digits =>
    ((natOfDigits? digits).map fun n => -(n : Int)).filter (Int64.minValue.toInt ≤ ·)
  | _ => ((unsigned? UInt64.size cs).map Int.ofNat).filter (· ≤ Int64.maxValue.toInt)

end Montage.Text
