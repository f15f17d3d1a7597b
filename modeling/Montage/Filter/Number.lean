import Montage.Decimal.Text
import Montage.Scalar

/-!
# Numbers in filter options

Numbers are rounded to three decimals, halves away from zero, and written without trailing zeros.
Any zero is `0`.
-/

namespace Montage.Filter

/-- The characters without the `c` at their end. -/
def dropEnd (c : Char) (cs : List Char) : List Char :=
  (cs.reverse.dropWhile (· == c)).reverse

def numberChars (x : Float) : List Char :=
  let rounded := Scalar.nearest (x * 1000.0) / 1000.0
  if rounded == 0.0 then ['0']
  else dropEnd '.' (dropEnd '0' (Decimal.fixedChars 3 rounded))

/-- A number as it stands in a filter option. -/
def number (x : Float) : String := String.ofList (numberChars x)

end Montage.Filter
