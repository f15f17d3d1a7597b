import Montage.Decimal.Shortest

/-!
# Decimal texts of floats

One record, `Form`, holds what a format decides about a float's shortest digits: whether a whole
number carries a fraction, from where on an exponent is written, which of two equally near decimals
is taken, and the words for the values that are no number.  `write` is the one printer.  `fixed`
writes a fixed number of places instead.
-/

namespace Montage.Decimal

/-- What a format decides. -/
structure Form where
  /-- Written after a whole number. -/
  wholeMark : String
  /-- The powers of ten of the first digit that are written without an exponent; `none` for all. -/
  positional : Option (Int × Int)
  /-- Which of two equally near decimals is written. -/
  tie : Tie
  /-- What stands for a value that is not a number. -/
  nan : String
  /-- What stands for an infinity, after its sign. -/
  infinite : String

/-- The fewest digits that read back, never an exponent. -/
def Form.plain : Form := ⟨"", none, .up, "NaN", "inf"⟩

/-- The fewest digits that read back; whole numbers end in `.0`; an exponent from `1e16` up and
below `1e-5`. -/
def Form.data : Form := ⟨".0", some (-5, 15), .even, "null", "null"⟩

/-- The characters of the number `digits * 10 ^ exponent` without an exponent. -/
def positionalChars (wholeMark : String) (d : Digits) : List Char :=
  let text := Nat.toDigits 10 d.digits
  if d.exponent ≥ 0 then
    text ++ List.replicate d.exponent.toNat '0' ++ wholeMark.toList
  else
    let places := (-d.exponent).toNat
    if places < text.length then
      text.take (text.length - places) ++ '.' :: text.drop (text.length - places)
    else '0' :: '.' :: (List.replicate (places - text.length) '0' ++ text)

/-- The characters of the number `digits * 10 ^ exponent` with one digit before the point and an
exponent. -/
def exponentChars (d : Digits) : List Char :=
  let text := Nat.toDigits 10 d.digits
  let point := if text.length = 1 then text else text.take 1 ++ '.' :: text.drop 1
  let lead := d.exponent + (text.length - 1 : Nat)
  point ++ 'e' :: (toString lead).toList

/-- The text of a float in the given form. -/
def write (form : Form) (x : Float) : String :=
  match Binary.ofFloat x with
  | .nan => form.nan
  | .infinite negative => (if negative then "-" else "") ++ form.infinite
  | .finite negative significand exponent =>
    let sign := if negative then ['-'] else []
    let d := if significand = 0 then ⟨0, 0⟩ else shortest form.tie significand exponent
    let lead := d.exponent + ((Nat.toDigits 10 d.digits).length - 1 : Nat)
    let positional := match form.positional with
      | none => true
      | some (low, high) => low ≤ lead && lead ≤ high
    let body := if positional then positionalChars form.wholeMark d else exponentChars d
    String.ofList (sign ++ body)

/-- The natural nearest to `numerator / denominator`; halfway, the even one. -/
def roundHalfEven (numerator denominator : Nat) : Nat :=
  let q := numerator / denominator
  let r := numerator % denominator
  if 2 * r < denominator then q
  else if 2 * r > denominator then q + 1
  else q + q % 2

/-- The digits of `n / 10 ^ places`, with all the places written. -/
def placesChars (places n : Nat) : List Char :=
  let text := Nat.toDigits 10 n
  let text := List.replicate (places + 1 - text.length) '0' ++ text
  text.take (text.length - places) ++ '.' :: text.drop (text.length - places)

/-- The characters of a float with exactly `places` decimals (at least one), rounded from the
float's exact value, halves to even. -/
def fixedChars (places : Nat) (x : Float) : List Char :=
  match Binary.ofFloat x with
  | .nan => ['N', 'a', 'N']
  | .infinite negative => (if negative then ['-'] else []) ++ ['i', 'n', 'f']
  | .finite negative significand exponent =>
    let ratio := Ratio.ofScaled significand exponent
    let scaled := roundHalfEven (ratio.numerator * Nat.pow 10 places) ratio.denominator
    (if negative then ['-'] else []) ++ placesChars places scaled

/-- A float with exactly `places` decimals (at least one). -/
def fixed (places : Nat) (x : Float) : String := String.ofList (fixedChars places x)

/-- The text of a float in messages: the fewest digits that read back, never an exponent. -/
def plain (x : Float) : String := write .plain x

end Montage.Decimal
