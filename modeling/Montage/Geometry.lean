import Montage.Decimal.Binary
import Montage.Filter.Number
import Montage.Timeline.Basic

/-!
# Geometry

The box around a turned box, the resolution of a stage, and the filters that fit a picture into a
box.
-/

namespace Montage

/-! ## Turned boxes -/

/-- A float is a whole multiple of 360. -/
def isWholeTurn (degrees : Float) : Bool :=
  match Decimal.Binary.ofFloat degrees with
  | .finite _ significand exponent =>
    let ratio := Decimal.Ratio.ofScaled significand exponent
    ratio.numerator % (360 * ratio.denominator) == 0
  | _ => false

def toRadians (degrees : Float) : Float := degrees * (3.141592653589793 / 180.0)

/-- The least value in a list and the greatest, given bounds to start from. -/
def extent (low high : Float) (xs : List Float) : Float × Float :=
  xs.foldl (fun (low, high) x => (Scalar.least low x, Scalar.greatest high x)) (low, high)

/-- The upright box around a box turned about its top left corner, moved so that the centre stays
where it was. -/
def Rect.turned (r : Rect) (degrees : Float) : Rect :=
  if isWholeTurn degrees then r
  else
    let theta := toRadians degrees
    let s := theta.sin
    let c := theta.cos
    let corners : List (Float × Float) := [(0.0, 0.0), (r.w, 0.0), (r.w, r.h), (0.0, r.h)]
    let infinity : Float := 1.0 / 0.0
    let (left, right) := extent infinity (-infinity) (corners.map fun (x, y) => x * c - y * s)
    let (top, bottom) := extent infinity (-infinity) (corners.map fun (x, y) => x * s + y * c)
    let w := right - left
    let h := bottom - top
    ⟨r.x - (w - r.w) / 2.0, r.y - (h - r.h) / 2.0, w, h⟩

/-! ## Resolution -/

/-- A rough number of dots per inch of a stage, from its diagonal. -/
def stageDpi (width height : UInt32) : Float :=
  let w := width.toFloat
  let h := height.toFloat
  (w * w + h * h).sqrt / 4.8

/-- Pixels to points at a resolution; without a resolution they are the same. -/
def toPoints (px dpi : Float) : Float := if dpi <= 0.0 then px else px / dpi * 72.0

/-! ## Fitting -/

/-- How a picture is fitted into its box. -/
inductive Fit where
  | contain
  | cover
  | stretch
  | containBlur
  deriving Repr, DecidableEq, Inhabited

def Fit.name : Fit → String
  | .contain => "contain"
  | .cover => "cover"
  | .stretch => "stretch"
  | .containBlur => "contain-blur"

def Fit.ofName? : String → Option Fit
  | "contain" => some .contain
  | "cover" => some .cover
  | "stretch" => some .stretch
  | "contain-blur" => some .containBlur
  | _ => none

/-- The filters that fit a stream into a box.  What does not fill the box is left transparent. -/
def Fit.filters (fit : Fit) (w h : Float) : List String :=
  let w := Filter.number (Scalar.nearest w)
  let h := Filter.number (Scalar.nearest h)
  match fit with
  | .stretch => ["scale=" ++ w ++ ":" ++ h]
  | .cover =>
    ["scale=" ++ w ++ ":" ++ h ++ ":force_original_aspect_ratio=increase",
      "crop=" ++ w ++ ":" ++ h]
  | .contain | .containBlur =>
    ["scale=" ++ w ++ ":" ++ h ++ ":force_original_aspect_ratio=decrease", "format=rgba",
      "pad=" ++ w ++ ":" ++ h ++ ":(ow-iw)/2:(oh-ih)/2:color=black@0"]

end Montage
