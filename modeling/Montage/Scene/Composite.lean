import Montage.Animation.Resolved
import Montage.Filter.Escape
import Montage.Geometry
import Montage.Timeline.Window

/-!
# Compositing a node

What happens to a node's picture before it is laid over the scene, as a list of filters in a fixed
order: its size or its own filters for that, a fixed opacity, a fixed angle, a zoom, a turn, a fade,
its further filters.  Then the overlay with its place and its window of time.

An alpha channel is asked for at most once, by the first filter that needs one; drawn text has one
from the start and carries its opacity itself.
-/

namespace Montage.Composite

/-- A list of filters, and whether there is an alpha channel behind them. -/
structure Stretch where
  filters : List String := []
  hasAlpha : Bool
  deriving Repr, DecidableEq

/-- The filter that adds an alpha channel. -/
def alphaFilter : String := "format=rgba"

def Stretch.add (s : Stretch) (filter : String) : Stretch :=
  { s with filters := s.filters ++ [filter] }

def Stretch.addAll (s : Stretch) (filters : List String) : Stretch :=
  { s with filters := s.filters ++ filters }

/-- One more filter, which needs an alpha channel. -/
def Stretch.addWithAlpha (s : Stretch) (filter : String) : Stretch :=
  if s.hasAlpha then s.add filter else ⟨s.filters ++ [alphaFilter, filter], true⟩

variable {τ : Type}

/-- The filters that give the picture its size: the node's own ones, or else the size of its frame
if it has one.  Text is drawn in its size. -/
def sizeFilters (n : Node τ) (isText : Bool) : List String :=
  if n.preFilters.isEmpty && !isText && n.frame.isSized then
    ["scale=" ++ Filter.number (Scalar.nearest n.frame.w) ++ ":" ++
      Filter.number (Scalar.nearest n.frame.h)]
  else n.preFilters

/-- The fixed opacity of a picture that does not fade. -/
def fixedOpacity? (n : Node τ) (r : Resolved) (isText : Bool) : Option Float :=
  if isText || r.alpha.isSome then none else n.opacity.filter (· < 1.0)

/-- A fixed opacity.  It always asks for its alpha channel. -/
def addOpacity (s : Stretch) : Option Float → Stretch
  | some opacity =>
    ⟨s.filters ++ [alphaFilter, "colorchannelmixer=aa=" ++ Filter.number opacity], true⟩
  | none => s

/-- The box of a picture at a fixed angle. -/
def turnedBox? (n : Node τ) (r : Resolved) : Option Rect :=
  if n.rotation != 0.0 && r.angle.isNone then some (r.frame.turned n.rotation) else none

def addRotation (s : Stretch) (degrees : Float) : Option Rect → Stretch
  | some box =>
    s.addWithAlpha ("rotate=" ++ Filter.number degrees ++ "*PI/180:ow=" ++
      Filter.number (Scalar.nearest box.w) ++ ":oh=" ++ Filter.number (Scalar.nearest box.h) ++
      ":c=none")
  | none => s

def addZoom (s : Stretch) : Option Interpolation → Stretch
  | some scale =>
    let factor := scale.expr "t"
    s.add ("scale=w='iw*(" ++ factor ++ ")':h='ih*(" ++ factor ++ ")':eval=frame")
  | none => s

def addTurn (s : Stretch) : Option Interpolation → Stretch
  | some angle =>
    s.addWithAlpha ("rotate='(" ++ angle.expr "t" ++ ")*PI/180':ow='hypot(iw,ih)':oh=ow:c=none")
  | none => s

def addFade (s : Stretch) : Option Interpolation → Stretch
  | some alpha =>
    s.addWithAlpha
      ("geq=r='r(X,Y)':g='g(X,Y)':b='b(X,Y)':a='alpha(X,Y)*(" ++ alpha.expr "T" ++ ")'")
  | none => s

/-- All filters between the node's own picture and the overlay. -/
def filters (n : Node τ) (r : Resolved) (isText : Bool) : List String :=
  let s : Stretch := ⟨sizeFilters n isText, isText⟩
  let s := addOpacity s (fixedOpacity? n r isText)
  let s := addRotation s n.rotation (turnedBox? n r)
  let s := addZoom s r.scale
  let s := addTurn s r.angle
  let s := addFade s (if isText then none else r.alpha)
  (s.addAll n.filters).filters

/-- A place that may move, as an expression. -/
def placeExpr (ramp : Option Interpolation) (fixed : Float) : String :=
  match ramp with
  | some ramp => "(" ++ ramp.expr "t" ++ ")"
  | none => Filter.number fixed

/-- Where the picture is laid.  A picture whose size changes is held at the centre of its box; one
at a fixed angle at the corner of the box around it. -/
def place (r : Resolved) (turned : Option Rect) : String × String :=
  let x := placeExpr r.x r.frame.x
  let y := placeExpr r.y r.frame.y
  if r.resizes then
    (x ++ "+" ++ Filter.number (r.frame.w / 2.0) ++ "-w/2",
      y ++ "+" ++ Filter.number (r.frame.h / 2.0) ++ "-h/2")
  else
    match turned with
    | some box =>
      if r.x.isSome then
        (x ++ "-" ++ Filter.number ((box.w - r.frame.w) / 2.0),
          y ++ "-" ++ Filter.number ((box.h - r.frame.h) / 2.0))
      else (Filter.number box.x, Filter.number box.y)
    | none => (x, y)

/-- The filter that lays the picture over a scene of the given length. -/
def overlay (n : Node τ) (r : Resolved) (duration : Float) : String :=
  let (x, y) := place r (turnedBox? n r)
  let window := n.window duration
  "overlay=x=" ++ Filter.quotedIfCommas x ++ ":y=" ++ Filter.quotedIfCommas y ++
    ":enable='between(t," ++ Filter.number window.appear ++ "," ++
    Filter.number window.disappear ++ ")'"

end Montage.Composite
