import Montage.Animation.Interpolation

/-!
# Resolved animations

A node has at most one ramp for each of its attributes.  Of the animations that drive one attribute
the last one counts, and it counts as a whole.
-/

namespace Montage

/-- The ramps of a node, and where and how visible it is once they are over. -/
structure Resolved where
  x : Option Interpolation := none
  y : Option Interpolation := none
  alpha : Option Interpolation := none
  scale : Option Interpolation := none
  angle : Option Interpolation := none
  frame : Rect
  opacity : Option Float := none
  deriving Repr, DecidableEq

namespace Resolved

/-- Takes one more animation in. -/
def add (r : Resolved) (a : Animation) : Resolved :=
  let ramp (first last : Float) : Interpolation := .ofDuration first last a.start a.duration
  match a.motion with
  | .move start finish =>
    { r with
      x := some (ramp start.x finish.x)
      y := some (ramp start.y finish.y)
      frame := { r.frame with x := finish.x, y := finish.y } }
  | .fade start finish => { r with alpha := some (ramp start finish), opacity := some finish }
  | .zoom start finish => { r with scale := some (ramp start finish) }
  | .rotate start finish => { r with angle := some (ramp start finish) }
  | .effect _ => r

def isStatic (r : Resolved) : Bool :=
  r.x.isNone && r.y.isNone && r.alpha.isNone && r.scale.isNone && r.angle.isNone

/-- The size on the screen changes over time. -/
def resizes (r : Resolved) : Bool := r.scale.isSome || r.angle.isSome

end Resolved

/-- The ramps of the node's animations. -/
def Node.resolve {τ : Type} (n : Node τ) : Resolved :=
  n.animations.foldl Resolved.add { frame := n.frame, opacity := n.opacity }

end Montage
