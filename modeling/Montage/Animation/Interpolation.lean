import Montage.Filter.Number
import Montage.Timeline.Basic

/-!
# Ramps

An interpolation holds its first value until it starts, its last value once it is over, and runs in
a straight line between.  `expr` writes it as an expression over a time variable.
-/

namespace Montage

/-- A straight ramp. -/
structure Interpolation where
  first : Float
  last : Float
  start : Float
  finish : Float
  deriving Repr, DecidableEq, Inhabited

namespace Interpolation

/-- The ramp that starts at a time and takes so long; a negative length counts as none. -/
def ofDuration (first last start duration : Float) : Interpolation :=
  ⟨first, last, start, start + Scalar.greatest duration 0.0⟩

/-- The ramp as an expression over the variable. -/
def expr (i : Interpolation) (var : String) : String :=
  let first := Filter.number i.first
  let last := Filter.number i.last
  let start := Filter.number i.start
  let finish := Filter.number i.finish
  let span := i.finish - i.start
  if span <= 0.0 || i.first == i.last then
    "if(lt(" ++ var ++ "," ++ start ++ ")," ++ first ++ "," ++ last ++ ")"
  else
    "if(lt(" ++ var ++ "," ++ start ++ ")," ++ first ++ ",if(gt(" ++ var ++ "," ++ finish ++ ")," ++
      last ++ "," ++ first ++ "+(" ++ Filter.number (i.last - i.first) ++ ")*(" ++ var ++ "-" ++
      start ++ ")/" ++ Filter.number span ++ "))"

end Interpolation

end Montage
