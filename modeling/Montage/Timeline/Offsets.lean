import Montage.Timeline.Basic
import Montage.Timeline.Millis

/-!
# Where scenes start

The starts of the scenes in whole milliseconds, when they stand one behind the other and when each
transition overlaps the scene before it.
-/

namespace Montage

/-- The scene's length in milliseconds. -/
def Scene.millis {τ : Type} (s : Scene τ) : Int := toMillis s.duration

/-- How long the transition into the scene takes, in milliseconds; none takes no time. -/
def Scene.transitionMillis {τ : Type} (s : Scene τ) : Int :=
  match s.transition with
  | some t => toMillis t.duration
  | none => 0

/-- The starts of stretches of the given lengths, one behind the other from `start` on. -/
def startsFrom (start : Int) : List Int → List Int
  | [] => []
  | length :: rest => start :: startsFrom (wrap64 (start + length)) rest

/-- The starts of stretches, each given by its overlap with the one before and its length; the
overlap of the first one is given as zero.  No start is before zero. -/
def overlappedStartsFrom (finish : Int) : List (Int × Int) → List Int
  | [] => []
  | (overlap, length) :: rest =>
    let start := wrap64 (finish - overlap)
    max start 0 :: overlappedStartsFrom (wrap64 (start + length)) rest

namespace Timeline

/-- The lengths of the scenes, added up before transitions overlap them. -/
def scenesMillis (t : Timeline) : Int := wrap64 (addUp (t.scenes.map Scene.millis))

/-- The starts of the scenes in milliseconds, one behind the other. -/
def startMillis (t : Timeline) : List Int := startsFrom 0 (t.scenes.map Scene.millis)

/-- The overlap of each scene with the scene before it, and its length. -/
def overlaps (t : Timeline) : List (Int × Int) :=
  match t.scenes with
  | [] => []
  | first :: rest => (0, first.millis) :: rest.map fun s => (s.transitionMillis, s.millis)

/-- The starts of the scenes in milliseconds, transitions overlapping. -/
def crossfadeStartMillis (t : Timeline) : List Int := overlappedStartsFrom 0 t.overlaps

/-- The starts of the scenes in seconds, one behind the other. -/
def starts (t : Timeline) : List Float := t.startMillis.map toSeconds

/-- The starts of the scenes in seconds, transitions overlapping. -/
def crossfadeStarts (t : Timeline) : List Float := t.crossfadeStartMillis.map toSeconds

/-- The frames of all scenes, for judging progress. -/
def frames (t : Timeline) : Nat :=
  (Scalar.greatest (Scalar.nearest (toSeconds t.scenesMillis * t.settings.fps.toFloat))
    0.0).toUInt64.toNat

end Timeline

end Montage
