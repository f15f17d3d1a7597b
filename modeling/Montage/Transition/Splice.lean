import Montage.Error
import Montage.Filter.Number

/-!
# Splicing scenes

Scenes are joined with the transition that the later scene of each pair carries.  Each scene is cut
in two: its tail is exactly as long as the next transition, its body is what comes before (the last
scene keeps a tail as long as its own transition).  A tail is crossfaded into the next body, and the
first body, the crossfades and the last tail are put one behind the other.

Lengths are whole milliseconds of sixty-four bits.
-/

namespace Montage.Transition

/-- A scene that goes into a splice. -/
structure Segment where
  input : Graph.Context
  duration : Int
  transition : String
  transitionLength : Int
  deriving Repr, DecidableEq

/-- A segment with the length of its tail. -/
structure Cut where
  segment : Segment
  tail : Int
  deriving Repr, DecidableEq

/-- The two pieces of a segment. -/
structure Pieces where
  body : Graph.Context
  tail : Graph.Context
  deriving Repr, DecidableEq

/-- The length of the result: all lengths without all transitions but the first segment's. -/
def splicedLength (segments : List Segment) : Int :=
  wrap64 (addUp (segments.map (·.duration)) - addUp ((segments.drop 1).map (·.transitionLength)))

/-- Where each segment is cut. -/
def cuts : List Segment → List Cut
  | [] => []
  | [s] => [⟨s, s.transitionLength⟩]
  | s :: next :: rest => ⟨s, next.transitionLength⟩ :: cuts (next :: rest)

/-- The length of the body of a cut. -/
def Cut.body (c : Cut) : Int := wrap64 (c.segment.duration - c.tail)

/-- The segment is no shorter than its own transition, and its body is not empty. -/
def Cut.fits (c : Cut) : Bool :=
  c.segment.transitionLength ≤ c.segment.duration && 0 < c.body

/-- What is wrong with a cut that does not fit. -/
def Cut.error (c : Cut) (index : Nat) : CompileError :=
  if c.segment.duration < c.segment.transitionLength then
    .shortScene index c.segment.duration c.segment.transitionLength
  else .shortScene index c.segment.duration c.tail

/-- The error of the first cut that does not fit, counted from an index on. -/
def firstError (index : Nat) : List Cut → Option CompileError
  | [] => none
  | c :: rest => if c.fits then firstError (index + 1) rest else some (c.error index)

/-- A length as it stands in a filter. -/
def lengthText (millis : Int) : String := Filter.number (toSeconds millis)

/-- Cuts a segment in two. -/
def Cut.apply (c : Cut) (g : Graph) : Pieces × Graph :=
  let cutText := lengthText c.body
  let finishText := lengthText c.segment.duration
  let ((first, second), g) := g.splitTwo c.segment.input
  let (body, g) := g.apply first ("trim=0:" ++ cutText) "trim"
  let (tail, g) := g.apply second ("trim=" ++ cutText ++ ":" ++ finishText) "trim"
  let (tail, g) := g.apply tail "setpts=PTS-STARTPTS" "trim"
  (⟨body, tail⟩, g)

/-- Cuts segments in two, one after another. -/
def applyCuts (g : Graph) : List Cut → List Pieces × Graph
  | [] => ([], g)
  | c :: rest =>
    let (pieces, g) := c.apply g
    let (others, g) := applyCuts g rest
    (pieces :: others, g)

/-- The crossfade into a segment. -/
def Segment.crossfade (s : Segment) : String :=
  "xfade=transition=" ++ s.transition ++ ":duration=" ++ lengthText s.transitionLength ++
    ":offset=0"

/-- Crossfades a tail into the next body, and so on; the last tail stays. -/
def crossfades (g : Graph) (tail : Graph.Context) :
    List (Segment × Pieces) → List Graph.Context × Graph
  | [] => ([tail], g)
  | (s, pieces) :: rest =>
    let (faded, g) := g.combine [tail, pieces.body] s.crossfade "trans"
    let (others, g) := crossfades g pieces.tail rest
    (faded :: others, g)

/-- The parts of the result, in order. -/
def parts (g : Graph) : List (Segment × Pieces) → List Graph.Context × Graph
  | [] => ([], g)
  | (_, pieces) :: rest =>
    let (others, g) := crossfades g pieces.tail rest
    (pieces.body :: others, g)

/-- Splices the segments: the joined stream and its length.  The graph keeps the steps of the
segments before one that does not fit. -/
def splice (g : Graph) (segments : List Segment) :
    Except CompileError (Graph.Context × Int) × Graph :=
  if segments.length < 2 then (.error (.invalid .tooFewScenes), g)
  else
    let cuts := cuts segments
    let (pieces, g) := applyCuts g (cuts.takeWhile Cut.fits)
    match firstError 0 cuts with
    | some e => (.error e, g)
    | none =>
      let (parts, g) := parts g (segments.zip pieces)
      let (joined, g) := g.combine parts ("concat=n=" ++ toString parts.length) "gl"
      (.ok (joined, splicedLength segments), g)

end Montage.Transition
