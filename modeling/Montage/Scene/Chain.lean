import Montage.Program.Basic
import Montage.Scene.Composite
import Montage.Scene.Drawtext
import Montage.Subtitle.Style
import Montage.Text.Blank

/-!
# The chain of a node

Each node that shows something adds its picture to a program, runs it through its filters and lays
it over the scene so far.
-/

namespace Montage

/-- What nodes are laid on: the size of the picture, its frame rate, its length in seconds. -/
structure Stage where
  width : UInt32
  height : UInt32
  fps : UInt32
  duration : Float
  deriving Repr, DecidableEq

namespace Stage

variable {τ : Type}

/-- A length in whole pixels, or else the stage's; at least one. -/
def canvasLength (length : Float) (whole : UInt32) : UInt32 :=
  let n := if length > 0.0 then (Scalar.nearest length).toUInt32 else whole
  if n = 0 then 1 else n

/-- The picture of one colour in a given size for the length of the stage. -/
def canvas (s : Stage) (color : String) (w h : UInt32) : String :=
  "color=c=" ++ color ++ ":s=" ++ toString w.toNat ++ "x" ++ toString h.toNat ++ ":d=" ++
    Filter.number s.duration ++ ":r=" ++ toString s.fps.toNat

/-- The filter that lets a clip begin when its node appears. -/
def delayFilters (n : Node τ) : List String :=
  match n.start with
  | some start =>
    if start > 0.0 then ["setpts=PTS-STARTPTS+" ++ Filter.number start ++ "/TB"] else []
  | none => []

/-- Lays a picture over the scene, through the node's filters. -/
def lay (s : Stage) (p : Program) (scene picture : Graph.Context) (n : Node τ) (isText : Bool) :
    Graph.Context × Program :=
  let r := n.resolve
  let (picture, p) := p.applyAll picture (Composite.filters n r isText) "v"
  p.combine [scene, picture] (Composite.overlay n r s.duration) "ov"

/-- Reads an input, runs it through some filters and lays it over the scene. -/
def layInput (s : Stage) (p : Program) (scene : Graph.Context) (input : Input)
    (filters : List String) (n : Node τ) : Graph.Context × Program :=
  let (index, p) := p.addInput input
  let (picture, p) := p.applyAll (.ofInput index .video) filters "v"
  s.lay p scene picture n false

/-- Draws a text on a canvas of the node's size and lays it over the scene. -/
def layText (s : Stage) (p : Program) (scene : Graph.Context) (words : String) (style : TextStyle)
    (n : Node τ) : Graph.Context × Program :=
  let size := s.canvas "black@0" (canvasLength n.frame.w s.width) (canvasLength n.frame.h s.height)
  let (picture, p) := p.combine [] size "txt"
  let drawn := Drawtext.filter words style n.resolve.alpha n.opacity
  let (picture, p) := p.applyAll picture [Composite.alphaFilter, drawn] "txt"
  s.lay p scene picture n true

/-- Adds a node to the program and yields what shows the scene now.  Sounds and blank texts show
nothing; a composition has to be rendered already. -/
def addNode (s : Stage) (p : Program) (scene : Graph.Context) (n : Node τ) :
    Except CompileError (Graph.Context × Program) :=
  match n.kind with
  | .audio _ => .ok (scene, p)
  | .subtitle path style vertical =>
    .ok (p.applyAll scene [Subtitle.filter path style n.frame vertical s.width s.height] "sub")
  | .text words style =>
    if Text.allBlank words then .ok (scene, p) else .ok (s.layText p scene words style n)
  | .image path => .ok (s.layInput p scene (.loopedImage path s.duration s.fps) [] n)
  | .video path cutFrom cutTo _ =>
    .ok (s.layInput p scene (.clip path cutFrom cutTo) (delayFilters n) n)
  | .composition _ (some output) => .ok (s.layInput p scene (.file output) (delayFilters n) n)
  | .composition _ none => .error (.missingAsset "nested composition has not been rendered")

/-- Adds nodes one after another, up to the first that fails. -/
def addNodes (s : Stage) (p : Program) (scene : Graph.Context) :
    List (Node τ) → Except CompileError (Graph.Context × Program)
  | [] => .ok (scene, p)
  | n :: rest =>
    match s.addNode p scene n with
    | .error e => .error e
    | .ok (scene, p) => s.addNodes p scene rest

end Stage

end Montage
