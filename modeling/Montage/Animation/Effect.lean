import Montage.Text.Split
import Montage.Timeline.Basic

/-!
# Named effects

`Effect.animations` turns the name of an effect into animations of a node with the given frame on a
stage of the given size.  A name that is not known drives nothing; it opens a window of time, and
closes one if it holds `Out`.

A move brings the node in from an edge of the stage to its place, or takes it from its place out
over an edge; `Move.rest` is the end of it that lies at the node's place.
-/

namespace Montage.Effect

/-- The way a move goes. -/
inductive Way where
  | left
  | right
  | up
  | down
  deriving Repr, DecidableEq

/-- A place, over any numbers. -/
structure Place (α : Type) where
  x : α
  y : α
  deriving Repr, DecidableEq

/-- A move from one place to another. -/
structure Move (α : Type) where
  start : Place α
  finish : Place α
  deriving Repr, DecidableEq

section

variable {α : Type} [Scalar α]

/-- The place just outside the stage from which a node comes in, or to which it goes out, level with
its frame.  A node that comes in from the left or goes out to the left stands left of the stage; one
that comes in upwards stands below, one that goes out upwards above. -/
def outside (direction : Direction) (way : Way) (frame : Box α) (stageW stageH : α) : Place α :=
  match direction, way with
  | _, .left => ⟨-frame.w, frame.y⟩
  | _, .right => ⟨stageW, frame.y⟩
  | .entering, .up => ⟨frame.x, stageH⟩
  | .entering, .down => ⟨frame.x, -frame.h⟩
  | .leaving, .up => ⟨frame.x, -frame.h⟩
  | .leaving, .down => ⟨frame.x, stageH⟩

/-- The move of a node with the given frame. -/
def move (direction : Direction) (way : Way) (frame : Box α) (stageW stageH : α) : Move α :=
  let place : Place α := ⟨frame.x, frame.y⟩
  let edge := outside direction way frame stageW stageH
  match direction with
  | .entering => ⟨edge, place⟩
  | .leaving => ⟨place, edge⟩

/-- The end of a move at the node's own place. -/
def Move.rest (m : Move α) : Direction → Place α
  | .entering => m.finish
  | .leaving => m.start

end

/-- The moves by name. -/
def moveNames : List (String × Direction × Way) :=
  [("moveInLeft", .entering, .left), ("moveInRight", .entering, .right),
    ("moveInUp", .entering, .up), ("moveInDown", .entering, .down),
    ("moveOutLeft", .leaving, .left), ("moveOutRight", .leaving, .right),
    ("moveOutUp", .leaving, .up), ("moveOutDown", .leaving, .down)]

def Place.toPoint (p : Place Float) : Point := ⟨p.x, p.y⟩

def namesLeaving (name : String) : Bool :=
  Text.holds ['O', 'u', 't'] name.toList

/-- The motions of a named effect and their direction. -/
def motions (name : String) (frame : Rect) (stageW stageH : Float) : Direction × List Motion :=
  match moveNames.lookup name with
  | some (direction, way) =>
    let m := move direction way frame stageW stageH
    (direction, [.move m.start.toPoint m.finish.toPoint])
  | none =>
    match name with
    | "fadeIn" => (.entering, [.fade 0.0 1.0])
    | "fadeOut" => (.leaving, [.fade 1.0 0.0])
    | "zoomIn" => (.entering, [.zoom 0.5 1.0, .fade 0.0 1.0])
    | "zoomOut" => (.leaving, [.zoom 1.0 0.5, .fade 1.0 0.0])
    | "zoomingIn" => (.entering, [.zoom 1.0 1.2])
    | "zoomingOut" => (.entering, [.zoom 1.2 1.0])
    | "rotateIn" => (.entering, [.rotate (-180.0) 0.0, .fade 0.0 1.0])
    | "rotateOut" => (.leaving, [.rotate 0.0 180.0, .fade 1.0 0.0])
    | other => (if namesLeaving other then .leaving else .entering, [.effect other])

/-- The animations of a named effect. -/
def animations (name : String) (start duration : Float) (frame : Rect) (stageW stageH : Float) :
    List Animation :=
  let (direction, motions) := motions name frame stageW stageH
  motions.map fun motion => { motion, direction, start, duration }

end Montage.Effect
