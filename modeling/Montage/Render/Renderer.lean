import Montage.Render.Work
import Montage.Render.World

/-!
# Starting renders

A renderer puts each render into a directory of its own and hands back what is needed to follow it:
its task, its board, and whether it was cancelled.
-/

namespace Montage

/-- Where renders keep their files, and whether those are kept in any case. -/
structure Renderer where
  cacheRoot : String
  keep : Bool
  deriving Repr, DecidableEq

/-- A render on its way. -/
structure Render where
  task : Task
  board : Board Float
  cancelled : Bool := false

namespace Renderer

/-- The site of a render, named by its key. -/
def site (r : Renderer) (key output : String) : Site := ⟨key, Path.join r.cacheRoot key, output⟩

def unit (r : Renderer) (key : String) (t : Timeline) (output : String) : RenderUnit :=
  .build (r.site key output) t

/-- Starts to render a timeline into a file.  All units are known to the board from the start. -/
def start (r : Renderer) (key : String) (t : Timeline) (output : String) (keep : Bool) : Render :=
  let unit := r.unit key t output
  { task := unit.task (r.keep || keep)
    board := Board.empty.registerAll unit.ids }

end Renderer

namespace Render

/-- The surroundings of the render over some files and what has happened to them. -/
def world (r : Render) (files : FileTree) (log : List Event) : World :=
  { files, board := r.board, log, cancelled := r.cancelled }

/-- Runs the render as far as it goes. -/
def advance (tools : Tools) (r : Render) (files : FileTree) (log : List Event) : Render × World :=
  let (task, w) := r.task.advance tools (r.world files log)
  ({ r with task, board := w.board }, w)

/-- How the render ended, if it has. -/
def outcome? (r : Render) : Option Outcome := r.task.outcome?

def cancel (r : Render) : Render := { r with cancelled := true }

end Render

end Montage
