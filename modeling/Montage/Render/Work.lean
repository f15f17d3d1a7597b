import Montage.Render.Planned
import Montage.Render.Resolve

/-!
# The work on a unit

A unit is rendered after the units below it: its directories are made, its children rendered beside
each other and attached, its assets resolved, its timeline compiled, the plan's files written and
its programs run.  When that has ended, for good or ill, the unit's directory is removed, and after
an error its output too, unless files are kept for debugging.
-/

namespace Montage

open Script

namespace RenderUnit

def writeFiles : List TextFile → Script Unit
  | [] => pure ()
  | f :: rest => do
    checkFile (← ask (.write f.path f.contents))
    writeFiles rest

/-- How far a unit is. -/
structure Position where
  unit : String
  /-- The frames of the programs that are done. -/
  done : Nat
  /-- The frames of all programs, at least one. -/
  total : Nat
  deriving Repr, DecidableEq

/-- The fraction of the unit's frames, given those of the running program. -/
def Position.fraction (p : Position) (frame : Nat) : Float :=
  Float.ofNat ((p.done + frame) % UInt64.size) / Float.ofNat p.total

/-- Reports frames of the running program. -/
def reportFrames (p : Position) : List Nat → Script Unit
  | [] => pure ()
  | frame :: rest => do
    ask (.progress p.unit (p.fraction frame))
    reportFrames p rest

/-- Runs the media tool.  The file it makes is named by its last argument. -/
def runTool (p : Position) (args : List String) : Script Unit := do
  let run ← ask (.start p.unit args)
  reportFrames p run.frames
  match run.ending with
  | .success => checkFile (← ask (.produce (args.getLast?.getD "")))
  | .failure e => fail e
  | .never =>
    ask .await
    fail .cancelled

/-- The frames of a scene's program. -/
def sceneFrames (duration : Float) (fps : UInt32) : Nat :=
  (Scalar.nearest (duration * fps.toFloat)).toUInt64.toNat

/-- How far a unit is with so many frames more; they are counted in sixty-four bits. -/
def Position.forward (p : Position) (frames : Nat) : Position :=
  { p with done := (p.done + frames) % UInt64.size }

/-- Runs the scenes' programs in order; yields how far the unit is then. -/
def runScenes (settings : Settings) (p : Position) : List Program → Script Position
  | [] => pure p
  | program :: rest => do
    runTool p (program.args settings)
    runScenes settings (p.forward (sceneFrames program.duration settings.fps)) rest

def runFinish (settings : Settings) (p : Position) : Finish → Script Unit
  | .relocate source target => do checkFile (← ask (.move source target))
  | .program program => runTool p (program.args settings)

/-- Writes the plan's files and runs its programs. -/
def runPlan (unit : String) (settings : Settings) (plan : Plan) : Script Unit := do
  writeFiles plan.files
  let p ← runScenes settings ⟨unit, 0, max plan.totalFrames 1⟩ plan.scenes
  runFinish settings p plan.finish

/-- Makes the directories of a unit. -/
def makeDirs (site : Site) : Script Unit := do
  checkFile (← ask (.makeDirs site.cacheDir))
  match Path.parent? site.output with
  | some parent => checkFile (← ask (.makeDirs parent))
  | none => pure ()

/-- The work on a unit, given its children and the tasks that render them. -/
def work (site : Site) (t : Timeline) (children : List (Child RenderUnit)) (tasks : List Task) :
    Script String := do
  makeDirs site
  ask (.register site.id)
  let outputs ← join tasks
  let t := attachAll t ((children.zip outputs).map fun (c, output) => { c with unit := output })
  let t ← Resolve.timeline site.cacheDir t
  match t.compile site.layout with
  | .error e => fail (.compile e)
  | .ok (t, plan) =>
    runPlan site.id t.settings plan
    ask (.complete site.id)
    return site.output

/-- What follows the work on a unit: its directory is removed, after an error its output too; files
that are to be kept stay. -/
def close (site : Site) (keep : Bool) (outcome : Outcome) : Task :=
  if keep then .done outcome
  else
    .act (.removeDir site.cacheDir) fun _ =>
      match outcome with
      | .ok path => .done (.ok path)
      | .error e => .act (.removeFile site.output) fun _ => .done (.error e)

mutual
/-- The task that renders a unit and all units below it. -/
def task (keep : Bool) : RenderUnit → Task
  | ⟨site, t, children⟩ =>
    .watch (work site t children (tasksBelow keep children)).toTask
      (close site (keep || t.settings.debug))
/-- The tasks that render children. -/
def tasksBelow (keep : Bool) : List (Child RenderUnit) → List Task
  | [] => []
  | ⟨_, _, unit⟩ :: rest => task keep unit :: tasksBelow keep rest
end

end RenderUnit

end Montage
