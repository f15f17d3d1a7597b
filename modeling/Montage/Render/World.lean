import Montage.Files.Tree
import Montage.Render.Board
import Montage.Render.Task

/-!
# Running tasks

The surroundings of a task are a tree of files, a board, and tools that are given as functions.  A
task is run as far as it goes: `Task.advance` stops at its end, or where it waits to be cancelled.
Tasks beside each other are run one after the other; `Task.Step` also allows every other order.
Where a task is dropped, the operations on files that it waits for may have been begun; each of
these comes to its end at some later time (`Task.Drift`).
-/

namespace Montage

/-- What the tools do.  A run of the media tool may depend on how many runs there were before. -/
structure Tools where
  run : Nat → List String → Run
  probe : String → Except RenderError MediaInfo
  fetch : String → Except String String

/-- What can be seen of a render from outside. -/
inductive Event where
  | started (unit : String) (args : List String)
  /-- Frames were reported; the value published then. -/
  | progressed (unit : String) (published : Float)
  | probed (path : String)
  deriving Repr, DecidableEq

/-- The surroundings of a task. -/
structure World where
  files : FileTree
  board : Board Float
  /-- What has happened, the first event first. -/
  log : List Event := []
  cancelled : Bool := false
  /-- The operations on files that were begun and that nobody waits for any more. -/
  late : List Action := []
  deriving Repr

namespace World

/-- The surroundings with one more event. -/
def record (w : World) (e : Event) : World := { w with log := w.log ++ [e] }

/-- The event is the start of the media tool. -/
def isStart : Event → Bool
  | .started .. => true
  | _ => false

/-- How many runs of the media tool there were. -/
def runs (w : World) : Nat := w.log.countP isStart

/-- What comes of a change to the files. -/
def change (w : World) : Except Trouble FileTree → Except Trouble Unit × World
  | .ok files => (.ok (), { w with files })
  | .error t => (.error t, w)

/-- What is written into a file by the media tool. -/
def produced : String := "video"

/-- Does what a task asks for. -/
def perform (tools : Tools) (w : World) : (a : Action) → a.Reply × World
  | .register unit => ((), { w with board := w.board.register unit })
  | .makeDirs path =>
    let (reply, files) := w.files.makeDirs path
    (reply, { w with files })
  | .look path => (w.files.holds path, w)
  | .fetch url => (tools.fetch url, w)
  | .probe path => (tools.probe path, w.record (.probed path))
  | .write path contents => w.change (w.files.write path contents)
  | .move source target => w.change (w.files.move source target)
  | .start unit args => (tools.run w.runs args, w.record (.started unit args))
  | .progress unit fraction =>
    let board := w.board.report unit fraction
    ((), { w with board }.record (.progressed unit board.published))
  | .produce path => w.change (w.files.write path produced)
  | .await => ((), w)
  | .complete unit => ((), { w with board := w.board.report unit 1.0 })
  | .removeDir path => ((), { w with files := w.files.removeDir path })
  | .removeFile path => ((), { w with files := w.files.removeFile path })

/-- The surroundings once nobody waits any more for operations that were begun. -/
def abandon (w : World) (lost : List Action) : World := { w with late := lost ++ w.late }

/-- The surroundings once an operation that nobody waited for has come to its end, apart from
others. -/
def land (tools : Tools) (w : World) (a : Action) (others : List Action) : World :=
  { (w.perform tools a).2 with late := others }

end World

namespace Task

/-- How tasks beside each other stand. -/
inductive Standing where
  | failed (e : RenderError)
  | open
  | finished (paths : List String)
  deriving Repr, DecidableEq

/-- How the tasks stand: the first error counts, then a task that is not done. -/
def standing : List Task → Standing
  | [] => .finished []
  | .done (.error e) :: _ => .failed e
  | .done (.ok path) :: rest =>
    match standing rest with
    | .finished paths => .finished (path :: paths)
    | other => other
  | _ :: rest =>
    match standing rest with
    | .failed e => .failed e
    | _ => .open

/-- The task has ended. -/
def outcome? : Task → Option Outcome
  | .done outcome => some outcome
  | _ => none

mutual
/-- Runs a task as far as it goes. -/
def advance (tools : Tools) : Task → World → Task × World
  | .done outcome, w => (.done outcome, w)
  | .act a next, w =>
    if a = .await ∧ ¬w.cancelled then (.act a next, w)
    else
      let (reply, w) := w.perform tools a
      advance tools (next reply) w
  | .join parts next, w =>
    let (parts, w) := advanceAll tools parts w
    match standing parts with
    | .failed e => (.done (.error e), w)
    | .open => (.join parts next, w)
    | .finished paths => advance tools (next paths) w
  | .watch body close, w =>
    if w.cancelled then advance tools (close (.error .cancelled)) w
    else
      let (body, w) := advance tools body w
      match body.outcome? with
      | some outcome => advance tools (close outcome) w
      | none => (.watch body close, w)
/-- Runs tasks one after the other, up to the first that fails. -/
def advanceAll (tools : Tools) : List Task → World → List Task × World
  | [], w => ([], w)
  | task :: rest, w =>
    let (task, w) := advance tools task w
    match task.outcome? with
    | some (.error e) => (.done (.error e) :: rest, w)
    | _ =>
      let (rest, w) := advanceAll tools rest w
      (task :: rest, w)
end

/-- Something asked of the surroundings, with what they and the tools were at the time. -/
structure Deed where
  before : World
  tools : Tools
  action : Action

/-- One step of a task and what is asked in it, in any order that tasks beside each other may have.
The tools may answer otherwise each time.  Once the render is cancelled, any body that is watched
may be dropped.  Of the operations that a dropped task waits for, some may have been begun. -/
inductive Step : Task × World → List Deed → Task × World → Prop where
  | act {a : Action} {next : a.Reply → Task} {w : World} (tools : Tools)
      (h : a = .await → w.cancelled) :
    Step (.act a next, w) [⟨w, tools, a⟩]
      (next (w.perform tools a).1, (w.perform tools a).2)
  | part {before after : List Task} {task task' : Task} {next : List String → Task}
      {w w' : World} {deeds : List Deed} (h : Step (task, w) deeds (task', w')) :
    Step (.join (before ++ task :: after) next, w) deeds
      (.join (before ++ task' :: after) next, w')
  | finished {paths : List String} {next : List String → Task} {w : World} :
    Step (.join (paths.map fun path => .done (.ok path)) next, w) [] (next paths, w)
  | failed {parts : List Task} {e : RenderError} {next : List String → Task} {w : World}
      {lost : List Action} (h : .done (.error e) ∈ parts)
      (hlost : lost.Sublist (pendingAll parts)) :
    Step (.join parts next, w) [] (.done (.error e), w.abandon lost)
  | body {task task' : Task} {close : Outcome → Task} {w w' : World} {deeds : List Deed}
      (h : Step (task, w) deeds (task', w')) :
    Step (.watch task close, w) deeds (.watch task' close, w')
  | closed {outcome : Outcome} {close : Outcome → Task} {w : World} :
    Step (.watch (.done outcome) close, w) [] (close outcome, w)
  | dropped {task : Task} {close : Outcome → Task} {w : World} {lost : List Action}
      (h : w.cancelled) (hlost : lost.Sublist task.pending) :
    Step (.watch task close, w) [] (close (.error .cancelled), w.abandon lost)

/-- What happens without the task: the render is cancelled, or an operation that nobody waits for
any more comes to its end. -/
inductive Drift : World → List Deed → World → Prop where
  | cancel {w : World} : Drift w [] { w with cancelled := true }
  | land {w : World} (tools : Tools) {before after : List Action} {a : Action}
      (h : w.late = before ++ a :: after) :
    Drift w [⟨w, tools, a⟩] (w.land tools a (before ++ after))

/-- What happens one after the other, and all that is asked in it. -/
inductive Runs : Task × World → List Deed → Task × World → Prop where
  | refl {c : Task × World} : Runs c [] c
  | step {c c' c'' : Task × World} {deeds more : List Deed} (h : Runs c deeds c')
      (hstep : Step c' more c'') : Runs c (deeds ++ more) c''
  | drift {c : Task × World} {task : Task} {w w' : World} {deeds more : List Deed}
      (h : Runs c deeds (task, w)) (hdrift : Drift w more w') : Runs c (deeds ++ more) (task, w')

end Task

end Montage
