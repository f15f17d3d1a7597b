import Montage.Files.Trouble
import Montage.Media.Info
import Montage.Render.Error

/-!
# Tasks

A task is a tree of what is left to do.  It is done, or it asks something of its surroundings and
goes on with the answer, or it waits for other tasks that run beside each other, or it watches over
a body of work and closes when the body has ended or is cancelled.

A task that is dropped does not take back what it has asked for: an operation on files that was
begun goes on to its end, when nobody waits for it any more (`Task.pending`).

A `Script` is a task that is still to be told how to go on; scripts are written one line after the
other.
-/

namespace Montage

/-- How a run of the media tool ends. -/
inductive Ending where
  | success
  | failure (e : RenderError)
  /-- The tool runs until it is cancelled. -/
  | never
  deriving Repr, DecidableEq

/-- A run of the media tool: the numbers of frames it reports, and how it ends. -/
structure Run where
  frames : List Nat
  ending : Ending
  deriving Repr, DecidableEq

/-- What a task asks of its surroundings. -/
inductive Action where
  /-- Make a unit known on the board. -/
  | register (unit : String)
  | makeDirs (path : String)
  /-- Whether something stands at a path. -/
  | look (path : String)
  | fetch (url : String)
  | probe (path : String)
  | write (path contents : String)
  | move (source target : String)
  /-- Start the media tool for a unit. -/
  | start (unit : String) (args : List String)
  /-- The media tool has come so far. -/
  | progress (unit : String) (fraction : Float)
  /-- The media tool writes its file. -/
  | produce (path : String)
  /-- Wait to be cancelled. -/
  | await
  /-- A unit is finished. -/
  | complete (unit : String)
  | removeDir (path : String)
  | removeFile (path : String)
  deriving Repr, DecidableEq

/-- The action is an operation on files.  Once begun it cannot be stopped. -/
def Action.isFileOperation : Action → Bool
  | .makeDirs _ | .write .. | .move .. | .removeDir _ | .removeFile _ => true
  | _ => false

/-- What is answered. -/
abbrev Action.Reply : Action → Type
  | .makeDirs _ | .write .. | .move .. | .produce _ => Except Trouble Unit
  | .look _ => Except Trouble Bool
  | .fetch _ => Except String String
  | .probe _ => Except RenderError MediaInfo
  | .start .. => Run
  | .register _ | .progress .. | .await | .complete _ | .removeDir _ | .removeFile _ => Unit

/-- The file that was made, or why there is none. -/
abbrev Outcome := Except RenderError String

/-- What is left to do. -/
inductive Task where
  | done (outcome : Outcome)
  | act (a : Action) (next : a.Reply → Task)
  /-- Tasks beside each other.  When all of them have made their files, the files are passed on in
  the order of the tasks; when one fails, the others are dropped. -/
  | join (parts : List Task) (next : List String → Task)
  /-- A body that is dropped when the task is cancelled, and what follows it in any case. -/
  | watch (body : Task) (close : Outcome → Task)

namespace Task

mutual
/-- The operations on files that a task waits for. -/
def pending : Task → List Action
  | .done _ => []
  | .act a _ => if a.isFileOperation then [a] else []
  | .join parts _ => pendingAll parts
  | .watch body _ => pending body
/-- The operations on files that tasks beside each other wait for. -/
def pendingAll : List Task → List Action
  | [] => []
  | task :: rest => pending task ++ pendingAll rest
end

end Task

/-- A task that yields a value on its way. -/
def Script (α : Type) := (α → Task) → Task

namespace Script

instance : Monad Script where
  pure x := fun next => next x
  bind s f := fun next => s fun x => f x next

/-- Asks something of the surroundings. -/
def ask (a : Action) : Script a.Reply := fun next => .act a next

def fail {α : Type} (e : RenderError) : Script α := fun _ => .done (.error e)

/-- Waits for tasks that run beside each other. -/
def join (parts : List Task) : Script (List String) := fun next => .join parts next

/-- Goes on with a value, or ends with the error. -/
def check {α : Type} : Except RenderError α → Script α
  | .ok x => pure x
  | .error e => fail e

/-- Goes on with a value, or ends because a file cannot be used. -/
def checkFile {α : Type} : Except Trouble α → Script α
  | .ok x => pure x
  | .error t => fail (.file t)

/-- The task that ends with what the script yields. -/
def toTask (s : Script String) : Task := s fun path => .done (.ok path)

end Script

end Montage
