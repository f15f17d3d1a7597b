import Montage.Json.Value
import Montage.Timeline.Encode

/-!
# Jobs

A job is a render as its clients know it.  Its status moves to one of three ends and stays there.
-/

namespace Montage

/-- Where a job stands. -/
inductive JobStatus where
  | pending
  | running
  | completed
  | failed
  | cancelled
  deriving Repr, DecidableEq, Inhabited

namespace JobStatus

/-- The job has come to its end. -/
def isTerminal : JobStatus → Bool
  | .completed | .failed | .cancelled => true
  | .pending | .running => false

def name : JobStatus → String
  | .pending => "pending"
  | .running => "running"
  | .completed => "completed"
  | .failed => "failed"
  | .cancelled => "cancelled"

def ofName? : String → Option JobStatus
  | "pending" => some .pending
  | "running" => some .running
  | "completed" => some .completed
  | "failed" => some .failed
  | "cancelled" => some .cancelled
  | _ => none

end JobStatus

/-- A job. -/
structure Job where
  id : Int
  status : JobStatus := .pending
  progress : Float := 0.0
  output : String
  error : Option String := none
  deriving Repr, DecidableEq, Inhabited

/-- What is told about a job when it changes. -/
structure JobEvent where
  job : Int
  status : JobStatus
  progress : Float
  error : Option String
  deriving Repr, DecidableEq, Inhabited

namespace Job

/-- What is told about the job as it is now. -/
def event (j : Job) : JobEvent := ⟨j.id, j.status, j.progress, j.error⟩

/-- The job with another status; its progress only grows. -/
def moved (status : JobStatus) (progress : Option Float) (j : Job) : Job :=
  { j with
    status
    progress := match progress with
      | some p => Scalar.greatest j.progress p
      | none => j.progress }

def failed (error : String) (j : Job) : Job := { j with status := .failed, error := some error }

def toJson (j : Job) : Json :=
  .obj [("id", .int j.id), ("status", .str j.status.name), ("progress", Json.ofFloat j.progress),
    ("output", .str j.output), ("error", Json.ofText? j.error)]

end Job

def JobEvent.toJson (e : JobEvent) : Json :=
  .obj [("job_id", .int e.job), ("status", .str e.status.name),
    ("progress", Json.ofFloat e.progress), ("error", Json.ofText? e.error)]

end Montage
