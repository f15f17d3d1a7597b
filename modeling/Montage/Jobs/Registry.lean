import Montage.Jobs.Job

/-!
# The registry of jobs

All jobs, each with the time of its last change and, while it is rendered, the token by which its
render is cancelled.  A change of a job that has not ended yields an event that is to be told to all
who listen; a job that has ended does not change any more.  Ended jobs are dropped once they have
been so for as long as they are to be kept.

Times are whole nanoseconds of a clock that may be set back.
-/

namespace Montage

/-- A render's cancellation. -/
abbrev Token := Nat

/-- A job in the registry. -/
structure JobEntry where
  job : Job
  token : Option Token := none
  updated : Int
  deriving Repr, DecidableEq

/-- All jobs. -/
structure Registry where
  entries : List JobEntry := []
  nextId : Int := 1
  /-- How long an ended job is kept. -/
  retention : Nat
  /-- The tokens whose renders are asked to stop. -/
  fired : List Token := []
  deriving Repr

namespace Registry

def find? (r : Registry) (id : Int) : Option JobEntry := r.entries.find? (·.job.id == id)

def get? (r : Registry) (id : Int) : Option Job := (r.find? id).map (·.job)

/-- The registry with another entry in the place of a job's entry. -/
def replace (r : Registry) (id : Int) (entry : JobEntry) : Registry :=
  { r with entries := r.entries.map fun e => if e.job.id == id then entry else e }

/-! ## Dropping jobs -/

/-- The last change lies at least as far back as `retention`; a change in the future does not. -/
def isExpired (retention : Nat) (now updated : Int) : Bool :=
  0 ≤ now - updated && (retention : Int) ≤ now - updated

/-- The job is kept. -/
def keeps (r : Registry) (now : Int) (e : JobEntry) : Bool :=
  !(e.job.status.isTerminal && isExpired r.retention now e.updated)

/-- Drops ended jobs; yields how many. -/
def prune (r : Registry) (now : Int) : Nat × Registry :=
  let kept := r.entries.filter (r.keeps now)
  (r.entries.length - kept.length, { r with entries := kept })

/-! ## Changing jobs -/

/-- Draws the number of a new job. -/
def draw (r : Registry) : Registry := { r with nextId := r.nextId + 1 }

/-- Takes a new job in under its number. -/
def enter (r : Registry) (now : Int) (id : Int) (output : String) : Registry :=
  { r with entries := r.entries ++ [{ job := { id, output }, updated := now }] }

/-- Takes a new job in; yields its number. -/
def insert (r : Registry) (now : Int) (output : String) : Int × Registry :=
  (r.nextId, r.draw.enter now r.nextId output)

/-- Drops ended jobs and takes a new one in; yields its number. -/
def create (r : Registry) (now : Int) (output : String) : Int × Registry :=
  (r.prune now).2.insert now output

/-- Changes a job that has not ended; yields the event to be told. -/
def update (r : Registry) (now : Int) (id : Int) (change : Job → Job) :
    Option (JobEvent × Registry) :=
  match r.find? id with
  | none => none
  | some e =>
    if e.job.status.isTerminal then none
    else
      let job := change e.job
      let token := if job.status.isTerminal then none else e.token
      some (job.event, r.replace id ⟨job, token, now⟩)

def setStatus (r : Registry) (now : Int) (id : Int) (status : JobStatus)
    (progress : Option Float) : Option (JobEvent × Registry) :=
  r.update now id (Job.moved status progress)

def fail (r : Registry) (now : Int) (id : Int) (error : String) : Option (JobEvent × Registry) :=
  r.update now id (Job.failed error)

/-- What has to be done to cancel a job. -/
inductive Cancellation where
  /-- Nothing: there is no such job, or it has ended. -/
  | refused
  /-- Its render has to be asked to stop; the job ends when the render has. -/
  | fire (token : Token)
  /-- The job has no render and ends at once. -/
  | finish
  deriving Repr, DecidableEq

/-- What has to be done to cancel a job as it is now. -/
def cancellation (r : Registry) (id : Int) : Cancellation :=
  match r.find? id with
  | none => .refused
  | some e =>
    if e.job.status.isTerminal then .refused
    else
      match e.token with
      | some token => .fire token
      | none => .finish

/-- Asks a render to stop. -/
def fire (r : Registry) (token : Token) : Registry := { r with fired := token :: r.fired }

/-- Does what was found to be needed to cancel a job; yields whether it could be done, and the event
of a job that ends at once. -/
def carryOut (r : Registry) (now : Int) (id : Int) :
    Cancellation → Bool × List JobEvent × Registry
  | .refused => (false, [], r)
  | .fire token => (true, [], r.fire token)
  | .finish =>
    match r.setStatus now id .cancelled none with
    | some (event, r) => (true, [event], r)
    | none => (false, [], r)

/-- Asks for a job to be cancelled. -/
def cancel (r : Registry) (now : Int) (id : Int) : Bool × List JobEvent × Registry :=
  r.carryOut now id (r.cancellation id)

/-- The numbers of the jobs that have not ended. -/
def activeIds (r : Registry) : List Int :=
  (r.entries.filter fun e => !e.job.status.isTerminal).map (·.job.id)

/-- How many jobs have not ended. -/
def active (r : Registry) : Nat := r.activeIds.length

/-- Cancels jobs one after another; yields how many could be. -/
def cancelEach (r : Registry) (now : Int) : List Int → Nat × List JobEvent × Registry
  | [] => (0, [], r)
  | id :: rest =>
    let (done, events, r) := r.cancel now id
    let (count, others, r) := r.cancelEach now rest
    ((if done then count + 1 else count), events ++ others, r)

/-- Cancels all jobs that have not ended. -/
def cancelAll (r : Registry) (now : Int) : Nat × List JobEvent × Registry :=
  r.cancelEach now r.activeIds

/-- Gives a job the token of its render. -/
def setToken (r : Registry) (id : Int) (token : Token) : Registry :=
  { r with entries := r.entries.map fun e =>
      if e.job.id == id then { e with token := some token } else e }

/-- Starts to follow a job's render: the job takes its token, then runs. -/
def attach (r : Registry) (now : Int) (id : Int) (token : Token) : List JobEvent × Registry :=
  let r := r.setToken id token
  match r.setStatus now id .running none with
  | some (event, r) => ([event], r)
  | none => ([], r)

end Registry

end Montage
