import Montage.Jobs.Channel
import Montage.Jobs.Delivery

/-!
# The desk

Many parties use one registry at the same time.  What a party does is cut into turns; during a turn
nobody else gets at the registry, and between two turns of one party the others may take any of
theirs.

* To make a job, ended jobs are dropped, a number is drawn, and the job is taken in under it.
* To follow a render, its token is given to the job, then the job is set running.
* To cancel a job, one turn finds what has to be done and another one does it.  To cancel all jobs,
  the jobs that are active at some moment are cancelled one after the other.
* A change is told to those who listen in a turn of its own, some time after it was made.
-/

namespace Montage

/-- A cancellation for which it is known what has to be done. -/
structure Inquiry where
  job : Int
  found : Registry.Cancellation
  deriving Repr, DecidableEq

/-- A render that a job was to follow. -/
structure Following where
  job : Int
  token : Token
  deriving Repr, DecidableEq

/-- A registry in use. -/
structure Desk where
  registry : Registry
  /-- The numbers of jobs that are still to be taken in. -/
  drawn : List Int := []
  /-- The renders that have been brought, the latest one first. -/
  followed : List Following := []
  /-- The cancellations that are still to be carried out. -/
  inquiries : List Inquiry := []
  /-- The jobs whose cancellation was answered with yes. -/
  granted : List Int := []
  /-- The events that are still to be told. -/
  untold : List JobEvent := []
  channel : Channel := {}
  deriving Repr

namespace Desk

/-- A desk with nothing on it. -/
def opened (retention : Nat) : Desk := { registry := { retention } }

/-- All events, those first that are told. -/
def events (d : Desk) : List JobEvent := d.channel.told ++ d.untold

/-- A turn.  What waits on the desk is named by its place. -/
inductive Turn where
  | prune (now : Int)
  | draw
  | enter (now : Int) (place : Nat) (output : String)
  | follow (id : Int) (token : Token)
  | setStatus (now id : Int) (status : JobStatus) (progress : Option Float)
  | fail (now id : Int) (error : String)
  /-- A render tells its job how far it is. -/
  | deliverProgress (now id : Int) (published : Float)
  /-- A render tells its job how it ended. -/
  | deliverOutcome (now id : Int) (outcome : Outcome)
  | inquire (id : Int)
  | carryOut (now : Int) (place : Nat)
  | tell (place : Nat)
  deriving Repr

/-- What comes of a change that may be refused. -/
def changed (d : Desk) : Option (JobEvent × Registry) → Desk
  | some (event, registry) => { d with registry, untold := d.untold ++ [event] }
  | none => d

/-- The desk after a turn. -/
def take (d : Desk) : Turn → Desk
  | .prune now => { d with registry := (d.registry.prune now).2 }
  | .draw => { d with registry := d.registry.draw, drawn := d.drawn ++ [d.registry.nextId] }
  | .enter now place output =>
    match d.drawn[place]? with
    | some id =>
      { d with registry := d.registry.enter now id output, drawn := d.drawn.eraseIdx place }
    | none => d
  | .follow id token =>
    { d with registry := d.registry.setToken id token, followed := ⟨id, token⟩ :: d.followed }
  | .setStatus now id status progress => d.changed (d.registry.setStatus now id status progress)
  | .fail now id error => d.changed (d.registry.fail now id error)
  | .deliverProgress now id published => d.changed (d.registry.deliverProgress now id published)
  | .deliverOutcome now id outcome => d.changed (d.registry.deliverOutcome now id outcome)
  | .inquire id => { d with inquiries := d.inquiries ++ [⟨id, d.registry.cancellation id⟩] }
  | .carryOut now place =>
    match d.inquiries[place]? with
    | some q =>
      let (done, events, registry) := d.registry.carryOut now q.job q.found
      { d with
        registry
        inquiries := d.inquiries.eraseIdx place
        granted := if done then q.job :: d.granted else d.granted
        untold := d.untold ++ events }
    | none => d
  | .tell place =>
    match d.untold[place]? with
    | some event =>
      { d with untold := d.untold.eraseIdx place, channel := d.channel.tell [event] }
    | none => d

/-- The desk after turns in this order. -/
def run (d : Desk) (turns : List Turn) : Desk := turns.foldl take d

end Desk

end Montage
