import Montage.Jobs.Desk

/-!
# Watching a job

A client watches a job at a desk that many use.  It takes a place in the channel, then looks where
the job stands, and from then on reads what is told.  Between any two of these steps others take
their turns at the desk.
-/

namespace Montage

/-- A desk, and a client who watches a job there. -/
structure Viewing where
  desk : Desk
  job : Int
  /-- The client's place in the channel, until it has looked at the job. -/
  place : Option Nat := none
  /-- The stream of a job that was there. -/
  stream : Option EventStream := none
  /-- What the stream has told so far, the first item first. -/
  items : List JobEvent := []
  deriving Repr

namespace Viewing

/-- A client who has not begun yet, at a desk with nothing on it. -/
def opened (retention : Nat) (job : Int) : Viewing := { desk := .opened retention, job }

/-- A step. -/
inductive Step where
  | turn (t : Desk.Turn)
  | subscribe
  | look
  | read
  deriving Repr

/-- What a move tells. -/
def told : EventStream.Move → List JobEvent
  | .tells e => [e]
  | .skips | .waits | .ends => []

/-- The state of affairs after a step. -/
def take (v : Viewing) : Step → Viewing
  | .turn t => { v with desk := v.desk.take t }
  | .subscribe =>
    if v.place.isSome || v.stream.isSome then v
    else { v with place := some v.desk.channel.subscribe }
  | .look =>
    match v.place with
    | some place =>
      { v with place := none, stream := (v.desk.registry.get? v.job).map (.ofJob place) }
    | none => v
  | .read =>
    match v.stream with
    | some s =>
      let (move, s) := s.next v.desk.channel
      { v with stream := some s, items := v.items ++ told move }
    | none => v

/-- The state of affairs after steps in this order. -/
def run (v : Viewing) (steps : List Step) : Viewing := steps.foldl take v

end Viewing

end Montage
