import Montage.Jobs.Job
import Montage.Json.Printer

/-!
# Telling events

Events are told on a channel that keeps the latest of them.  Who listens has a place in it; one who
has fallen so far behind that events are lost is told so once and goes on with the oldest event that
is kept.

A stream follows one job: first it tells where the job stands, then each event of the job, and it
ends behind the event that ends the job.
-/

namespace Montage

/-- All events told so far, the first one first. -/
structure Channel where
  told : List JobEvent := []
  deriving Repr

namespace Channel

/-- How many events are kept. -/
def capacity : Nat := 256

def tell (c : Channel) (events : List JobEvent) : Channel := ⟨c.told ++ events⟩

/-- What a listener gets. -/
inductive Received where
  | event (e : JobEvent)
  | lagged
  | nothing
  deriving Repr, DecidableEq

/-- The place of one who begins to listen now. -/
def subscribe (c : Channel) : Nat := c.told.length

/-- What the listener at a place gets, and its place then. -/
def receive (c : Channel) (place : Nat) : Received × Nat :=
  if place + capacity < c.told.length then (.lagged, c.told.length - capacity)
  else
    match c.told[place]? with
    | some e => (.event e, place + 1)
    | none => (.nothing, place)

end Channel

/-- The events of one job. -/
structure EventStream where
  job : Int
  /-- The listener's place in the channel. -/
  place : Nat
  /-- Where the job stood, until that is told. -/
  snapshot : Option JobEvent
  /-- The event that ends the job is told, or is the next one. -/
  finished : Bool
  deriving Repr, DecidableEq

namespace EventStream

/-- The stream of a job that stands so, for the listener at a place. -/
def ofJob (place : Nat) (j : Job) : EventStream :=
  ⟨j.id, place, some j.event, j.status.isTerminal⟩

/-- What a stream does. -/
inductive Move where
  | tells (e : JobEvent)
  | skips
  | waits
  | ends
  deriving Repr, DecidableEq

/-- The next move of a stream. -/
def next (c : Channel) (s : EventStream) : Move × EventStream :=
  match s.snapshot with
  | some e => (.tells e, { s with snapshot := none })
  | none =>
    if s.finished then (.ends, s)
    else
      match c.receive s.place with
      | (.nothing, place) => (.waits, { s with place })
      | (.lagged, place) => (.skips, { s with place })
      | (.event e, place) =>
        if e.job = s.job then (.tells e, { s with place, finished := e.status.isTerminal })
        else (.skips, { s with place })

/-- What a stream tells in so many moves. -/
def items (c : Channel) (s : EventStream) : Nat → List JobEvent
  | 0 => []
  | moves + 1 =>
    match s.next c with
    | (.tells e, s) => e :: s.items c moves
    | (.skips, s) => s.items c moves
    | (.waits, _) | (.ends, _) => []

/-- All that a stream tells of what the channel holds. -/
def drain (c : Channel) (s : EventStream) : List JobEvent := s.items c (c.told.length + 2)

end EventStream

/-- The event as a message to a client. -/
def JobEvent.text (e : JobEvent) : String :=
  "event: progress\ndata: " ++ e.toJson.print ++ "\n\n"

end Montage
