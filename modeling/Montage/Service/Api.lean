import Montage.Jobs.Channel
import Montage.Jobs.Delivery
import Montage.Render.Renderer
import Montage.Service.Body
import Montage.Service.Route
import Montage.Template.Build

/-!
# The service

Clients start renders and follow them as jobs, cancel them, or ask what a template compiles to.
Renders run beside the requests: `Service.handle` answers one request and starts what it asks for,
`Service.advance` runs all renders as far as they go and lets their jobs know.

Each render and each compilation needs a key that no other one has; whoever calls `handle` provides
it.
-/

namespace Montage

/-- A render that a job follows. -/
structure FollowedRender where
  job : Int
  token : Token
  render : Render

/-- The state of the service. -/
structure Service where
  renderer : Renderer
  /-- Where outputs lie that are given no path. -/
  outputDir : String
  registry : Registry
  channel : Channel := {}
  renders : List FollowedRender := []
  files : FileTree := {}
  /-- What has happened in all renders. -/
  log : List Event := []

/-- What a client gets. -/
inductive Body where
  | none
  | json (v : Json)
  | events (items : List JobEvent)

/-- What is left of a body in an answer to `HEAD`: of a stream one without events, else nothing. -/
def Body.bare : Body → Body
  | .events _ => .events []
  | _ => .none

/-- The answer to a request. -/
structure Response where
  status : Nat
  body : Body := .none

namespace Response

/-- The request is fulfilled, and here is the result. -/
def ok (v : Json) : Response := ⟨200, .json v⟩

/-- The request will be fulfilled. -/
def accepted : Response := { status := 202 }

/-- The request is turned down. -/
def refused (r : Refusal) : Response := { status := r.status }

end Response

namespace Service

/-- The registry after a change, and the events of the change told. -/
def told (s : Service) (events : List JobEvent) (registry : Registry) : Service :=
  { s with registry, channel := s.channel.tell events }

/-- The state after a change of a job that may have ended before. -/
def changed (s : Service) : Option (JobEvent × Registry) → Service
  | some (event, registry) => s.told [event] registry
  | none => s

/-! ## Requests -/

/-- The name of an output that is given no path. -/
def outputName (key : String) : String := key ++ ".mp4"

def create (s : Service) (now : Int) (key : String) (r : Request) : Response × Service :=
  match RenderRequest.ofRequest r with
  | .error refusal => (.refused refusal, s)
  | .ok request =>
    match Timeline.ofTemplate request.template with
    | .error _ => (.refused .badRequest, s)
    | .ok t =>
      let output := request.output.getD (Path.join s.outputDir (outputName key))
      let (id, registry) := s.registry.create now output
      let token := s.renders.length
      let render := s.renderer.start key t output request.debug
      let (events, registry) := registry.attach now id token
      (.ok (.obj [("job_id", .int id), ("output", .str output)]),
        { s.told events registry with renders := s.renders ++ [⟨id, token, render⟩] })

def status (s : Service) (id : Int) : Response :=
  match s.registry.get? id with
  | some job => .ok job.toJson
  | none => .refused .notFound

/-- Opens the stream of a job's events. -/
def stream? (s : Service) (id : Int) : Option EventStream :=
  (s.registry.get? id).map (EventStream.ofJob s.channel.subscribe)

def events (s : Service) (id : Int) : Response :=
  match s.stream? id with
  | some stream => ⟨200, .events (stream.drain s.channel)⟩
  | none => .refused .notFound

def cancel (s : Service) (now : Int) (id : Int) : Response × Service :=
  match s.registry.get? id with
  | none => (.refused .notFound, s)
  | some _ =>
    let (done, events, registry) := s.registry.cancel now id
    (if done then .accepted else .refused .conflict, s.told events registry)

/-- The plans of a template. -/
def compile (s : Service) (key : String) (r : Request) : Response :=
  match CompileRequest.ofRequest r with
  | .error refusal => .refused refusal
  | .ok request =>
    match Timeline.ofTemplate request.template with
    | .error _ => .refused .badRequest
    | .ok t =>
      let key := "plan-" ++ key
      match (s.renderer.unit key t (Path.join s.outputDir (outputName key))).plan with
      | .error _ => .refused .unprocessable
      | .ok planned => .ok planned.toJson

/-- Answers a request for a job, if the job is named by a number. -/
def withJob (s : Service) (segment : List Char) (answer : Int → Response × Service) :
    Response × Service :=
  match Route.jobId? segment with
  | some id => answer id
  | none => (.refused .badRequest, s)

/-- Does what a route stands for. -/
def follow (s : Service) (now : Int) (key : String) (r : Request) : Route → Response × Service
  | .create => s.create now key r
  | .status job => s.withJob job fun id => (s.status id, s)
  | .events job => s.withJob job fun id => (s.events id, s)
  | .cancel job => s.withJob job fun id => s.cancel now id
  | .compile => (s.compile key r, s)

/-- Answers a request.  The body of an answer to `HEAD` is bare. -/
def handle (s : Service) (now : Int) (key : String) (r : Request) : Response × Service :=
  match Resource.ofUri? r.uri with
  | none => (.refused .notFound, s)
  | some resource =>
    match resource.route? r.method with
    | none => (.refused .methodNotAllowed, s)
    | some route =>
      let (response, s) := s.follow now key r route
      (if r.method = "HEAD" then { response with body := response.body.bare } else response, s)

/-! ## Renders -/

/-- Runs one render as far as it goes and lets its job know. -/
def advanceOne (tools : Tools) (now : Int) (s : Service) (f : FollowedRender) :
    Service × FollowedRender :=
  let before := f.render.board.published
  let render := if s.registry.fired.contains f.token then f.render.cancel else f.render
  let (render, w) := render.advance tools s.files s.log
  let s := { s with files := w.files, log := w.log }
  let s := if before < render.board.published then
    s.changed (s.registry.deliverProgress now f.job render.board.published) else s
  let s := match render.outcome? with
    | some outcome => s.changed (s.registry.deliverOutcome now f.job outcome)
    | none => s
  (s, { f with render })

/-- Runs renders one after the other. -/
def advanceEach (tools : Tools) (now : Int) (s : Service) :
    List FollowedRender → Service × List FollowedRender
  | [] => (s, [])
  | f :: rest =>
    let (s, f) := s.advanceOne tools now f
    let (s, rest) := s.advanceEach tools now rest
    (s, f :: rest)

/-- Runs all renders as far as they go. -/
def advance (tools : Tools) (now : Int) (s : Service) : Service :=
  let (s, renders) := s.advanceEach tools now s.renders
  { s with renders }

def isIdle (s : Service) : Bool := s.registry.active = 0

end Service

end Montage
