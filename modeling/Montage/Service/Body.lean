import Montage.Json.Guide
import Montage.Service.MediaType

/-!
# Bodies of requests

A body has to be declared as JSON, has to be JSON, and has to fit the request, in this order.
-/

namespace Montage

/-- A request as it comes in. -/
structure Request where
  method : String
  uri : String
  contentType : Option String
  body : String
  deriving Repr, DecidableEq

/-- Why a request is turned down. -/
inductive Refusal where
  | badRequest
  | notFound
  | methodNotAllowed
  | conflict
  | unsupportedMediaType
  | unprocessable
  deriving Repr, DecidableEq

def Refusal.status : Refusal → Nat
  | .badRequest => 400
  | .notFound => 404
  | .methodNotAllowed => 405
  | .conflict => 409
  | .unsupportedMediaType => 415
  | .unprocessable => 422

open Json

/-- Reads the body along a guide. -/
def Request.read (r : Request) (g : Guide) : Except Refusal Json :=
  if (r.contentType.map MediaType.isJson).getD false then
    match g.readHead r.body with
    | .ok v => .ok v
    | .error .malformed => .error .badRequest
    | .error .misfit => .error .unprocessable
  else .error .unsupportedMediaType

/-- What is to be rendered. -/
structure RenderRequest where
  template : Json
  output : Option String
  /-- Keep the intermediate files. -/
  debug : Bool

namespace RenderRequest

/-- The guide to the body. -/
def guide : Guide :=
  .record [("template", .any), ("output", .optional .text), ("debug", .bool)]

/-- The request in a value. -/
def ofJson? (v : Json) : Option RenderRequest := do
  let template ← required v 0 "template" asJson
  let output ← optional v 1 "output" asText
  let debug ← withDefault v 2 "debug" asBool false
  return ⟨template, output, debug⟩

/-- The request in a body. -/
def ofRequest (r : Request) : Except Refusal RenderRequest :=
  match r.read guide with
  | .error refusal => .error refusal
  | .ok v =>
    match ofJson? v with
    | some request => .ok request
    | none => .error .unprocessable

end RenderRequest

/-- What is to be compiled. -/
structure CompileRequest where
  template : Json

namespace CompileRequest

/-- The guide to the body. -/
def guide : Guide := .record [("template", .any)]

/-- The request in a body. -/
def ofRequest (r : Request) : Except Refusal CompileRequest :=
  match r.read guide with
  | .error refusal => .error refusal
  | .ok v =>
    match required v 0 "template" asJson with
    | some template => .ok ⟨template⟩
    | none => .error .unprocessable

end CompileRequest

end Montage
