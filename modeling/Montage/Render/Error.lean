import Montage.Error
import Montage.Files.Trouble

/-!
# Rendering errors

Why a render does not come to its end.  `message` is the wording for logs, `report` the one for
those who asked for the render; it carries what a failed tool had to say.
-/

namespace Montage

/-- What ends a render. -/
inductive RenderError where
  | toolNotFound (tool reason : String)
  /-- A tool ran and failed; without a code a signal ended it. -/
  | toolFailed (what : String) (code : Option Int) (stdout stderr : String)
  | missingAsset (path reason : String)
  | cancelled
  | compile (e : CompileError)
  | file (t : Trouble)
  | internal (what : String)
  deriving Repr, DecidableEq

namespace RenderError

def message : RenderError → String
  | .toolNotFound tool reason => tool ++ " not found: " ++ reason
  | .toolFailed what _ _ _ => "external tool failed: " ++ what
  | .missingAsset path reason => "missing asset " ++ path ++ ": " ++ reason
  | .cancelled => "render cancelled"
  | .compile e => e.message
  | .file t => "io error: " ++ t.message
  | .internal what => "internal error: " ++ what

/-- How a tool ended. -/
def exitText : Option Int → String
  | some code => toString code
  | none => "signal"

/-- The error for those who asked for the render. -/
def report : RenderError → String
  | .toolFailed what code _ stderr => what ++ " (exit " ++ exitText code ++ "): " ++ stderr
  | e => e.message

def isCancelled : RenderError → Bool
  | .cancelled => true
  | _ => false

end RenderError

end Montage
