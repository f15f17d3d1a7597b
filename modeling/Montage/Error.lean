import Montage.Decimal.Text
import Montage.Graph.Validity
import Montage.Timeline.Millis

/-!
# Compilation errors

Why a document is no timeline, or a timeline no plan.  Each constructor is a cause; `message` has
the wording.
-/

namespace Montage

/-- What a timeline lacks. -/
inductive Flaw where
  | noScenes
  | nonPositiveDuration (scene : Nat) (duration : Float)
  | tooFewScenes
  | noTransition
  /-- A flaw found by someone else, in their words. -/
  | described (what : String)
  deriving Repr, DecidableEq

def Flaw.message : Flaw → String
  | .noScenes => "timeline has no scenes"
  | .nonPositiveDuration scene duration =>
    "scene " ++ toString scene ++ " has non-positive duration " ++ Decimal.plain duration
  | .tooFewScenes => "a crossfade needs at least two scenes"
  | .noTransition => "crossfade scene without a transition"
  | .described what => what

/-- What stops a compilation. -/
inductive CompileError where
  | unsupportedKind (kind : String)
  /-- A scene is too short for a transition; both lengths in milliseconds. -/
  | shortScene (scene : Nat) (duration transition : Int)
  | malformedRange (start finish : Float)
  | unknownTransition (name : String)
  | missingAsset (what : String)
  | invalidGraph (defect : Graph.Defect)
  | invalid (flaw : Flaw)
  /-- The document is no template. -/
  | template
  deriving Repr, DecidableEq

def CompileError.message : CompileError → String
  | .unsupportedKind kind => "unsupported node kind '" ++ kind ++ "'"
  | .shortScene scene duration transition =>
    "scene " ++ toString scene ++ " lasts " ++ Decimal.plain (toSeconds duration) ++
      "s, shorter than its " ++ Decimal.plain (toSeconds transition) ++ "s transition"
  | .malformedRange start finish =>
    "malformed audio range ss=" ++ Decimal.plain start ++ " to=" ++ Decimal.plain finish
  | .unknownTransition name => "unknown transition '" ++ name ++ "'"
  | .missingAsset what => "missing asset: " ++ what
  | .invalidGraph defect => "invalid filter graph: " ++ defect.message
  | .invalid flaw => "validation error: " ++ flaw.message
  | .template => "template error"

end Montage
