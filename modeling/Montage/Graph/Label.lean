import Montage.Text.Ascii
import Montage.Text.Split

/-!
# Labels

A label names a stream inside a filter graph.  Some labels name a stream of an input file directly:
the input's number, alone or followed by `:v` or `:a`.  Every other label is the output of a step.
-/

namespace Montage.Graph

/-- The name of a stream. -/
abbrev Label := String

/-- A number of digits, as far as a machine word goes. -/
def indexOf? (digits : List Char) : Option Nat :=
  (Text.natOfDigits? digits).filter (· < UInt64.size)

/-- The number of the input that a label reads directly. -/
def inputIndex? (label : Label) : Option Nat :=
  match Text.cut ':' label.toList with
  | none => indexOf? label.toList
  | some (index, stream) => if stream = ['v'] ∨ stream = ['a'] then indexOf? index else none

/-- The label names a stream of an input. -/
def isInput (label : Label) : Bool := (inputIndex? label).isSome

/-- The kinds of streams that are read from an input. -/
inductive Media where
  | video
  | audio
  deriving Repr, DecidableEq

/-- How the kind is written in a label. -/
def Media.mark : Media → String
  | .video => "v"
  | .audio => "a"

/-- The label of a stream of an input. -/
def inputLabel (index : Nat) (media : Media) : Label := toString index ++ ":" ++ media.mark

/-- A label as it is written in front of a filter and behind it. -/
def bracketed (label : Label) : String := "[" ++ label ++ "]"

end Montage.Graph
