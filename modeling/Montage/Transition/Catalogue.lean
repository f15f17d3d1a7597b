import Montage.Error
import Montage.Text.Ascii

/-!
# The transitions

The names of the transitions, in the order in which a random one is counted.  Names are compared
without regard to the case of their letters.
-/

namespace Montage.Transition

def catalogue : List String :=
  ["fade", "fadeblack", "fadewhite", "fadegrays", "dissolve", "distance", "pixelize", "radial",
    "wipeleft", "wiperight", "wipeup", "wipedown", "wipetl", "wipetr", "wipebl", "wipebr",
    "slideleft", "slideright", "slideup", "slidedown", "smoothleft", "smoothright", "smoothup",
    "smoothdown", "circlecrop", "rectcrop", "circleopen", "circleclose", "vertopen", "vertclose",
    "horzopen", "horzclose", "diagtl", "diagtr", "diagbl", "diagbr", "hlslice", "hrslice",
    "vuslice", "vdslice", "hblur", "squeezeh", "squeezev", "zoomin"]

/-- The name that asks for a random transition. -/
def randomName : String := "random"

def isRandom (name : String) : Bool := Text.sameLetters name randomName

/-- The transition with the name. -/
def lookup (name : String) : Except CompileError String :=
  match catalogue.find? fun entry => Text.sameLetters entry name with
  | some entry => .ok entry
  | none => .error (.unknownTransition name)

end Montage.Transition
