import Montage.Filter.Number

/-!
# Inputs

An input is a file, or something that stands for one, with the options that precede it.
-/

namespace Montage

/-- One source of a program. -/
structure Input where
  options : List String := []
  source : String
  deriving Repr, DecidableEq, Inhabited

namespace Input

def file (path : String) : Input := ⟨[], path⟩

/-- A still picture shown for a number of seconds. -/
def loopedImage (path : String) (duration : Float) (fps : UInt32) : Input :=
  ⟨["-loop", "1", "-framerate", toString fps.toNat, "-t", Filter.number duration], path⟩

/-- A clip from one time to another; a start at zero is not written. -/
def clip (path : String) (start finish : Option Float) : Input :=
  let fromOption := match start with
    | some t => if t > 0.0 then ["-ss", Filter.number t] else []
    | none => []
  let toOption := match finish with
    | some t => ["-to", Filter.number t]
    | none => []
  ⟨fromOption ++ toOption, path⟩

/-- A source filter. -/
def generated (filter : String) : Input := ⟨["-f", "lavfi"], filter⟩

/-- A list of files to be played one after another. -/
def manifest (path : String) : Input := ⟨["-f", "concat", "-safe", "0"], path⟩

/-- A sound, possibly repeated, possibly a part of it. -/
def audio (path : String) (looped : Bool) (range : Option (Float × Float)) : Input :=
  let loopOption := if looped then ["-stream_loop", "-1"] else []
  let rangeOption := match range with
    | some (start, finish) => ["-ss", Filter.number start, "-to", Filter.number finish]
    | none => []
  ⟨loopOption ++ rangeOption, path⟩

def args (i : Input) : List String := i.options ++ ["-i", i.source]

end Input

end Montage
