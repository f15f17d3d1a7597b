import Montage.Program.Basic
import Montage.Timeline.Basic

/-!
# Commands

The arguments that make the media tool run a program.
-/

namespace Montage.Program

/-- How a label is mapped to the output: a stream of an input as it is, others in brackets. -/
def mapArg (label : Graph.Label) : String :=
  if Graph.isInput label then label else Graph.bracketed label

/-- The argument that maps a label, if there is one. -/
def mapArgs : Option Graph.Label → List String
  | some label => ["-map", mapArg label]
  | none => []

/-- All arguments of the program, in order. -/
def args (p : Program) (settings : Settings) : List String :=
  let threads := match settings.threads with
    | some n => ["-threads", toString n.toNat]
    | none => []
  let graph := match p.filterComplex with
    | some text => ["-filter_complex", text]
    | none => []
  ["-hide_banner"] ++ threads ++ p.inputs.flatMap Input.args ++ graph ++ mapArgs p.video ++
    mapArgs p.audio ++
    ["-map_metadata", "-1", "-map_chapters", "-1", "-c:v", "libx264", "-profile:v", "main",
      "-preset", "medium", "-crf", toString settings.crf.toNat, "-movflags", "faststart",
      "-pix_fmt", "yuv420p", "-r", toString settings.fps.toNat] ++
    (if p.audio.isSome then ["-c:a", "aac"] else ["-an"]) ++
    ["-t", Filter.number p.duration, "-progress", "pipe:1", "-nostats", "-y", p.output]

end Montage.Program
