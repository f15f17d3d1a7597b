import Montage.Program.Basic
import Montage.Timeline.Millis
import Montage.Timeline.Tracks

/-!
# Mixing

Each track is delayed to its place, made louder or softer, faded in and faded out, as far as it asks
for that; all tracks are mixed in one step, and a last step puts picture and sound together.
-/

namespace Montage.Audio

/-- The part of a track's file that is played: the part it names, or if what it names makes no
sense, as much of it as its scene is long. -/
def playedRange (placed : PlacedTrack) : Option (Float × Float) :=
  match placed.track.range with
  | .ok range => range
  | .error _ => placed.sceneDuration.map fun d => (0.0, d)

/-- How long a track plays in a program of the given length. -/
def playable (track : AudioTrack) (range : Option (Float × Float)) (programDuration : Float) :
    Float :=
  match range, track.looped with
  | some (start, finish), false => finish - start
  | _, _ => Scalar.greatest (programDuration - track.start) 0.0

def trackFilters (track : AudioTrack) (range : Option (Float × Float)) (programDuration : Float) :
    List String :=
  let delay := toString (truncate64 (Scalar.nearest (Scalar.greatest track.start 0.0 * 1000.0)))
  let volume := match track.volume with
    | some volume => ["volume=" ++ Filter.number volume]
    | none => []
  let fadeIn := match track.fadeIn with
    | some length =>
      ["afade=t=in:st=" ++ Filter.number track.start ++ ":d=" ++ Filter.number length]
    | none => []
  let fadeOut := match track.fadeOut with
    | some length =>
      let finish := track.start + playable track range programDuration
      ["afade=t=out:st=" ++ Filter.number (Scalar.greatest (finish - length) 0.0) ++ ":d=" ++
        Filter.number length]
    | none => []
  ["adelay=" ++ delay ++ "|" ++ delay] ++ volume ++ fadeIn ++ fadeOut

/-- Adds the input and the filters of a track. -/
def addTrack (p : Program) (placed : PlacedTrack) : Graph.Context × Program :=
  let track := placed.track
  let range := playedRange placed
  let (index, p) := p.addInput (.audio track.path track.looped range)
  p.applyAll (.ofInput index .audio) (trackFilters track range p.duration) "a"

def addTracks (p : Program) : List PlacedTrack → List Graph.Context × Program
  | [] => ([], p)
  | placed :: rest =>
    let (ctx, p) := addTrack p placed
    let (ctxs, p) := addTracks p rest
    (ctx :: ctxs, p)

/-- The step that mixes so many tracks. -/
def mixFilter (count : Nat) (raw : Bool) : String :=
  "amix=inputs=" ++ toString count ++ if raw then ":normalize=0" else ""

/-- The labels of a program's picture and sound. -/
structure Streams where
  video : Option Graph.Context := none
  audio : Option Graph.Context := none
  deriving Repr, DecidableEq

/-- Mixes the tracks and joins them with the picture, which is the first input's where none is
given.  Without tracks the picture stays as it is and there is no sound. -/
def mix (p : Program) (video : Option Graph.Context) (tracks : List PlacedTrack) (raw : Bool) :
    Streams × Program :=
  if tracks.isEmpty then (⟨video, none⟩, p)
  else
    let (chains, p) := addTracks p tracks
    let (mixed, p) := p.combine chains (mixFilter chains.length raw) "mix"
    let picture := video.getD (.ofInput 0 .video)
    let (outVideo, graph) := p.graph.fresh "outv"
    let (outAudio, graph) := graph.fresh "outa"
    let graph := graph.push
      ⟨[picture.label, mixed.label], "concat=n=1:v=1:a=1", [outVideo, outAudio]⟩
    (⟨some ⟨outVideo⟩, some ⟨outAudio⟩⟩, { p with graph })

end Montage.Audio
