import Montage.Error
import Montage.Timeline.Basic

/-!
# Sounds on the whole timeline

The sounds of a timeline in order: its own tracks, then scene by scene the scene's tracks, its sound
nodes and the sound of its clips that are not muted.  What belongs to a scene is moved to where the
scene starts, takes the scene's gain, and plays no longer than the scene unless it says how long.
-/

namespace Montage

namespace AudioTrack

/-- The part of the file to play, if both ends are given and make sense. -/
def range (t : AudioTrack) : Except CompileError (Option (Float × Float)) :=
  match t.readFrom, t.readTo with
  | some start, some finish =>
    if start >= 0.0 && start < finish then .ok (some (start, finish))
    else .error (.malformedRange start finish)
  | some start, none => .error (.malformedRange start (-1.0))
  | none, some finish => .error (.malformedRange (-1.0) finish)
  | none, none => .ok none

end AudioTrack

/-- A track on the whole timeline, with the length of the scene that owns it. -/
structure PlacedTrack where
  track : AudioTrack
  sceneDuration : Option Float := none
  deriving Repr, DecidableEq, Inhabited

/-- The sound of a node: of a sound, or of a clip that is not muted. -/
def Node.sound? {τ : Type} (n : Node τ) (sceneDuration : Float) : Option AudioTrack :=
  match n.kind with
  | .audio track => some track
  | .video path cutFrom cutTo false =>
    let readFrom := cutFrom.getD 0.0
    some
      { path, start := n.start.getD 0.0, readFrom,
        readTo := cutTo.getD (readFrom + sceneDuration) }
  | _ => none

/-- The track as it sounds on the whole timeline. -/
def AudioTrack.placed (t : AudioTrack) (offset : Float) (gain : Option Float)
    (sceneDuration : Float) : PlacedTrack :=
  let volume := match gain with
    | some gain => some (t.volume.getD 1.0 * gain)
    | none => t.volume
  let (readFrom, readTo) :=
    if t.readFrom.isNone && t.readTo.isNone then (some 0.0, some sceneDuration)
    else (t.readFrom, t.readTo)
  ⟨{ t with start := t.start + offset, volume, readFrom, readTo }, some sceneDuration⟩

def Scene.sounds {τ : Type} (s : Scene τ) : List AudioTrack :=
  s.audios ++ s.nodes.filterMap fun n => n.sound? s.duration

/-- The scene's sounds on the whole timeline. -/
def Scene.placedTracks {τ : Type} (s : Scene τ) (offset : Float) : List PlacedTrack :=
  s.sounds.map fun t => t.placed offset s.audioVolume s.duration

/-- All sounds, the scenes starting at the given times. -/
def Timeline.placedTracks (t : Timeline) (starts : List Float) : List PlacedTrack :=
  t.audios.map (fun track => ⟨track, none⟩) ++
    (t.scenes.zip starts).flatMap fun (scene, start) => scene.placedTracks start

end Montage
