import Montage.Subtitle.Srt

/-!
# Attaching subtitles

A scene's subtitle block becomes the topmost node of the scene, which burns a subtitle file in, and
a track under it if the block has a sound of its own.
-/

namespace Montage.Subtitle

/-- How long a narration is faded in and out. -/
def narrationFade : Float := 0.5

/-- The narration of a block. -/
def narration? (block : SubtitleBlock) : Option AudioTrack :=
  block.audio.map fun path =>
    { path, fadeIn := some narrationFade, fadeOut := some narrationFade }

/-- The node that burns a block's file in.  A font of the block stands in for one of the style. -/
def nodeOf {τ : Type} (block : SubtitleBlock) (path : String) : Node τ :=
  { kind := .subtitle path { block.style with fontFile := block.style.fontFile.or block.fontPath }
      block.vertical
    frame := block.frame }

/-- The scene with its block attached as a node that reads the file at `path`, and the text of that
file; nothing without a block. -/
def attach? {τ : Type} (scene : Scene τ) (path : String) : Option (Scene τ × String) :=
  scene.subtitle.map fun block =>
    ({ scene with
        subtitle := none
        duration := block.duration.getD scene.duration
        audios := scene.audios ++ (narration? block).toList
        nodes := scene.nodes ++ [nodeOf block path] },
      render block.cues)

end Montage.Subtitle
