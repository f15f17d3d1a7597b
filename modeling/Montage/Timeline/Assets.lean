import Montage.Timeline.Basic

/-!
# The files that a timeline reads

`assets` lists them in order: the timeline's own tracks; then for each scene its background picture,
its tracks, the narration and the font of its subtitle block, and what its nodes read.  The files of
nested timelines belong to those timelines.  `mapAssets` puts others in their place, in the same
order, and changes nothing else.
-/

namespace Montage

/-! ## Listing -/

/-- The picture of a background. -/
def Background.assets : Background → List String
  | .image path => [path]
  | .color _ => []

/-- The narration and the font of a subtitle block. -/
def SubtitleBlock.assets (b : SubtitleBlock) : List String := b.audio.toList ++ b.fontPath.toList

/-- The file of a picture, a clip or a sound, or the font of a text. -/
def NodeKind.assets {τ : Type} : NodeKind τ → List String
  | .image path => [path]
  | .video path _ _ _ => [path]
  | .text _ style => style.fontFile.toList
  | .subtitle _ style _ => style.fontFile.toList
  | .audio track => [track.path]
  | .composition _ _ => []

/-- The files of a scene, in order. -/
def Scene.assets {τ : Type} (s : Scene τ) : List String :=
  (s.background.map Background.assets).getD [] ++ s.audios.map (·.path) ++
    (s.subtitle.map SubtitleBlock.assets).getD [] ++ s.nodes.flatMap (·.kind.assets)

/-- The files of a timeline, in order. -/
def Timeline.assets (t : Timeline) : List String :=
  t.audios.map (·.path) ++ t.scenes.flatMap Scene.assets

/-! ## Replacing -/

section

variable {m : Type → Type} [Monad m] {τ : Type}

/-- Replaces what is there. -/
def mapOption {α β : Type} (f : α → m β) : Option α → m (Option β)
  | none => pure none
  | some x => return some (← f x)

/-- Replaces every item, the first one first. -/
def mapList {α β : Type} (f : α → m β) : List α → m (List β)
  | [] => pure []
  | x :: rest => return (← f x) :: (← mapList f rest)

def AudioTrack.mapAssets (f : String → m String) (t : AudioTrack) : m AudioTrack :=
  return { t with path := ← f t.path }

def Background.mapAssets (f : String → m String) : Background → m Background
  | .image path => return .image (← f path)
  | .color name => pure (.color name)

def SubtitleBlock.mapAssets (f : String → m String) (b : SubtitleBlock) : m SubtitleBlock := do
  let audio ← mapOption f b.audio
  let fontPath ← mapOption f b.fontPath
  return { b with audio, fontPath }

def TextStyle.mapAssets (f : String → m String) (s : TextStyle) : m TextStyle :=
  return { s with fontFile := ← mapOption f s.fontFile }

def NodeKind.mapAssets (f : String → m String) : NodeKind τ → m (NodeKind τ)
  | .image path => return .image (← f path)
  | .video path cutFrom cutTo muted => return .video (← f path) cutFrom cutTo muted
  | .text words style => return .text words (← style.mapAssets f)
  | .subtitle path style vertical => return .subtitle path (← style.mapAssets f) vertical
  | .audio track => return .audio (← track.mapAssets f)
  | .composition timeline output => pure (.composition timeline output)

def Node.mapAssets (f : String → m String) (n : Node τ) : m (Node τ) :=
  return { n with kind := ← n.kind.mapAssets f }

def Scene.mapAssets (f : String → m String) (s : Scene τ) : m (Scene τ) := do
  let background ← mapOption (Background.mapAssets f) s.background
  let audios ← mapList (AudioTrack.mapAssets f) s.audios
  let subtitle ← mapOption (SubtitleBlock.mapAssets f) s.subtitle
  let nodes ← mapList (Node.mapAssets f) s.nodes
  return { s with background, audios, subtitle, nodes }

/-- The timeline with other files. -/
def Timeline.mapAssets (f : String → m String) (t : Timeline) : m Timeline := do
  let audios ← mapList (AudioTrack.mapAssets f) t.audios
  let scenes ← mapList (Scene.mapAssets f) t.scenes
  return { t with audios, scenes }

end

end Montage
