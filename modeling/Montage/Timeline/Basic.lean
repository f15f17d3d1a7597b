import Montage.Scalar

/-!
# Timelines

A timeline is a list of scenes in front of one stage, with tracks of its own.  A scene holds nodes;
a node is an image, a clip, a text, burned-in subtitles, a sound, or a composition, which is a
timeline again.  `Scene`, `Node` and `NodeKind` take the type of nested timelines as a parameter, so
that what does not look into a composition is the same function for every such type; `Timeline` ties
the knot, and `Timeline.fold` is the one recursion through it.

Times are seconds, angles degrees, places pixels.
-/

namespace Montage

/-! ## Settings -/

/-- How much is spent on assembling the result. -/
inductive Speed where
  | normal
  | high
  deriving Repr, DecidableEq, Inhabited

/-- What holds for a whole timeline. -/
structure Settings where
  width : UInt32
  height : UInt32
  fps : UInt32 := 25
  /-- The encoder's constant rate factor. -/
  crf : UInt8 := 23
  threads : Option UInt32 := none
  speed : Speed := .normal
  /-- Mix sounds without levelling the sum. -/
  rawMix : Bool := false
  /-- Where the random transitions start. -/
  seed : Option UInt64 := none
  /-- Keep intermediate files. -/
  debug : Bool := false
  deriving Repr, DecidableEq, Inhabited

/-! ## Places and motions -/

/-- A place on the stage. -/
structure Point where
  x : Float
  y : Float
  deriving Repr, DecidableEq, Inhabited

/-- An upright box: its top left corner and its size. -/
structure Box (α : Type) where
  x : α
  y : α
  w : α
  h : α
  deriving Repr, DecidableEq, Inhabited

/-- A box in pixels. -/
abbrev Rect := Box Float

/-- The box of no size at the corner of the stage. -/
def Rect.empty : Rect := ⟨0.0, 0.0, 0.0, 0.0⟩

/-- Whether an animation brings its node in or takes it away. -/
inductive Direction where
  | entering
  | leaving
  deriving Repr, DecidableEq, Inhabited

/-- What an animation drives: a place, an opacity from 0 to 1, a scale factor, an angle; an effect
drives nothing and only opens a window of time. -/
inductive Motion where
  | move (start finish : Point)
  | fade (start finish : Float)
  | zoom (start finish : Float)
  | rotate (start finish : Float)
  | effect (name : String)
  deriving Repr, DecidableEq, Inhabited

/-- A motion and when it happens. -/
structure Animation where
  motion : Motion
  direction : Direction := .entering
  start : Float := 0.0
  duration : Float
  deriving Repr, DecidableEq, Inhabited

/-- When the animation is over. -/
def Animation.finish (a : Animation) : Float := a.start + a.duration

/-! ## Styles, sounds, subtitles -/

/-- A text's shadow. -/
structure Shadow where
  x : Float := 0.0
  y : Float := 0.0
  color : Option String := none
  deriving Repr, DecidableEq, Inhabited

/-- How a text looks. -/
structure TextStyle where
  fontSize : Float := 24.0
  color : String := "black"
  backgroundColor : Option String := none
  borderWidth : Option Float := none
  borderColor : Option String := none
  fontFile : Option String := none
  fontFamily : Option String := none
  lineSpacing : Option Float := none
  charSpacing : Option Float := none
  shadow : Option Shadow := none
  bold : Bool := false
  italic : Bool := false
  underline : Bool := false
  strikeout : Bool := false
  scale : Option Float := none
  deriving Repr, DecidableEq, Inhabited

/-- A sound file and how it is played. -/
structure AudioTrack where
  path : String
  /-- When it starts; relative to its scene until it is placed on the whole timeline. -/
  start : Float := 0.0
  /-- Where to start reading the file. -/
  readFrom : Option Float := none
  /-- Where to stop reading the file. -/
  readTo : Option Float := none
  volume : Option Float := none
  fadeIn : Option Float := none
  fadeOut : Option Float := none
  looped : Bool := false
  deriving Repr, DecidableEq, Inhabited

/-- The transition into a scene. -/
structure TransitionSpec where
  name : String
  duration : Float := 0.5
  deriving Repr, DecidableEq, Inhabited

/-- What a scene is painted on. -/
inductive Background where
  | color (color : String)
  | image (path : String)
  deriving Repr, DecidableEq, Inhabited

/-- One subtitle, in milliseconds. -/
structure Cue where
  beginTime : Int64
  endTime : Int64
  text : String
  deriving Repr, DecidableEq, Inhabited

/-- The subtitles of a scene, before they are a node of their own. -/
structure SubtitleBlock where
  cues : List Cue
  frame : Rect := Rect.empty
  style : TextStyle := {}
  vertical : Bool := false
  /-- A sound played under the cues. -/
  audio : Option String := none
  duration : Option Float := none
  fontPath : Option String := none
  deriving Repr, DecidableEq, Inhabited

/-! ## Nodes, scenes, timelines -/

/-- What stands on the stage.  A composition is rendered on its own; `output` is its file once that
has happened. -/
inductive NodeKind (τ : Type) where
  | image (path : String)
  | video (path : String) (cutFrom cutTo : Option Float) (muted : Bool)
  | text (words : String) (style : TextStyle)
  | subtitle (path : String) (style : TextStyle) (vertical : Bool)
  | audio (track : AudioTrack)
  | composition (timeline : τ) (output : Option String)
  deriving Repr, Inhabited

/-- An element on the stage. -/
structure Node (τ : Type) where
  kind : NodeKind τ
  frame : Rect := Rect.empty
  /-- Clockwise. -/
  rotation : Float := 0.0
  opacity : Option Float := none
  /-- When it appears; left out, with its earliest animation. -/
  start : Option Float := none
  finish : Option Float := none
  preFilters : List String := []
  filters : List String := []
  animations : List Animation := []
  deriving Repr, Inhabited

/-- A stretch of the timeline. -/
structure Scene (τ : Type) where
  duration : Float
  background : Option Background := none
  transition : Option TransitionSpec := none
  nodes : List (Node τ) := []
  subtitle : Option SubtitleBlock := none
  audios : List AudioTrack := []
  /-- A gain on every track of the scene. -/
  audioVolume : Option Float := none
  deriving Repr, Inhabited

/-- Scenes one after another, and tracks that belong to no scene. -/
structure Timeline where
  settings : Settings
  scenes : List (Scene Timeline) := []
  audios : List AudioTrack := []
  deriving Repr, Inhabited

def NodeKind.name {τ : Type} : NodeKind τ → String
  | .image .. => "image"
  | .video .. => "video"
  | .text .. => "text"
  | .subtitle .. => "subtitle"
  | .audio .. => "audio"
  | .composition .. => "composition"

/-! ## Through compositions -/

/-- Each nested timeline replaced by its image. -/
def NodeKind.map {σ τ : Type} (f : σ → τ) : NodeKind σ → NodeKind τ
  | .image path => .image path
  | .video path cutFrom cutTo muted => .video path cutFrom cutTo muted
  | .text words style => .text words style
  | .subtitle path style vertical => .subtitle path style vertical
  | .audio track => .audio track
  | .composition timeline output => .composition (f timeline) output

def Node.map {σ τ : Type} (f : σ → τ) (n : Node σ) : Node τ := { n with kind := n.kind.map f }

def Scene.map {σ τ : Type} (f : σ → τ) (s : Scene σ) : Scene τ :=
  { s with nodes := s.nodes.map (Node.map f) }

/-- What is made of a timeline, given what was made of the timelines nested in it. -/
abbrev Timeline.Algebra (α : Type) := Settings → List (Scene α) → List AudioTrack → α

mutual
/-- Works a timeline out from the inside. -/
def Timeline.fold {α : Type} (f : Timeline.Algebra α) : Timeline → α
  | ⟨settings, scenes, audios⟩ => f settings (Timeline.foldScenes f scenes) audios
/-- Works the scenes' compositions out. -/
def Timeline.foldScenes {α : Type} (f : Timeline.Algebra α) : List (Scene Timeline) → List (Scene α)
  | [] => []
  | scene :: rest => Timeline.foldScene f scene :: Timeline.foldScenes f rest
def Timeline.foldScene {α : Type} (f : Timeline.Algebra α) : Scene Timeline → Scene α
  | ⟨duration, background, transition, nodes, subtitle, audios, audioVolume⟩ =>
    ⟨duration, background, transition, Timeline.foldNodes f nodes, subtitle, audios, audioVolume⟩
def Timeline.foldNodes {α : Type} (f : Timeline.Algebra α) : List (Node Timeline) → List (Node α)
  | [] => []
  | node :: rest => Timeline.foldNode f node :: Timeline.foldNodes f rest
def Timeline.foldNode {α : Type} (f : Timeline.Algebra α) : Node Timeline → Node α
  | ⟨kind, frame, rotation, opacity, start, finish, preFilters, filters, animations⟩ =>
    ⟨Timeline.foldKind f kind, frame, rotation, opacity, start, finish, preFilters, filters,
      animations⟩
/-- Works the composition out. -/
def Timeline.foldKind {α : Type} (f : Timeline.Algebra α) : NodeKind Timeline → NodeKind α
  | .image path => .image path
  | .video path cutFrom cutTo muted => .video path cutFrom cutTo muted
  | .text words style => .text words style
  | .subtitle path style vertical => .subtitle path style vertical
  | .audio track => .audio track
  | .composition timeline output => .composition (Timeline.fold f timeline) output
end

mutual
theorem Timeline.fold_eq {α : Type} (f : Timeline.Algebra α) :
    (t : Timeline) → t.fold f = f t.settings (t.scenes.map (Scene.map (Timeline.fold f))) t.audios
  | ⟨settings, scenes, audios⟩ => by simp [Timeline.fold, Timeline.foldScenes_eq f scenes]
theorem Timeline.foldScenes_eq {α : Type} (f : Timeline.Algebra α) :
    (ss : List (Scene Timeline)) →
      Timeline.foldScenes f ss = ss.map (Scene.map (Timeline.fold f))
  | [] => rfl
  | scene :: rest => by
    simp [Timeline.foldScenes, Timeline.foldScene_eq f scene, Timeline.foldScenes_eq f rest]
theorem Timeline.foldScene_eq {α : Type} (f : Timeline.Algebra α) :
    (s : Scene Timeline) → Timeline.foldScene f s = s.map (Timeline.fold f)
  | ⟨duration, background, transition, nodes, subtitle, audios, audioVolume⟩ => by
    simp [Timeline.foldScene, Timeline.foldNodes_eq f nodes, Scene.map]
theorem Timeline.foldNodes_eq {α : Type} (f : Timeline.Algebra α) :
    (ns : List (Node Timeline)) → Timeline.foldNodes f ns = ns.map (Node.map (Timeline.fold f))
  | [] => rfl
  | node :: rest => by
    simp [Timeline.foldNodes, Timeline.foldNode_eq f node, Timeline.foldNodes_eq f rest]
theorem Timeline.foldNode_eq {α : Type} (f : Timeline.Algebra α) :
    (n : Node Timeline) → Timeline.foldNode f n = n.map (Timeline.fold f)
  | ⟨kind, frame, rotation, opacity, start, finish, preFilters, filters, animations⟩ => by
    simp [Timeline.foldNode, Timeline.foldKind_eq f kind, Node.map]
theorem Timeline.foldKind_eq {α : Type} (f : Timeline.Algebra α) :
    (k : NodeKind Timeline) → Timeline.foldKind f k = k.map (Timeline.fold f)
  | .image path => rfl
  | .video path cutFrom cutTo muted => rfl
  | .text words style => rfl
  | .subtitle path style vertical => rfl
  | .audio track => rfl
  | .composition timeline output => by simp [Timeline.foldKind, NodeKind.map]
end

end Montage
