import Montage.Animation.Effect
import Montage.Error
import Montage.Template.Document
import Montage.Timeline.Offsets
import Montage.Timeline.Window

/-!
# From documents to timelines

Each clip becomes a scene and each layer becomes nodes: a backdrop if the layer asks for one, a
blurred copy behind a picture that is fitted that way, and the layer's own node.  A layer with clips
becomes a composition.  The first thing that is wrong, in the order of the document, is the error.
-/

namespace Montage.Template

/-! ## Frames and sounds -/

/-- The layer is placed by its centre. -/
def LayerHead.isCentred (l : LayerHead) : Bool :=
  l.originX == some "center" && l.originY == some "center"

/-- The size of a stage in pixels. -/
structure StageSize (α : Type) where
  w : α
  h : α
  deriving Repr

/-- The box of a layer on a stage, given what the layer says of its place and size relative to the
stage.  Without a size the box has none and stands for its centre. -/
def frameOn {α : Type} [Scalar α] (stage : StageSize α) (left top width height : Option α)
    (centred : Bool) : Box α :=
  match width, height with
  | some w, some h =>
    let left := left.getD Scalar.zero
    let top := top.getD Scalar.zero
    if centred then
      ⟨(left - Scalar.half w) * stage.w, (top - Scalar.half h) * stage.h, w * stage.w,
        h * stage.h⟩
    else ⟨left * stage.w, top * stage.h, w * stage.w, h * stage.h⟩
  | _, _ =>
    let x := match left with
      | some l => l * stage.w
      | none => Scalar.half stage.w
    let y := match top with
      | some t => t * stage.h
      | none => Scalar.half stage.h
    ⟨x, y, Scalar.zero, Scalar.zero⟩

/-- The box of a layer in pixels. -/
def LayerHead.frame (l : LayerHead) (stage : StageSize Float) : Rect :=
  frameOn stage l.left l.top l.width l.height l.isCentred

def stageOf (settings : Settings) : StageSize Float :=
  ⟨settings.width.toFloat, settings.height.toFloat⟩

/-- The path of a layer that needs one. -/
def LayerHead.requirePath (l : LayerHead) : Except CompileError String :=
  match l.path with
  | some path => .ok path
  | none => .error (.missingAsset (l.kind ++ " layer without a path"))

def LayerHead.track (l : LayerHead) (path : String) : AudioTrack :=
  { path, start := l.start.getD 0.0, readFrom := l.readFrom, readTo := l.readTo, volume := l.volume,
    fadeIn := l.fadeIn, fadeOut := l.fadeOut, looped := l.looped }

/-! ## Pictures -/

/-- The backdrop of a layer: a picture of the layer's size in the middle of the stage. -/
def backdrop {τ : Type} (path : String) (frame : Rect) (stage : StageSize Float) : Node τ :=
  let w := Scalar.greatest frame.w 0.0
  let h := Scalar.greatest frame.h 0.0
  let scale := "scale=" ++ Filter.number (Scalar.nearest w) ++ ":" ++ Filter.number (Scalar.nearest h)
  { kind := .image path
    frame := ⟨(stage.w - w) / 2.0, (stage.h - h) / 2.0, w, h⟩
    preFilters := if w > 0.0 && h > 0.0 then [scale] else [] }

/-- The box of a picture: one that is stretched, or fitted without a size, fills the stage. -/
def pictureFrame {α : Type} [Scalar α] (fit : Option Fit) (frame : Box α) (stage : StageSize α) :
    Box α :=
  match fit with
  | none => frame
  | some fit =>
    if frame.isSized && fit != .stretch then frame
    else ⟨Scalar.zero, Scalar.zero, stage.w, stage.h⟩

/-- The blurred copy behind a picture that is fitted that way. -/
def blurredCopy {τ : Type} (path : String) (fit : Option Fit) (frame : Rect) : List (Node τ) :=
  if fit == some .containBlur then
    [{ kind := .image path, frame, opacity := some 0.5,
       preFilters := Fit.filters .cover frame.w frame.h ++ ["boxblur=25:25"] }]
  else []

/-- How far a picture is zoomed in a scene of the given length. -/
def zoomPeak (sceneDuration : Float) : Float := Scalar.clamp 1.5 2.0 (sceneDuration * 2.0 / 6.0)

/-- The slow motion of a picture over its whole scene. -/
def panning (direction : Option String) (frame : Rect) (sceneDuration : Float) : List Animation :=
  let peak := zoomPeak sceneDuration
  let slow (motion : Motion) : Animation := { motion, start := 0.0, duration := sceneDuration }
  let sideways (sign : Float) : List Animation :=
    let travel := frame.w * (peak - 1.0) / 2.0
    [slow (.zoom peak peak),
      slow (.move ⟨frame.x - sign * travel, frame.y⟩ ⟨frame.x + sign * travel, frame.y⟩)]
  match direction with
  | some "in" => [slow (.zoom 1.0 peak)]
  | some "out" => [slow (.zoom peak 1.0)]
  | some "left" => sideways (-1.0)
  | some "right" => sideways 1.0
  | _ => []

/-! ## Timing -/

/-- How long a layer with a start of its own fades in. -/
def startFade : Float := 0.3

/-- The animations of a layer's effect; a layer that only has a start fades in. -/
def LayerHead.effects (l : LayerHead) (frame : Rect) (stage : StageSize Float) : List Animation :=
  let start := l.start.getD 0.0
  match l.effect, l.start with
  | some effect, _ => Effect.animations effect.name start effect.time frame stage.w stage.h
  | none, some _ => Effect.animations "fadeIn" start startFade frame stage.w stage.h
  | none, none => []

/-- The node with the layer's angle, opacity, effect and times. -/
def LayerHead.timed {τ : Type} (l : LayerHead) (n : Node τ) (stage : StageSize Float) : Node τ :=
  { n with
    rotation := l.angle
    opacity := l.opacity
    start := l.start.or n.start
    finish := l.finish.or n.finish
    animations := n.animations ++ l.effects n.frame stage }

/-! ## Layers -/

/-- The kinds of layers. -/
inductive LayerKind where
  | image
  | video
  | text
  | audio
  | composition
  deriving Repr, DecidableEq

def LayerKind.ofName? : String → Option LayerKind
  | "image" => some .image
  | "video" => some .video
  | "text" => some .text
  | "audio" => some .audio
  | "composition" => some .composition
  | "slide-panel" => some .composition
  | _ => none

/-- The nodes in front of which a layer stands. -/
def LayerHead.backdrops {τ : Type} (l : LayerHead) (stage : StageSize Float) : List (Node τ) :=
  match l.overlayBackground with
  | some path => [backdrop path (l.frame stage) stage]
  | none => []

def LayerHead.imageNodes {τ : Type} (l : LayerHead) (path : String) (stage : StageSize Float)
    (sceneDuration : Float) : List (Node τ) :=
  let frame := pictureFrame l.fit (l.frame stage) stage
  blurredCopy path l.fit frame ++
    [l.timed
      { kind := .image path
        frame
        preFilters := match l.fit with
          | some fit => fit.filters frame.w frame.h
          | none => []
        animations := panning l.zoomDirection frame sceneDuration }
      stage]

/-- The node of a clip; a cut gives it an end. -/
def LayerHead.videoNode {τ : Type} (l : LayerHead) (path : String) (stage : StageSize Float) :
    Node τ :=
  l.timed
    { kind := .video path l.cutFrom l.cutTo l.silent
      frame := l.frame stage
      finish := l.cutTo.map fun cutTo => l.start.getD 0.0 + cutTo - l.cutFrom.getD 0.0 }
    stage

def LayerHead.textNode {τ : Type} (l : LayerHead) (stage : StageSize Float) : Node τ :=
  l.timed
    { kind := .text (l.text.getD "") { l.style with fontFile := l.fontPath }
      frame := l.frame stage }
    stage

def LayerHead.compositionNode {τ : Type} (l : LayerHead) (timeline : τ) (stage : StageSize Float) :
    Node τ :=
  l.timed { kind := .composition timeline none, frame := l.frame stage } stage

/-- A length in whole pixels, at least one. -/
def wholePixels (length : Float) : UInt32 := (Scalar.greatest (Scalar.nearest length) 1.0).toUInt32

/-- The settings of a composition: those around it, in the size of its layer. -/
def LayerHead.innerSettings (l : LayerHead) (settings : Settings) : Settings :=
  let frame := l.frame (stageOf settings)
  { settings with width := wholePixels frame.w, height := wholePixels frame.h }

/-! ## Clips -/

/-- A background: a colour if it starts with a number sign, else a picture. -/
def backgroundOf (s : String) : Background :=
  if s.toList.head? = some '#' then .color s else .image s

/-- The subtitle block of a clip; without texts there is none. -/
def subtitleBlock? (subtitle : Option Subtitle) (stage : StageSize Float) :
    Option SubtitleBlock :=
  match subtitle with
  | none => none
  | some s =>
    if s.texts.isEmpty then none
    else
      some
        { cues := s.texts
          frame := ⟨(s.object.left - s.object.width / 2.0) * stage.w,
            (s.object.top - s.object.height / 2.0) * stage.h,
            s.object.width * stage.w, s.object.height * stage.h⟩
          style := s.object.style
          vertical := s.object.vertical
          audio := s.audio
          duration := s.duration
          fontPath := s.fontPath }

/-- The lengths of the compositions among the nodes, added up in seconds. -/
def composedDuration (nodes : List (Node Timeline)) : Float :=
  nodes.foldl (fun sum n => match n.kind with
    | .composition timeline _ => sum + toSeconds timeline.scenesMillis
    | _ => sum) 0.0

/-- The gain of a scene; one that changes nothing is left out. -/
def gainOf (volume : Option Float) : Option Float :=
  volume.filter fun v => (v - 1.0).abs > 2.220446049250313e-16

/-- The scene of a clip whose nodes are given.  Compositions that last make the scene as long as
they are together. -/
def sceneOf (c : ClipHead) (nodes : List (Node Timeline)) (settings : Settings)
    (volume : Option Float) : Scene Timeline :=
  let composed := composedDuration nodes
  { duration := if composed > 0.0 then composed else c.duration
    background := c.background.map backgroundOf
    transition := c.transition
    nodes
    subtitle := subtitleBlock? c.subtitle (stageOf settings)
    audios := c.audios
    audioVolume := gainOf volume }

mutual
/-- The scene of a clip. -/
def Clip.build (settings : Settings) (volume : Option Float) :
    Clip → Except CompileError (Scene Timeline)
  | .unreadable => .error .template
  | .clip head layers =>
    match Layer.buildAll settings head.duration layers with
    | .error e => .error e
    | .ok nodes => .ok (sceneOf head nodes settings volume)
/-- The scenes of clips, up to the first error. -/
def Clip.buildAll (settings : Settings) (volume : Option Float) :
    List Clip → Except CompileError (List (Scene Timeline))
  | [] => .ok []
  | clip :: rest =>
    match Clip.build settings volume clip with
    | .error e => .error e
    | .ok scene =>
      match Clip.buildAll settings volume rest with
      | .error e => .error e
      | .ok scenes => .ok (scene :: scenes)
/-- The nodes of a layer in a scene of the given length. -/
def Layer.build (settings : Settings) (sceneDuration : Float) :
    Layer → Except CompileError (List (Node Timeline))
  | .unreadable => .error .template
  | .layer l clips =>
    let stage := stageOf settings
    let behind := l.backdrops stage
    match LayerKind.ofName? l.kind with
    | none => .error (.unsupportedKind l.kind)
    | some .image => l.requirePath.map fun path => behind ++ l.imageNodes path stage sceneDuration
    | some .video => l.requirePath.map fun path => behind ++ [l.videoNode path stage]
    | some .text => .ok (behind ++ [l.textNode stage])
    | some .audio => l.requirePath.map fun path => behind ++ [{ kind := .audio (l.track path) }]
    | some .composition =>
      if clips.isEmpty then .ok behind
      else
        let inner := l.innerSettings settings
        match Clip.buildAll inner none clips with
        | .error e => .error e
        | .ok scenes =>
          let timeline : Timeline := { settings := inner, scenes }
          .ok (behind ++ [l.compositionNode timeline stage])
/-- The nodes of layers, up to the first error. -/
def Layer.buildAll (settings : Settings) (sceneDuration : Float) :
    List Layer → Except CompileError (List (Node Timeline))
  | [] => .ok []
  | layer :: rest =>
    match Layer.build settings sceneDuration layer with
    | .error e => .error e
    | .ok nodes =>
      match Layer.buildAll settings sceneDuration rest with
      | .error e => .error e
      | .ok others => .ok (nodes ++ others)
end

/-! ## Documents -/

/-- How long background music is faded in and out. -/
def backgroundFade : Float := 0.5

def Head.settings (h : Head) : Settings :=
  { width := h.width, height := h.height, fps := h.fps, crf := h.crf.getD 23, threads := h.threads,
    speed := h.speed, rawMix := h.normalizeAudio, seed := h.seed, debug := h.debug }

def Head.music (h : Head) : List AudioTrack :=
  match h.audioFilePath with
  | some path =>
    [{ path, volume := some (h.backgroundAudioVolume / 100.0), fadeIn := some backgroundFade,
       fadeOut := some backgroundFade, looped := h.loopAudio }]
  | none => []

def Document.build (d : Document) : Except CompileError Timeline :=
  match Clip.buildAll d.head.settings (some (d.head.clipsAudioVolume / 100.0)) d.clips with
  | .error e => .error e
  | .ok scenes => .ok { settings := d.head.settings, scenes, audios := d.head.music }

end Template

/-- The timeline of a template given as a value. -/
def Timeline.ofTemplate (v : Json) : Except CompileError Timeline :=
  match Template.Document.ofJson? v with
  | some d => d.build
  | none => .error .template

/-- The timeline of a template given as text. -/
def Timeline.ofTemplateText (s : String) : Except CompileError Timeline :=
  match Template.guide.readWhole s with
  | .ok v => Timeline.ofTemplate v
  | .error _ => .error .template

end Montage
