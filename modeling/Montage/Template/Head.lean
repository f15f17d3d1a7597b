import Montage.Geometry
import Montage.Json.Guide
import Montage.Timeline.Decode

/-!
# The parts of a template

A template is the document that a client sends: clips with layers, sizes relative to the stage,
styles in the words of a canvas editor.  This module has the records of a document without what is
nested in them, and reads each from a value.  Clips and layers are read later, since defaults are
merged under them first.
-/

namespace Montage.Template

open Json (asBool asText asFloat asNat asInt asOption asList asWord asJson)

/-- The document itself. -/
structure Head where
  width : UInt32
  height : UInt32
  fps : UInt32
  /-- Background music. -/
  audioFilePath : Option String
  backgroundAudioVolume : Float
  clipsAudioVolume : Float
  loopAudio : Bool
  speed : Speed
  normalizeAudio : Bool
  threads : Option UInt32
  crf : Option UInt8
  seed : Option UInt64
  debug : Bool

def audioTrack? (v : Json) : Option AudioTrack :=
  if v.isRecord 8 then do
    let path ← v.withDefault 0 "path" asText ""
    let start ← v.withDefault 1 "start" asFloat 0.0
    let readFrom ← v.withDefault 2 "ss" (asOption asFloat) none
    let readTo ← v.withDefault 3 "to" (asOption asFloat) none
    let volume ← v.withDefault 4 "volume" (asOption asFloat) none
    let fadeIn ← v.withDefault 5 "fadeIn" (asOption asFloat) none
    let fadeOut ← v.withDefault 6 "fadeOut" (asOption asFloat) none
    let looped ← v.withDefault 7 "loop" asBool false
    some { path, start, readFrom, readTo, volume, fadeIn, fadeOut, looped }
  else none

/-- A shadow in the words of the editor. -/
def shadow? (v : Json) : Option Shadow :=
  if v.isRecord 3 then do
    let x ← v.withDefault 0 "offsetX" asFloat 0.0
    let y ← v.withDefault 1 "offsetY" asFloat 0.0
    let color ← v.withDefault 2 "color" (asOption asText) none
    some { x, y, color }
  else none

/-- A style in the words of the editor, among the fields of an object.  Of the two names for the
colour, `fill` goes before `color`. -/
def style? (v : Json) : Option TextStyle := do
  let fill ← v.withDefault 0 "fill" (asOption asText) none
  let color ← v.withDefault 0 "color" (asOption asText) none
  let fontSize ← v.withDefault 0 "fontSize" (asOption asFloat) none
  let fontFamily ← v.withDefault 0 "fontFamily" (asOption asText) none
  let backgroundColor ← v.withDefault 0 "backgroundColor" (asOption asText) none
  let stroke ← v.withDefault 0 "stroke" (asOption asText) none
  let strokeWidth ← v.withDefault 0 "strokeWidth" (asOption asFloat) none
  let lineHeight ← v.withDefault 0 "lineHeight" (asOption asFloat) none
  let charSpacing ← v.withDefault 0 "charSpacing" (asOption asFloat) none
  let fontWeight ← v.withDefault 0 "fontWeight" (asOption asText) none
  let fontStyle ← v.withDefault 0 "fontStyle" (asOption asText) none
  let underline ← v.withDefault 0 "underline" asBool false
  let linethrough ← v.withDefault 0 "linethrough" asBool false
  let shadow ← v.withDefault 0 "shadow" (asOption shadow?) none
  let scaleX ← v.withDefault 0 "scaleX" (asOption asFloat) none
  let plain : TextStyle := {}
  some
    { fontSize := fontSize.getD plain.fontSize
      color := (fill.or color).getD plain.color
      backgroundColor
      borderWidth := strokeWidth
      borderColor := stroke
      fontFamily
      lineSpacing := lineHeight
      charSpacing
      shadow
      bold := fontWeight == some "bold"
      italic := fontStyle == some "italic"
      underline
      strikeout := linethrough
      scale := scaleX }

/-- Where subtitles stand, relative to the stage and from their centre, and how they look. -/
structure SubtitleObject where
  left : Float := 0.0
  top : Float := 0.0
  width : Float := 0.0
  height : Float := 0.0
  vertical : Bool := false
  style : TextStyle := {}

/-- The place and look of subtitles. -/
def SubtitleObject.ofJson? (v : Json) : Option SubtitleObject :=
  if v.isObject then do
    let left ← v.withDefault 0 "left" asFloat 0.0
    let top ← v.withDefault 0 "top" asFloat 0.0
    let width ← v.withDefault 0 "width" asFloat 0.0
    let height ← v.withDefault 0 "height" asFloat 0.0
    let vertical ← v.withDefault 0 "vertical" asBool false
    let style ← style? v
    some { left, top, width, height, vertical, style }
  else none

/-- The subtitles of a clip. -/
structure Subtitle where
  texts : List Cue
  object : SubtitleObject
  audio : Option String
  duration : Option Float
  fontPath : Option String

/-- The subtitles of a clip. -/
def Subtitle.ofJson? (v : Json) : Option Subtitle :=
  if v.isRecord 5 then do
    let texts ← v.withDefault 0 "texts" (asList Cue.ofJson?) []
    let object ← v.withDefault 1 "object" SubtitleObject.ofJson? {}
    let audio ← v.withDefault 2 "audio" (asOption asText) none
    let duration ← v.withDefault 3 "duration" (asOption asFloat) none
    let fontPath ← v.withDefault 4 "fontPath" (asOption asText) none
    some { texts, object, audio, duration, fontPath }
  else none

/-- A clip without its layers. -/
structure ClipHead where
  duration : Float
  transition : Option TransitionSpec
  background : Option String
  subtitle : Option Subtitle
  audios : List AudioTrack

/-- The places of the fields of a clip that hold values to be read later. -/
def layersPlace : Nat := 3

/-- A clip without its layers; they have to be a list. -/
def ClipHead.ofJson? (v : Json) : Option ClipHead :=
  if v.isRecord 7 then do
    let duration ← v.withDefault 0 "duration" asFloat 0.0
    let transition ← v.withDefault 1 "transition" (asOption TransitionSpec.ofJson?) none
    let background ← v.withDefault 2 "background" (asOption asText) none
    let _ ← v.withDefault layersPlace "layers" (asList asJson) []
    let subtitle ← v.withDefault 5 "subtitle" (asOption Subtitle.ofJson?) none
    let audios ← v.withDefault 6 "audios" (asList audioTrack?) []
    some { duration, transition, background, subtitle, audios }
  else none

/-- A named effect and how long it takes. -/
structure EffectSpec where
  name : String
  time : Float

def EffectSpec.ofJson? (v : Json) : Option EffectSpec :=
  if v.isRecord 2 then do
    let name ← v.required 0 "type" asText
    let time ← v.withDefault 1 "time" asFloat 1.0
    some { name, time }
  else none

/-- A layer without the clips inside it. -/
structure LayerHead where
  kind : String
  left : Option Float
  top : Option Float
  width : Option Float
  height : Option Float
  originX : Option String
  originY : Option String
  path : Option String
  fit : Option Fit
  zoomDirection : Option String
  cutFrom : Option Float
  cutTo : Option Float
  silent : Bool
  text : Option String
  fontPath : Option String
  angle : Float
  opacity : Option Float
  effect : Option EffectSpec
  start : Option Float
  finish : Option Float
  overlayBackground : Option String
  readFrom : Option Float
  readTo : Option Float
  volume : Option Float
  fadeIn : Option Float
  fadeOut : Option Float
  looped : Bool
  style : TextStyle

/-- A layer without the clips inside it; they have to be a list. -/
def LayerHead.ofJson? (v : Json) : Option LayerHead :=
  if v.isObject then do
    let kind ← v.withDefault 0 "type" asText ""
    let left ← v.withDefault 0 "left" (asOption asFloat) none
    let top ← v.withDefault 0 "top" (asOption asFloat) none
    let width ← v.withDefault 0 "width" (asOption asFloat) none
    let height ← v.withDefault 0 "height" (asOption asFloat) none
    let originX ← v.withDefault 0 "originX" (asOption asText) none
    let originY ← v.withDefault 0 "originY" (asOption asText) none
    let path ← v.withDefault 0 "path" (asOption asText) none
    let fit ← v.withDefault 0 "resizeMode"
      (asOption fun w => (asWord false w).bind Fit.ofName?) none
    let zoomDirection ← v.withDefault 0 "zoomDirection" (asOption asText) none
    let cutFrom ← v.withDefault 0 "cutFrom" (asOption asFloat) none
    let cutTo ← v.withDefault 0 "cutTo" (asOption asFloat) none
    let silent ← v.withDefault 0 "silent" asBool false
    let text ← v.withDefault 0 "text" (asOption asText) none
    let fontPath ← v.withDefault 0 "fontPath" (asOption asText) none
    let angle ← v.withDefault 0 "angle" asFloat 0.0
    let opacity ← v.withDefault 0 "opacity" (asOption asFloat) none
    let effect ← v.withDefault 0 "effect" (asOption EffectSpec.ofJson?) none
    let start ← v.withDefault 0 "start" (asOption asFloat) none
    let finish ← v.withDefault 0 "end" (asOption asFloat) none
    let overlayBackground ← v.withDefault 0 "overlayBackground" (asOption asText) none
    let _ ← v.withDefault 0 "clips" (asList asJson) []
    let readFrom ← v.withDefault 0 "ss" (asOption asFloat) none
    let readTo ← v.withDefault 0 "to" (asOption asFloat) none
    let volume ← v.withDefault 0 "volume" (asOption asFloat) none
    let fadeIn ← v.withDefault 0 "fadeIn" (asOption asFloat) none
    let fadeOut ← v.withDefault 0 "fadeOut" (asOption asFloat) none
    let looped ← v.withDefault 0 "loop" asBool false
    let style ← style? v
    some { kind, left, top, width, height, originX, originY, path, fit, zoomDirection, cutFrom,
           cutTo, silent, text, fontPath, angle, opacity, effect, start, finish,
           overlayBackground, readFrom, readTo, volume, fadeIn, fadeOut, looped, style }
  else none

/-- How a document is read from text: its fields, in order.  All but the speed are read as any
values first. -/
def guide : Json.Guide :=
  .record
    [("width", .any), ("height", .any), ("fps", .any), ("clips", .any), ("audioFilePath", .any),
      ("backgroundAudioVolume", .any), ("clipsAudioVolume", .any), ("loopAudio", .any),
      ("speed", .word), ("normalizeAudio", .any), ("threads", .any), ("crf", .any),
      ("seed", .any), ("debug", .any), ("default", .any)]

/-- A document without its clips; they have to be a list. -/
def Head.ofJson? (v : Json) : Option Head :=
  if v.isRecord 15 then do
    let width ← v.required 0 "width" Json.asUInt32
    let height ← v.required 1 "height" Json.asUInt32
    let fps ← v.withDefault 2 "fps" Json.asUInt32 25
    let _ ← v.withDefault 3 "clips" (asList asJson) []
    let audioFilePath ← v.withDefault 4 "audioFilePath" (asOption asText) none
    let backgroundAudioVolume ← v.withDefault 5 "backgroundAudioVolume" asFloat 100.0
    let clipsAudioVolume ← v.withDefault 6 "clipsAudioVolume" asFloat 100.0
    let loopAudio ← v.withDefault 7 "loopAudio" asBool false
    let speed ← v.withDefault 8 "speed" (Speed.ofJson? false) .normal
    let normalizeAudio ← v.withDefault 9 "normalizeAudio" asBool false
    let threads ← v.withDefault 10 "threads" (asOption Json.asUInt32) none
    let crf ← v.withDefault 11 "crf" (asOption Json.asUInt8) none
    let seed ← v.withDefault 12 "seed" (asOption Json.asUInt64) none
    let debug ← v.withDefault 13 "debug" asBool false
    some { width, height, fps, audioFilePath, backgroundAudioVolume, clipsAudioVolume, loopAudio,
           speed, normalizeAudio, threads, crf, seed, debug }
  else none

end Montage.Template
