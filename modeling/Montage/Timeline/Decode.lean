import Montage.Json.Field
import Montage.Timeline.Basic

/-!
# Timelines from data

Every type of a timeline is read from a JSON value; `none` means that the value does not fit.  The
fields of a record may be named or stand in their order, and those with a default may be left out.
A node and an animation share their fields with their kind and motion, so they have to be objects;
their tag may also be the number of the variant.

What stands inside a composition is read `lax`: see `Json.asWord` and `Background.tag?`.
-/

namespace Montage

open Json (asBool asText asFloat asNat asInt asOption asList asWord)

/-! ## Leaves -/

/-- Words of thirty-two bits. -/
def Json.asUInt32 (v : Json) : Option UInt32 := (asNat UInt32.size v).map UInt32.ofNat

/-- Words of sixty-four bits. -/
def Json.asUInt64 (v : Json) : Option UInt64 := (asNat UInt64.size v).map UInt64.ofNat

/-- Bytes. -/
def Json.asUInt8 (v : Json) : Option UInt8 := (asNat UInt8.size v).map UInt8.ofNat

/-- Signed words of sixty-four bits. -/
def Json.asInt64 (v : Json) : Option Int64 :=
  (asInt Int64.minValue.toInt Int64.maxValue.toInt v).map Int64.ofInt

/-- A tag: one of the names, or its number. -/
def Json.asTag (names : List String) : Json → Option String
  | .str s => if s ∈ names then some s else none
  | .int n => if 0 ≤ n then names[n.toNat]? else none
  | _ => none

def Speed.ofName? : String → Option Speed
  | "normal" => some .normal
  | "high" => some .high
  | _ => none

def Direction.ofName? : String → Option Direction
  | "in" => some .entering
  | "out" => some .leaving
  | _ => none

def Speed.ofJson? (lax : Bool) (v : Json) : Option Speed := (asWord lax v).bind Speed.ofName?

def Direction.ofJson? (lax : Bool) (v : Json) : Option Direction :=
  (asWord lax v).bind Direction.ofName?

/-! ## Records -/

def Settings.ofJson? (lax : Bool) (v : Json) : Option Settings :=
  if v.isRecord 9 then do
    let width ← v.required 0 "width" Json.asUInt32
    let height ← v.required 1 "height" Json.asUInt32
    let fps ← v.withDefault 2 "fps" Json.asUInt32 25
    let crf ← v.withDefault 3 "crf" Json.asUInt8 23
    let threads ← v.withDefault 4 "threads" (asOption Json.asUInt32) none
    let speed ← v.withDefault 5 "speed" (Speed.ofJson? lax) .normal
    let rawMix ← v.withDefault 6 "raw_audio_mix" asBool false
    let seed ← v.withDefault 7 "seed" (asOption Json.asUInt64) none
    let debug ← v.withDefault 8 "debug" asBool false
    some { width, height, fps, crf, threads, speed, rawMix, seed, debug }
  else none

def Point.ofJson? (v : Json) : Option Point :=
  if v.isRecord 2 then do
    let x ← v.required 0 "x" asFloat
    let y ← v.required 1 "y" asFloat
    some { x, y }
  else none

def Rect.ofJson? (v : Json) : Option Rect :=
  if v.isRecord 4 then do
    let x ← v.required 0 "x" asFloat
    let y ← v.required 1 "y" asFloat
    let w ← v.required 2 "w" asFloat
    let h ← v.required 3 "h" asFloat
    some { x, y, w, h }
  else none

def Motion.tags : List String := ["move", "fade", "zoom", "rotate", "effect"]

/-- A motion among the fields of an object. -/
def Motion.ofJson? (v : Json) : Option Motion := do
  let tag ← v.required 0 "type" (Json.asTag Motion.tags)
  let ramp (make : Float → Float → Motion) : Option Motion := do
    let start ← v.required 0 "from" asFloat
    let finish ← v.required 0 "to" asFloat
    some (make start finish)
  match tag with
  | "move" => do
    let start ← v.required 0 "from" Point.ofJson?
    let finish ← v.required 0 "to" Point.ofJson?
    some (.move start finish)
  | "fade" => ramp .fade
  | "zoom" => ramp .zoom
  | "rotate" => ramp .rotate
  | _ => do
    let name ← v.withDefault 0 "name" asText ""
    some (.effect name)

def Animation.ofJson? (lax : Bool) (v : Json) : Option Animation :=
  if v.isObject then do
    let motion ← Motion.ofJson? v
    let direction ← v.withDefault 0 "show" (Direction.ofJson? lax) .entering
    let start ← v.withDefault 0 "start" asFloat 0.0
    let duration ← v.required 0 "duration" asFloat
    some { motion, direction, start, duration }
  else none

def Shadow.ofJson? (v : Json) : Option Shadow :=
  if v.isRecord 3 then do
    let x ← v.withDefault 0 "x" asFloat 0.0
    let y ← v.withDefault 1 "y" asFloat 0.0
    let color ← v.withDefault 2 "color" (asOption asText) none
    some { x, y, color }
  else none

def TextStyle.ofJson? (v : Json) : Option TextStyle :=
  if v.isRecord 15 then do
    let fontSize ← v.withDefault 0 "font_size" asFloat 24.0
    let color ← v.withDefault 1 "color" asText "black"
    let backgroundColor ← v.withDefault 2 "background_color" (asOption asText) none
    let borderWidth ← v.withDefault 3 "border_width" (asOption asFloat) none
    let borderColor ← v.withDefault 4 "border_color" (asOption asText) none
    let fontFile ← v.withDefault 5 "font_file" (asOption asText) none
    let fontFamily ← v.withDefault 6 "font_family" (asOption asText) none
    let lineSpacing ← v.withDefault 7 "line_spacing" (asOption asFloat) none
    let charSpacing ← v.withDefault 8 "char_spacing" (asOption asFloat) none
    let shadow ← v.withDefault 9 "shadow" (asOption Shadow.ofJson?) none
    let bold ← v.withDefault 10 "bold" asBool false
    let italic ← v.withDefault 11 "italic" asBool false
    let underline ← v.withDefault 12 "underline" asBool false
    let strikeout ← v.withDefault 13 "strikeout" asBool false
    let scale ← v.withDefault 14 "scale" (asOption asFloat) none
    some { fontSize, color, backgroundColor, borderWidth, borderColor, fontFile, fontFamily,
           lineSpacing, charSpacing, shadow, bold, italic, underline, strikeout, scale }
  else none

def AudioTrack.ofJson? (v : Json) : Option AudioTrack :=
  if v.isRecord 8 then do
    let path ← v.required 0 "path" asText
    let start ← v.withDefault 1 "start" asFloat 0.0
    let readFrom ← v.withDefault 2 "ss" (asOption asFloat) none
    let readTo ← v.withDefault 3 "to" (asOption asFloat) none
    let volume ← v.withDefault 4 "volume" (asOption asFloat) none
    let fadeIn ← v.withDefault 5 "fade_in" (asOption asFloat) none
    let fadeOut ← v.withDefault 6 "fade_out" (asOption asFloat) none
    let looped ← v.withDefault 7 "loop" asBool false
    some { path, start, readFrom, readTo, volume, fadeIn, fadeOut, looped }
  else none

def TransitionSpec.ofJson? (v : Json) : Option TransitionSpec :=
  if v.isRecord 2 then do
    let name ← v.required 0 "name" asText
    let duration ← v.withDefault 1 "duration" asFloat 0.5
    some { name, duration }
  else none

def Background.tags : List String := ["color", "image"]

/-- The tag of a background.  At the front of an array it is a plain name or, with `lax`, a tag with
a number. -/
def Background.tag? (lax : Bool) : Json → Option String
  | .arr (tag :: _) => if lax then Json.asTag Background.tags tag else asText tag
  | v => v.required 0 "type" (asWord lax)

def Background.ofJson? (lax : Bool) (v : Json) : Option Background :=
  if v.isRecord 2 then do
    let tag ← Background.tag? lax v
    let value ← v.required 1 "value" asText
    match tag with
    | "color" => some (.color value)
    | "image" => some (.image value)
    | _ => none
  else none

def Cue.ofJson? (v : Json) : Option Cue :=
  if v.isRecord 3 then do
    let beginTime ← v.required 0 "begin_time" Json.asInt64
    let endTime ← v.required 1 "end_time" Json.asInt64
    let text ← v.required 2 "text" asText
    some { beginTime, endTime, text }
  else none

def SubtitleBlock.ofJson? (v : Json) : Option SubtitleBlock :=
  if v.isRecord 7 then do
    let cues ← v.required 0 "cues" (asList Cue.ofJson?)
    let frame ← v.withDefault 1 "frame" Rect.ofJson? Rect.empty
    let style ← v.withDefault 2 "style" TextStyle.ofJson? {}
    let vertical ← v.withDefault 3 "vertical" asBool false
    let audio ← v.withDefault 4 "audio" (asOption asText) none
    let duration ← v.withDefault 5 "duration" (asOption asFloat) none
    let fontPath ← v.withDefault 6 "font_path" (asOption asText) none
    some { cues, frame, style, vertical, audio, duration, fontPath }
  else none

/-! ## Nodes, scenes, timelines -/

section

variable {τ : Type} (nested : Json → Option τ) (lax : Bool)

def NodeKind.tags : List String := ["image", "video", "text", "subtitle", "audio", "composition"]

/-- A kind among the fields of an object; `nested` reads a composition's timeline. -/
def NodeKind.ofJson? (v : Json) : Option (NodeKind τ) := do
  let tag ← v.required 0 "type" (Json.asTag NodeKind.tags)
  match tag with
  | "image" => do
    let path ← v.required 0 "path" asText
    some (.image path)
  | "video" => do
    let path ← v.required 0 "path" asText
    let cutFrom ← v.withDefault 0 "cut_from" (asOption asFloat) none
    let cutTo ← v.withDefault 0 "cut_to" (asOption asFloat) none
    let muted ← v.withDefault 0 "muted" asBool false
    some (.video path cutFrom cutTo muted)
  | "text" => do
    let words ← v.required 0 "text" asText
    let style ← v.withDefault 0 "style" TextStyle.ofJson? {}
    some (.text words style)
  | "subtitle" => do
    let path ← v.required 0 "path" asText
    let style ← v.withDefault 0 "style" TextStyle.ofJson? {}
    let vertical ← v.withDefault 0 "vertical" asBool false
    some (.subtitle path style vertical)
  | "audio" => do
    let track ← v.required 0 "track" AudioTrack.ofJson?
    some (.audio track)
  | _ => do
    let timeline ← v.required 0 "timeline" nested
    let output ← v.withDefault 0 "output" (asOption asText) none
    some (.composition timeline output)

def Node.decode (v : Json) : Option (Node τ) :=
  if v.isObject then do
    let kind ← NodeKind.ofJson? nested v
    let frame ← v.withDefault 0 "frame" Rect.ofJson? Rect.empty
    let rotation ← v.withDefault 0 "rotation" asFloat 0.0
    let opacity ← v.withDefault 0 "opacity" (asOption asFloat) none
    let start ← v.withDefault 0 "start" (asOption asFloat) none
    let finish ← v.withDefault 0 "end" (asOption asFloat) none
    let preFilters ← v.withDefault 0 "pre_filters" (asList asText) []
    let filters ← v.withDefault 0 "filters" (asList asText) []
    let animations ← v.withDefault 0 "animations" (asList (Animation.ofJson? lax)) []
    some { kind, frame, rotation, opacity, start, finish, preFilters, filters, animations }
  else none

def Scene.decode (v : Json) : Option (Scene τ) :=
  if v.isRecord 7 then do
    let duration ← v.required 0 "duration" asFloat
    let background ← v.withDefault 1 "background" (asOption (Background.ofJson? lax)) none
    let transition ← v.withDefault 2 "transition" (asOption TransitionSpec.ofJson?) none
    let nodes ← v.withDefault 3 "nodes" (asList (Node.decode nested lax)) []
    let subtitle ← v.withDefault 4 "subtitle" (asOption SubtitleBlock.ofJson?) none
    let audios ← v.withDefault 5 "audios" (asList AudioTrack.ofJson?) []
    let audioVolume ← v.withDefault 6 "audio_volume" (asOption asFloat) none
    some { duration, background, transition, nodes, subtitle, audios, audioVolume }
  else none

end

/-- A timeline.  A composition's timeline is a part of the value, so it is not as deep. -/
def Timeline.decode (lax : Bool) (v : Json) : Option Timeline :=
  let nested (w : Json) : Option Timeline :=
    if _h : w.depth < v.depth then Timeline.decode true w else none
  if v.isRecord 3 then do
    let settings ← v.required 0 "settings" (Settings.ofJson? lax)
    let scenes ← v.withDefault 1 "scenes" (asList (Scene.decode nested lax)) []
    let audios ← v.withDefault 2 "audios" (asList AudioTrack.ofJson?) []
    some { settings, scenes, audios }
  else none
termination_by v.depth

def Timeline.ofJson? : Json → Option Timeline := Timeline.decode false

def Node.ofJson? : Json → Option (Node Timeline) := Node.decode (Timeline.decode true) false

def Scene.ofJson? : Json → Option (Scene Timeline) := Scene.decode (Timeline.decode true) false

end Montage
