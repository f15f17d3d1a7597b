import Montage.Json.Value
import Montage.Timeline.Basic

/-!
# Timelines as data

Every type of a timeline as a JSON value: all fields are written, null for what is not there.  A
node's kind and an animation's motion are written among the fields of the node and the animation,
under a tag.
-/

namespace Montage

namespace Json

/-- A float; one that is infinite or no number is null. -/
def ofFloat (x : Float) : Json := if x.isFinite then .float x else .null

def ofOption {α : Type} (f : α → Json) : Option α → Json
  | some a => f a
  | none => .null

def ofList {α : Type} (f : α → Json) (xs : List α) : Json := .arr (xs.map f)

/-- A text that may be missing. -/
def ofText? : Option String → Json := ofOption .str

/-- A float that may be missing. -/
def ofFloat? : Option Float → Json := ofOption ofFloat

end Json

open Json (ofFloat ofFloat? ofText? ofOption ofList)

def Speed.name : Speed → String
  | .normal => "normal"
  | .high => "high"

def Direction.name : Direction → String
  | .entering => "in"
  | .leaving => "out"

def Settings.toJson (s : Settings) : Json :=
  .obj [("width", .int s.width.toNat), ("height", .int s.height.toNat), ("fps", .int s.fps.toNat),
    ("crf", .int s.crf.toNat), ("threads", ofOption (fun n : UInt32 => .int n.toNat) s.threads),
    ("speed", .str s.speed.name), ("raw_audio_mix", .bool s.rawMix),
    ("seed", ofOption (fun n : UInt64 => .int n.toNat) s.seed), ("debug", .bool s.debug)]

def Point.toJson (p : Point) : Json := .obj [("x", ofFloat p.x), ("y", ofFloat p.y)]

def Rect.toJson (r : Rect) : Json :=
  .obj [("x", ofFloat r.x), ("y", ofFloat r.y), ("w", ofFloat r.w), ("h", ofFloat r.h)]

/-- The fields of a motion. -/
def Motion.members : Motion → List (String × Json)
  | .move start finish =>
    [("type", .str "move"), ("from", start.toJson), ("to", finish.toJson)]
  | .fade start finish => [("type", .str "fade"), ("from", ofFloat start), ("to", ofFloat finish)]
  | .zoom start finish => [("type", .str "zoom"), ("from", ofFloat start), ("to", ofFloat finish)]
  | .rotate start finish =>
    [("type", .str "rotate"), ("from", ofFloat start), ("to", ofFloat finish)]
  | .effect name => [("type", .str "effect"), ("name", .str name)]

def Animation.toJson (a : Animation) : Json :=
  .obj (a.motion.members ++
    [("show", .str a.direction.name), ("start", ofFloat a.start),
      ("duration", ofFloat a.duration)])

def Shadow.toJson (s : Shadow) : Json :=
  .obj [("x", ofFloat s.x), ("y", ofFloat s.y), ("color", ofText? s.color)]

def TextStyle.toJson (s : TextStyle) : Json :=
  .obj [("font_size", ofFloat s.fontSize), ("color", .str s.color),
    ("background_color", ofText? s.backgroundColor), ("border_width", ofFloat? s.borderWidth),
    ("border_color", ofText? s.borderColor), ("font_file", ofText? s.fontFile),
    ("font_family", ofText? s.fontFamily), ("line_spacing", ofFloat? s.lineSpacing),
    ("char_spacing", ofFloat? s.charSpacing), ("shadow", ofOption Shadow.toJson s.shadow),
    ("bold", .bool s.bold), ("italic", .bool s.italic), ("underline", .bool s.underline),
    ("strikeout", .bool s.strikeout), ("scale", ofFloat? s.scale)]

def AudioTrack.toJson (t : AudioTrack) : Json :=
  .obj [("path", .str t.path), ("start", ofFloat t.start), ("ss", ofFloat? t.readFrom),
    ("to", ofFloat? t.readTo), ("volume", ofFloat? t.volume), ("fade_in", ofFloat? t.fadeIn),
    ("fade_out", ofFloat? t.fadeOut), ("loop", .bool t.looped)]

def TransitionSpec.toJson (t : TransitionSpec) : Json :=
  .obj [("name", .str t.name), ("duration", ofFloat t.duration)]

def Background.toJson : Background → Json
  | .color name => .obj [("type", .str "color"), ("value", .str name)]
  | .image path => .obj [("type", .str "image"), ("value", .str path)]

def Cue.toJson (c : Cue) : Json :=
  .obj [("begin_time", .int c.beginTime.toInt), ("end_time", .int c.endTime.toInt),
    ("text", .str c.text)]

def SubtitleBlock.toJson (b : SubtitleBlock) : Json :=
  .obj [("cues", ofList Cue.toJson b.cues), ("frame", Rect.toJson b.frame),
    ("style", b.style.toJson), ("vertical", .bool b.vertical), ("audio", ofText? b.audio),
    ("duration", ofFloat? b.duration), ("font_path", ofText? b.fontPath)]

/-- The fields of a kind, its composition being data already. -/
def NodeKind.members : NodeKind Json → List (String × Json)
  | .image path => [("type", .str "image"), ("path", .str path)]
  | .video path cutFrom cutTo muted =>
    [("type", .str "video"), ("path", .str path), ("cut_from", ofFloat? cutFrom),
      ("cut_to", ofFloat? cutTo), ("muted", .bool muted)]
  | .text words style => [("type", .str "text"), ("text", .str words), ("style", style.toJson)]
  | .subtitle path style vertical =>
    [("type", .str "subtitle"), ("path", .str path), ("style", style.toJson),
      ("vertical", .bool vertical)]
  | .audio track => [("type", .str "audio"), ("track", track.toJson)]
  | .composition timeline output =>
    [("type", .str "composition"), ("timeline", timeline), ("output", ofText? output)]

/-- The node as data, its composition being data already. -/
def Node.encode (n : Node Json) : Json :=
  .obj (n.kind.members ++
    [("frame", Rect.toJson n.frame), ("rotation", ofFloat n.rotation),
      ("opacity", ofFloat? n.opacity), ("start", ofFloat? n.start), ("end", ofFloat? n.finish),
      ("pre_filters", ofList .str n.preFilters), ("filters", ofList .str n.filters),
      ("animations", ofList Animation.toJson n.animations)])

/-- The scene as data, its compositions being data already. -/
def Scene.encode (s : Scene Json) : Json :=
  .obj [("duration", ofFloat s.duration), ("background", ofOption Background.toJson s.background),
    ("transition", ofOption TransitionSpec.toJson s.transition),
    ("nodes", ofList Node.encode s.nodes),
    ("subtitle", ofOption SubtitleBlock.toJson s.subtitle),
    ("audios", ofList AudioTrack.toJson s.audios), ("audio_volume", ofFloat? s.audioVolume)]

/-- A timeline as data, its compositions being data already. -/
def Timeline.encode (settings : Settings) (scenes : List (Scene Json))
    (audios : List AudioTrack) : Json :=
  .obj [("settings", settings.toJson), ("scenes", ofList Scene.encode scenes),
    ("audios", ofList AudioTrack.toJson audios)]

def Timeline.toJson : Timeline → Json := Timeline.fold Timeline.encode

def Node.toJson (n : Node Timeline) : Json := (n.map Timeline.toJson).encode

def Scene.toJson (s : Scene Timeline) : Json := (s.map Timeline.toJson).encode

end Montage
