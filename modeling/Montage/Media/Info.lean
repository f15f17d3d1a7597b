import Montage.Decimal.Reading
import Montage.Json.Guide

/-!
# What is known of a media file

The prober describes a file in JSON: the length of the whole as a text, and a list of streams.  The
size is that of the first stream of pictures; what is not given is zero.
-/

namespace Montage

/-- The size and length of a media file, and whether it sounds. -/
structure MediaInfo where
  width : UInt32 := 0
  height : UInt32 := 0
  duration : Float := 0.0
  hasAudio : Bool := false
  deriving Repr, DecidableEq, Inhabited

namespace MediaInfo

open Json

/-- One stream of a media file. -/
structure Stream where
  kind : Option String
  width : Option UInt32
  height : Option UInt32
  deriving Repr, DecidableEq

/-- The guide to a description. -/
def guide : Guide :=
  .record
    [("format", .optional (.record [("duration", .optional .text)])),
      ("streams", .list (.record
        [("codec_type", .optional .text), ("width", .any), ("height", .any)]))]

/-- A stream of a description. -/
def Stream.ofJson? (v : Json) : Option Stream :=
  if isRecord v 3 then do
    let kind ← optional v 0 "codec_type" asText
    let width ← optional v 1 "width" (asNat UInt32.size)
    let height ← optional v 2 "height" (asNat UInt32.size)
    return { kind, width := width.map UInt32.ofNat, height := height.map UInt32.ofNat }
  else none

/-- The text of the length in a description's head. -/
def durationText? (v : Json) : Option (Option String) :=
  if isRecord v 1 then optional v 0 "duration" asText else none

/-- What a length and streams say of a file. -/
def ofStreams (duration : Option String) (streams : List Stream) : MediaInfo :=
  let picture := streams.find? (·.kind == some "video")
  { width := (picture.bind (·.width)).getD 0
    height := (picture.bind (·.height)).getD 0
    duration := (duration.bind Decimal.ofText?).getD 0.0
    hasAudio := streams.any (·.kind == some "audio") }

/-- What a description says of a file. -/
def ofJson? (v : Json) : Option MediaInfo :=
  if isRecord v 2 then do
    let format ← optional v 0 "format" durationText?
    let streams ← withDefault v 1 "streams" (asList Stream.ofJson?) []
    return ofStreams (format.bind id) streams
  else none

/-- What the text of a description says of a file. -/
def ofText? (s : String) : Option MediaInfo :=
  match guide.readWhole s with
  | .ok v => ofJson? v
  | .error _ => none

end MediaInfo

end Montage
