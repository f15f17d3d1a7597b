import Montage.Text.Ascii
import Montage.Timeline.Basic

/-!
# Subtitle files

Cues are numbered from one; each is its number, its times and its text, with an empty line behind
it.  Times are hours, minutes, seconds and milliseconds; a time before zero counts as zero.
-/

namespace Montage.Subtitle

/-- The characters of a time in milliseconds. -/
def stampChars (millis : Nat) : List Char :=
  Text.padded 2 (millis / 3600000) ++ ':' :: Text.padded 2 (millis % 3600000 / 60000) ++
    ':' :: Text.padded 2 (millis % 60000 / 1000) ++ ',' :: Text.padded 3 (millis % 1000)

/-- A time in milliseconds as text. -/
def stamp (millis : Int64) : String := String.ofList (stampChars millis.toInt.toNat)

def renderCue (number : Nat) (cue : Cue) : String :=
  toString number ++ "\n" ++ stamp cue.beginTime ++ " --> " ++ stamp cue.endTime ++ "\n" ++
    cue.text ++ "\n\n"

/-- The cues from a number on. -/
def renderFrom (number : Nat) : List Cue → String
  | [] => ""
  | cue :: rest => renderCue number cue ++ renderFrom (number + 1) rest

def render (cues : List Cue) : String := renderFrom 1 cues

end Montage.Subtitle
