import Montage.Path

/-!
# Where files lie

A plan keeps its intermediate files in one directory: a file for each scene, one for the subtitles
of a scene, and a manifest.
-/

namespace Montage

/-- The directory of intermediate files, and the file that is to be made. -/
structure Layout where
  cacheDir : String
  output : String
  deriving Repr, DecidableEq

namespace Layout

def sceneName (index : Nat) : String := "scene-" ++ toString index ++ ".mp4"

def subtitleName (index : Nat) : String := "subtitle-" ++ toString index ++ ".srt"

def manifestName : String := "scenes.txt"

def scenePath (l : Layout) (index : Nat) : String := Path.join l.cacheDir (sceneName index)

def subtitlePath (l : Layout) (index : Nat) : String := Path.join l.cacheDir (subtitleName index)

def manifestPath (l : Layout) : String := Path.join l.cacheDir manifestName

end Layout

end Montage
