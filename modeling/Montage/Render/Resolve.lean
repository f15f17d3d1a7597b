import Montage.Asset.Remote
import Montage.Render.Task
import Montage.Timeline.Assets
import Montage.Timeline.Window

/-!
# Resolving assets

Before a unit is compiled each file that its timeline reads is looked up.  A local file has to be
there; a web address stands for a file in the cache directory, which is fetched if it is not there
yet.  Then every picture without a size is measured.
-/

namespace Montage.Resolve

open Script

/-- The reason for a local file that is not there. -/
def absent : String := "file not found"

/-- Where a download is written until it is whole. -/
def partialPath (cacheDir url : String) : String := Path.join cacheDir (Asset.key url ++ ".part")

/-- Fetches a web address into the cache directory. -/
def download (cacheDir url : String) : Script String := do
  match ← ask (.fetch url) with
  | .error reason => fail (.missingAsset url reason)
  | .ok contents =>
    checkFile (← ask (.makeDirs cacheDir))
    checkFile (← ask (.write (partialPath cacheDir url) contents))
    checkFile (← ask (.move (partialPath cacheDir url) (Asset.downloadPath cacheDir url)))
    return Asset.downloadPath cacheDir url

/-- The local file of a source. -/
def source (cacheDir source : String) : Script String := do
  if Asset.isRemote source then
    match ← ask (.look (Asset.downloadPath cacheDir source)) with
    | .ok true => return Asset.downloadPath cacheDir source
    | _ => download cacheDir source
  else
    match ← ask (.look source) with
    | .ok true => return source
    | .ok false => fail (.missingAsset source absent)
    | .error t => fail (.missingAsset source t.message)

/-- The node with its size, if it is a picture without one. -/
def measure {τ : Type} (n : Node τ) : Script (Node τ) :=
  match n.kind with
  | .image path =>
    if n.frame.isSized then pure n
    else do
      let info ← check (← ask (.probe path))
      return n.settle info.width.toFloat info.height.toFloat
  | _ => pure n

/-- The scene with the sizes of its pictures. -/
def measureScene {τ : Type} (s : Scene τ) : Script (Scene τ) :=
  return { s with nodes := ← mapList measure s.nodes }

/-- The timeline with local files and with the sizes of its pictures. -/
def timeline (cacheDir : String) (t : Timeline) : Script Timeline := do
  let t ← t.mapAssets (source cacheDir)
  return { t with scenes := ← mapList measureScene t.scenes }

end Montage.Resolve
