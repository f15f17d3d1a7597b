import Montage.Plan.Layout
import Montage.Proofs.Path.Names

/-!
# The files of a plan

The files that a plan keeps in its directory differ from each other, and from everything in that
directory whose name has another word: each has the components of the directory and one of the names
`FileName.scene`, `FileName.subtitles` and `FileName.manifest`.
-/

namespace Montage

namespace FileName

/-- A name that is joined to a path is one more component. -/
theorem components_join (x : FileName) (base : String) {name : String} (h : name.toList = x.chars) :
    Path.components (Path.join base name) = Path.components base ++ [x.chars] := by
  rw [Path.components_join base (h ▸ x.isName), h]

end FileName

namespace Layout

/-- The components of the file of that name in the directory. -/
def place (l : Layout) (x : FileName) : List (List Char) :=
  Path.components l.cacheDir ++ [x.chars]

/-- The path leads to the file of that name in the directory. -/
def HasName (l : Layout) (path : String) (x : FileName) : Prop :=
  Path.components path = l.place x

theorem toList_sceneName (index : Nat) :
    (sceneName index).toList = (FileName.scene index).chars := by
  simp [sceneName, FileName.chars, FileName.scene, Text.separated]

theorem toList_subtitleName (index : Nat) :
    (subtitleName index).toList = (FileName.subtitles index).chars := by
  simp [subtitleName, FileName.chars, FileName.subtitles, Text.separated]

theorem toList_manifestName : manifestName.toList = FileName.manifest.chars := by decide

variable (l : Layout)

theorem hasName_scenePath (index : Nat) : l.HasName (l.scenePath index) (.scene index) :=
  FileName.components_join _ _ (toList_sceneName index)

theorem hasName_subtitlePath (index : Nat) : l.HasName (l.subtitlePath index) (.subtitles index) :=
  FileName.components_join _ _ (toList_subtitleName index)

theorem hasName_manifestPath : l.HasName l.manifestPath .manifest :=
  FileName.components_join _ _ toList_manifestName

/-- The files that a plan may keep in its directory. -/
inductive Keeps : String → Prop
  | scene (index : Nat) : Keeps (l.scenePath index)
  | subtitles (index : Nat) : Keeps (l.subtitlePath index)
  | manifest : Keeps l.manifestPath

/-- The words that the names of a plan's files begin with. -/
def keptWords : List String := ["scene", "subtitle", "scenes"]

theorem Keeps.exists_hasName {l : Layout} {path : String} (h : l.Keeps path) :
    ∃ x : FileName, x.word ∈ keptWords ∧ l.HasName path x := by
  cases h with
  | scene index => exact ⟨.scene index, .head _, l.hasName_scenePath index⟩
  | subtitles index => exact ⟨.subtitles index, .tail _ (.head _), l.hasName_subtitlePath index⟩
  | manifest => exact ⟨.manifest, .tail _ (.tail _ (.head _)), l.hasName_manifestPath⟩

end Layout

end Montage
