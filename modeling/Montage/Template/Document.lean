import Montage.Json.Merge
import Montage.Template.Head

/-!
# Templates as documents

A document is a tree of clips and layers: a clip holds layers, a layer may hold clips.  Defaults are
merged under a clip or a layer before it is read: the document's under the clips at the top, a
clip's under its own layers.  A clip or a layer that cannot be read is a leaf of its own, so that
what is wrong with a document can be told in its order.
-/

namespace Montage.Template

mutual
/-- A clip and its layers. -/
inductive Clip where
  | unreadable
  | clip (head : ClipHead) (layers : List Layer)
/-- A layer and the clips inside it. -/
inductive Layer where
  | unreadable
  | layer (head : LayerHead) (clips : List Clip)
end

/-- A document and its clips. -/
structure Document where
  head : Head
  clips : List Clip

/-- The field of a clip with the defaults of its layers; null if there are none. -/
def layerDefaults (v : Json) : Json := (v.field 4 "layer").getD .null

theorem depth_layerDefaults_lt {v w : Json} (h : w.depth < v.depth) :
    (layerDefaults v).depth < v.depth := by
  unfold layerDefaults
  cases hf : v.field 4 "layer" with
  | none => simp only [Option.getD_none, Json.depth]; omega
  | some u => exact Json.depth_lt_of_field hf

theorem depth_merge_layerDefaults_lt {v w : Json} {place : Nat} {name : String}
    (h : w ∈ v.items place name) : (Json.merge (layerDefaults v) w).depth < v.depth := by
  have h₁ := Json.depth_lt_of_mem_items h
  have h₂ := depth_layerDefaults_lt h₁
  have h₃ := Json.depth_merge_le (layerDefaults v) w
  omega

mutual
def Clip.ofJson (v : Json) : Clip :=
  match ClipHead.ofJson? v with
  | none => .unreadable
  | some head =>
    .clip head ((v.items layersPlace "layers").attach.map fun ⟨w, _h⟩ =>
      Layer.ofJson (Json.merge (layerDefaults v) w))
termination_by v.depth
decreasing_by exact depth_merge_layerDefaults_lt _h
def Layer.ofJson (v : Json) : Layer :=
  match LayerHead.ofJson? v with
  | none => .unreadable
  | some head =>
    .layer head ((v.items 0 "clips").attach.map fun ⟨w, _h⟩ => Clip.ofJson w)
termination_by v.depth
decreasing_by exact Json.depth_lt_of_mem_items _h
end

/-- Reads a document; the document's defaults are merged under each of its clips. -/
def Document.ofJson? (v : Json) : Option Document :=
  (Head.ofJson? v).map fun head =>
    let defaults := (v.field 14 "default").getD .null
    ⟨head, (v.items 3 "clips").map fun w => Clip.ofJson (Json.merge defaults w)⟩

end Montage.Template
