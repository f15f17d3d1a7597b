import Montage.Proofs.Timeline.Nesting
import Montage.Timeline.Assets

/-!
# The fields that hold files

A file of a timeline stands in a field: of one of the timeline's own tracks, or of a scene, where it
is the picture of the background, a track, the narration or the font of the block, or what a node
reads.  `Timeline.assets` goes through these fields one after another and misses none
(`Timeline.lists_assets`).
-/

namespace Montage

/-- The values are those of all the places that have one, each place once. -/
def Lists {α β : Type} (value? : α → Option β) (values : List β) : Prop :=
  ∃ entries : List (α × β), (entries.map Prod.fst).Nodup ∧
    (∀ x v, (x, v) ∈ entries ↔ value? x = some v) ∧ entries.map Prod.snd = values

/-! ## Entries of lists -/

section

variable {α β γ : Type}

/-- The values of the items, the item with the index `i` standing at `place i`. -/
def entriesOf (place : Nat → γ) (value? : α → Option β) (xs : List α) : List (γ × β) :=
  xs.zipIdx.filterMap fun x => (value? x.1).map (place x.2, ·)

variable {place : Nat → γ} {value? : α → Option β} {xs : List α}

theorem mem_entriesOf {x : γ} {v : β} :
    (x, v) ∈ entriesOf place value? xs ↔ ∃ i, place i = x ∧ xs[i]?.bind value? = some v := by
  simp only [entriesOf, List.mem_filterMap, Option.map_eq_some_iff, Prod.mk.injEq,
    Option.bind_eq_some_iff, ← List.mk_mem_zipIdx_iff_getElem?, Prod.exists]
  constructor
  · rintro ⟨a, i, ha, v, hv, rfl, rfl⟩
    exact ⟨i, rfl, a, ha, hv⟩
  · rintro ⟨i, rfl, a, ha, hv⟩
    exact ⟨a, i, ha, v, hv, rfl, rfl⟩

theorem mem_map_fst_entriesOf {x : γ} : x ∈ (entriesOf place value? xs).map Prod.fst ↔
    ∃ i, place i = x ∧ (xs[i]?.bind value?).isSome := by
  simp only [List.mem_map, Prod.exists, exists_and_right, exists_eq_right, mem_entriesOf,
    Option.isSome_iff_exists]
  rw [exists_comm]
  simp only [exists_and_left]

theorem map_snd_entriesOf : (entriesOf place value? xs).map Prod.snd = xs.filterMap value? := by
  conv_rhs => rw [← List.zipIdx_map_fst 0 xs, List.filterMap_map]
  rw [entriesOf, List.map_filterMap]
  refine congrArg (List.filterMap · _) (funext fun x => ?_)
  rw [Option.map_map]
  exact Option.map_id'

theorem nodup_entriesOf (h : place.Injective) :
    ((entriesOf place value? xs).map Prod.fst).Nodup := by
  rw [List.Nodup, List.pairwise_map, entriesOf, List.pairwise_filterMap]
  refine (pairwise_zipIdx xs).imp fun hlt c hc d hd heq => ?_
  obtain ⟨v, -, rfl⟩ := Option.map_eq_some_iff.1 hc
  obtain ⟨w, -, rfl⟩ := Option.map_eq_some_iff.1 hd
  exact Nat.ne_of_lt hlt (h heq)

end

/-! ## Fields of scenes -/

/-- The file of a node: a picture, a clip or a sound, or the font of a text. -/
def NodeKind.asset? {τ : Type} : NodeKind τ → Option String
  | .image path => some path
  | .video path _ _ _ => some path
  | .text _ style => style.fontFile
  | .subtitle _ style _ => style.fontFile
  | .audio track => some track.path
  | .composition _ _ => none

/-- The picture of a background. -/
def Background.picture? : Background → Option String
  | .image path => some path
  | .color _ => none

/-- A field of a scene; a track and a node are told by their number. -/
inductive SceneField where
  | background
  | track (number : Nat)
  | narration
  | font
  | node (number : Nat)

namespace Scene

variable {τ : Type} (s : Scene τ)

/-- The file in a field. -/
def asset? : SceneField → Option String
  | .background => s.background.bind Background.picture?
  | .track number => s.audios[number]?.map (·.path)
  | .narration => s.subtitle.bind (·.audio)
  | .font => s.subtitle.bind (·.fontPath)
  | .node number => s.nodes[number]?.bind (·.kind.asset?)

/-- The fields that hold a file, in the order of the scene. -/
def assetEntries : List (SceneField × String) :=
  (s.asset? .background).toList.map (.background, ·) ++
    entriesOf .track (fun a => some a.path) s.audios ++
    (s.asset? .narration).toList.map (.narration, ·) ++
    (s.asset? .font).toList.map (.font, ·) ++
    entriesOf .node (·.kind.asset?) s.nodes

theorem mem_assetEntries {x : SceneField} {v : String} :
    (x, v) ∈ s.assetEntries ↔ s.asset? x = some v := by
  cases x <;> simp [assetEntries, mem_entriesOf, asset?, Option.bind_eq_some_iff]

theorem nodup_assetEntries : (s.assetEntries.map Prod.fst).Nodup := by
  have htracks : ((entriesOf SceneField.track (fun a => some a.path) s.audios).map
      Prod.fst).Nodup := nodup_entriesOf fun _ _ => SceneField.track.inj
  have hnodes : ((entriesOf SceneField.node (·.kind.asset?) s.nodes).map Prod.fst).Nodup :=
    nodup_entriesOf fun _ _ => SceneField.node.inj
  have hone (o : Option String) (x : SceneField) :
      ((o.toList.map fun v => (x, v)).map Prod.fst).Nodup := by
    cases o <;> simp
  simp only [assetEntries, List.map_append, List.nodup_append, htracks, hnodes, hone, true_and]
  refine ⟨⟨⟨?_, ?_⟩, ?_⟩, ?_⟩ <;> grind [mem_map_fst_entriesOf]

theorem map_snd_assetEntries : s.assetEntries.map Prod.snd = s.assets := by
  have hnode (k : NodeKind τ) : k.assets = k.asset?.toList := by cases k <;> rfl
  have hbackground : (s.background.map Background.assets).getD [] =
      (s.asset? .background).toList := by
    rcases hback : s.background with _ | color | path <;> simp [asset?, hback, Background.assets,
      Background.picture?]
  have hblock : (s.subtitle.map SubtitleBlock.assets).getD [] =
      (s.asset? .narration).toList ++ (s.asset? .font).toList := by
    rcases hsubtitle : s.subtitle with _ | block <;>
      simp [asset?, hsubtitle, SubtitleBlock.assets]
  have hnodes : s.nodes.flatMap (·.kind.assets) = s.nodes.filterMap (·.kind.asset?) := by
    simp only [hnode, List.filterMap_eq_flatMap_toList]
  simp [assetEntries, assets, map_snd_entriesOf, hbackground, hblock, hnodes, Function.comp_def]

theorem mem_assets_of_asset? {s : Scene τ} {x : SceneField} {file : String}
    (h : s.asset? x = some file) : file ∈ s.assets := by
  rw [← map_snd_assetEntries]
  exact List.mem_map_of_mem (s.mem_assetEntries.2 h)

end Scene

/-! ## Fields of timelines -/

/-- A field of a timeline; scenes are told by their number too. -/
inductive AssetField where
  | track (number : Nat)
  | scene (number : Nat) (field : SceneField)

namespace Timeline

variable (t : Timeline)

/-- The file in a field. -/
def asset? : AssetField → Option String
  | .track number => t.audios[number]?.map (·.path)
  | .scene number field => t.scenes[number]?.bind (·.asset? field)

/-- The fields that hold a file, in the order of the timeline. -/
def assetEntries : List (AssetField × String) :=
  entriesOf .track (fun a => some a.path) t.audios ++
    t.scenes.zipIdx.flatMap fun x =>
      x.1.assetEntries.map fun (field, file) => (.scene x.2 field, file)

theorem mem_assetEntries {x : AssetField} {v : String} :
    (x, v) ∈ t.assetEntries ↔ t.asset? x = some v := by
  cases x with
  | track number => simp [assetEntries, mem_entriesOf, asset?, Option.bind_eq_some_iff]
  | scene number field =>
    simp [assetEntries, mem_entriesOf, asset?, Option.bind_eq_some_iff, Scene.mem_assetEntries,
      List.mem_zipIdx_iff_getElem?]

theorem nodup_assetEntries : (t.assetEntries.map Prod.fst).Nodup := by
  have htracks : ((entriesOf AssetField.track (fun a => some a.path) t.audios).map
      Prod.fst).Nodup := nodup_entriesOf fun _ _ => AssetField.track.inj
  have hscenes : (t.scenes.zipIdx.flatMap fun x =>
      (x.1.assetEntries.map Prod.fst).map (AssetField.scene x.2)).Nodup := by
    rw [List.Nodup, List.pairwise_flatMap]
    refine ⟨fun x _ => x.1.nodup_assetEntries.map fun _ _ h => (AssetField.scene.inj h).2, ?_⟩
    refine (pairwise_zipIdx t.scenes).imp fun hlt x hx y hy heq => ?_
    obtain ⟨field, -, rfl⟩ := List.mem_map.1 hx
    obtain ⟨field', -, rfl⟩ := List.mem_map.1 hy
    exact Nat.ne_of_lt hlt (AssetField.scene.inj heq).1
  have hfields : t.assetEntries.map Prod.fst =
      (entriesOf AssetField.track (fun a => some a.path) t.audios).map Prod.fst ++
        t.scenes.zipIdx.flatMap fun x =>
          (x.1.assetEntries.map Prod.fst).map (AssetField.scene x.2) := by
    simp [assetEntries, List.map_flatMap, Function.comp_def]
  rw [hfields, List.nodup_append]
  refine ⟨htracks, hscenes, ?_⟩
  grind [mem_map_fst_entriesOf]

theorem map_snd_assetEntries : t.assetEntries.map Prod.snd = t.assets := by
  have hscenes : t.scenes.flatMap Scene.assets = t.scenes.zipIdx.flatMap fun x => x.1.assets := by
    conv_lhs => rw [← List.zipIdx_map_fst 0 t.scenes, List.flatMap_map]
  simp [assetEntries, assets, map_snd_entriesOf, List.map_flatMap, hscenes, Function.comp_def,
    ← Scene.map_snd_assetEntries]

/-- The files of a timeline are those in its fields, each field once. -/
theorem lists_assets : Lists t.asset? t.assets :=
  ⟨t.assetEntries, t.nodup_assetEntries, fun _ _ => t.mem_assetEntries, t.map_snd_assetEntries⟩

end Timeline

/-! ## Replacing -/

section

variable {τ : Type} {f : String → Id String}

theorem mapOption_eq_map {α β : Type} (f : α → Id β) (o : Option α) : mapOption f o = o.map f := by
  cases o <;> rfl

theorem mapList_eq_map {α β : Type} (f : α → Id β) (xs : List α) : mapList f xs = xs.map f := by
  induction xs with
  | nil => rfl
  | cons x rest ih => exact congrArg (f x :: ·) ih

theorem NodeKind.asset?_mapAssets (k : NodeKind τ) (f : String → Id String) :
    (k.mapAssets f).run.asset? = k.asset?.map f := by
  cases k <;> first | rfl | exact mapOption_eq_map f _

theorem Scene.asset?_mapAssets (s : Scene τ) (f : String → Id String) (x : SceneField) :
    (s.mapAssets f).run.asset? x = (s.asset? x).map f := by
  have hmapped : (s.mapAssets f).run = { s with
      background := s.background.map (Background.mapAssets f)
      audios := s.audios.map (AudioTrack.mapAssets f)
      subtitle := s.subtitle.map (SubtitleBlock.mapAssets f)
      nodes := s.nodes.map (Node.mapAssets f) } := by
    rw [← mapOption_eq_map, ← mapOption_eq_map, ← mapList_eq_map, ← mapList_eq_map]
    rfl
  rw [hmapped]
  cases x with
  | background =>
    simp only [asset?]
    rcases s.background with _ | color | path <;> rfl
  | track number =>
    simp only [asset?, List.getElem?_map]
    cases s.audios[number]? <;> rfl
  | narration =>
    simp only [asset?]
    rcases s.subtitle with _ | block
    · rfl
    · exact mapOption_eq_map f block.audio
  | font =>
    simp only [asset?]
    rcases s.subtitle with _ | block
    · rfl
    · exact mapOption_eq_map f block.fontPath
  | node number =>
    simp only [asset?, List.getElem?_map]
    rcases s.nodes[number]? with _ | n
    · rfl
    · exact n.kind.asset?_mapAssets f

end

namespace Timeline

/-- Replacing the files replaces what is in the fields, each field once. -/
theorem asset?_mapAssets (t : Timeline) (f : String → Id String) (x : AssetField) :
    (t.mapAssets f).run.asset? x = (t.asset? x).map f := by
  have hmapped : (t.mapAssets f).run = { t with
      audios := t.audios.map (AudioTrack.mapAssets f)
      scenes := t.scenes.map (Scene.mapAssets f) } := by
    rw [← mapList_eq_map, ← mapList_eq_map]
    rfl
  rw [hmapped]
  cases x with
  | track number =>
    simp only [asset?, List.getElem?_map]
    cases t.audios[number]? <;> rfl
  | scene number field =>
    simp only [asset?, List.getElem?_map]
    rcases t.scenes[number]? with _ | s
    · rfl
    · exact s.asset?_mapAssets f field

end Timeline

end Montage
