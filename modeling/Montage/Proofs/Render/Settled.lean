import Montage.Proofs.Render.Performing
import Montage.Render.Resolve
import Montage.Render.Unit

/-!
# Timelines with nothing left to resolve

If all files of a timeline are local and all its pictures have a size, resolving looks at each file
and leaves the timeline as it is (`Resolve.does_timeline`).  Attaching the files of compositions
leaves a timeline settled (`Timeline.Settled.attachAll`).
-/

namespace Montage

variable {τ : Type}

/-- The node has a size if it is a picture. -/
def Node.isMeasured (n : Node τ) : Bool :=
  match n.kind with
  | .image _ => n.frame.isSized
  | _ => true

/-- All files of the timeline are local, and all its pictures have a size. -/
structure Timeline.Settled (t : Timeline) : Prop where
  local_assets : ∀ path ∈ t.assets, Asset.isRemote path = false
  measured : ∀ s ∈ t.scenes, ∀ n ∈ s.nodes, n.isMeasured = true

instance (t : Timeline) : Decidable t.Settled :=
  decidable_of_iff ((∀ path ∈ t.assets, Asset.isRemote path = false) ∧
      ∀ s ∈ t.scenes, ∀ n ∈ s.nodes, n.isMeasured = true)
    ⟨fun ⟨hlocal, hmeasured⟩ => ⟨hlocal, hmeasured⟩, fun ⟨hlocal, hmeasured⟩ => ⟨hlocal, hmeasured⟩⟩

open Script

/-! ## Files that stay -/

section

variable {f : String → Script String}

theorem AudioTrack.does_mapAssets {t : AudioTrack} (h : Does (f t.path) [] t.path) :
    Does (t.mapAssets f) [] t := h.then (does_pure t)

theorem Background.does_mapAssets {b : Background} (h : ∀ path ∈ b.assets, Does (f path) [] path) :
    Does (b.mapAssets f) [] b := by
  cases b with
  | image path => exact (h path (List.mem_singleton_self _)).then (does_pure _)
  | color name => exact does_pure _

theorem SubtitleBlock.does_mapAssets {b : SubtitleBlock}
    (h : ∀ path ∈ b.assets, Does (f path) [] path) : Does (b.mapAssets f) [] b := by
  have haudio : ∀ path ∈ b.audio, Does (f path) [] path := fun path hpath =>
    h path (List.mem_append_left _ (Option.mem_toList.2 hpath))
  have hfont : ∀ path ∈ b.fontPath, Does (f path) [] path := fun path hpath =>
    h path (List.mem_append_right _ (Option.mem_toList.2 hpath))
  exact (does_mapOption haudio).then ((does_mapOption hfont).then (does_pure b))

theorem TextStyle.does_mapAssets {s : TextStyle}
    (h : ∀ path ∈ s.fontFile, Does (f path) [] path) : Does (s.mapAssets f) [] s :=
  (does_mapOption h).then (does_pure s)

theorem NodeKind.does_mapAssets {k : NodeKind τ} (h : ∀ path ∈ k.assets, Does (f path) [] path) :
    Does (k.mapAssets f) [] k := by
  cases k with
  | image path => exact (h path (List.mem_singleton_self _)).then (does_pure _)
  | video path cutFrom cutTo muted =>
    exact (h path (List.mem_singleton_self _)).then (does_pure _)
  | text words style =>
    have hstyle : Does (style.mapAssets f) [] style :=
      TextStyle.does_mapAssets fun path hpath => h path (Option.mem_toList.2 hpath)
    exact hstyle.then (does_pure _)
  | subtitle path style vertical =>
    have hstyle : Does (style.mapAssets f) [] style :=
      TextStyle.does_mapAssets fun path hpath => h path (Option.mem_toList.2 hpath)
    exact hstyle.then (does_pure _)
  | audio track =>
    exact (AudioTrack.does_mapAssets (h track.path (List.mem_singleton_self _))).then (does_pure _)
  | composition timeline output => exact does_pure _

theorem Node.does_mapAssets {n : Node τ} (h : ∀ path ∈ n.kind.assets, Does (f path) [] path) :
    Does (n.mapAssets f) [] n := (NodeKind.does_mapAssets h).then (does_pure n)

theorem Scene.does_mapAssets {s : Scene τ} (h : ∀ path ∈ s.assets, Does (f path) [] path) :
    Does (s.mapAssets f) [] s := by
  simp only [Scene.assets, List.forall_mem_append] at h
  obtain ⟨⟨⟨hbackground, haudios⟩, hsubtitle⟩, hnodes⟩ := h
  refine (does_mapOption fun b hb => Background.does_mapAssets fun path hpath => ?_).then
    ((does_mapList fun t ht => AudioTrack.does_mapAssets ?_).then
      ((does_mapOption fun b hb => SubtitleBlock.does_mapAssets fun path hpath => ?_).then
        ((does_mapList fun n hn => Node.does_mapAssets fun path hpath => ?_).then (does_pure s))))
  · refine hbackground path ?_
    rw [Option.mem_def.1 hb]
    exact hpath
  · exact haudios _ (List.mem_map_of_mem ht)
  · refine hsubtitle path ?_
    rw [Option.mem_def.1 hb]
    exact hpath
  · exact hnodes path (List.mem_flatMap.2 ⟨n, hn, hpath⟩)

theorem Timeline.does_mapAssets {t : Timeline} (h : ∀ path ∈ t.assets, Does (f path) [] path) :
    Does (t.mapAssets f) [] t := by
  simp only [Timeline.assets, List.forall_mem_append] at h
  obtain ⟨haudios, hscenes⟩ := h
  obtain ⟨settings, scenes, audios⟩ := t
  refine (does_mapList fun track htrack => AudioTrack.does_mapAssets ?_).then
    ((does_mapList fun s hs => Scene.does_mapAssets fun path hpath => ?_).then (does_pure _))
  · exact haudios _ (List.mem_map_of_mem htrack)
  · exact hscenes path (List.mem_flatMap.2 ⟨s, hs, hpath⟩)

end

/-! ## Resolving -/

namespace Resolve

/-- A local file that is there stands for itself. -/
theorem does_source (cacheDir : String) {path : String} (h : Asset.isRemote path = false) :
    Does (source cacheDir path) [] path := by
  rw [source, if_neg (by simp [h])]
  exact (does_look path).then (does_pure path)

theorem does_measure {n : Node τ} (h : n.isMeasured = true) : Does (measure n) [] n := by
  unfold measure
  split
  · next path hkind =>
    have hsized : n.frame.isSized = true := by rwa [Node.isMeasured, hkind] at h
    rw [if_pos hsized]
    exact does_pure n
  · exact does_pure n

/-- Nothing is left to resolve in a settled timeline. -/
theorem does_timeline (cacheDir : String) {t : Timeline} (h : t.Settled) :
    Does (timeline cacheDir t) [] t := by
  have hassets : Does (t.mapAssets (source cacheDir)) [] t :=
    Timeline.does_mapAssets fun path hpath => does_source cacheDir (h.local_assets path hpath)
  have hscenes : Does (mapList measureScene t.scenes) [] t.scenes :=
    does_mapList fun s hs => (does_mapList fun n hn => does_measure (h.measured s hs n hn)).then
      (does_pure s)
  obtain ⟨settings, scenes, audios⟩ := t
  exact hassets.then (hscenes.then (does_pure _))

end Resolve

/-! ## Attaching -/

theorem forall_mem_modify {α : Type} {P : α → Prop} {f : α → α} {xs : List α}
    (h : ∀ x ∈ xs, P x) (hf : ∀ x ∈ xs, P x → P (f x)) (i : Nat) : ∀ x ∈ xs.modify i f, P x := by
  intro x hx
  obtain ⟨j, hj⟩ := List.getElem?_of_mem hx
  rw [List.getElem?_modify] at hj
  obtain ⟨y, hy, rfl⟩ := Option.map_eq_some_iff.1 hj
  have hmem := List.mem_of_getElem? hy
  split
  · exact hf y hmem (h y hmem)
  · exact h y hmem

theorem RenderUnit.assets_withOutput (path : String) (k : NodeKind τ) :
    (withOutput path k).assets = k.assets := by
  cases k <;> rfl

theorem RenderUnit.isMeasured_withOutput (path : String) (n : Node τ) :
    Node.isMeasured { n with kind := withOutput path n.kind } = n.isMeasured := by
  unfold Node.isMeasured
  cases n.kind <;> rfl

/-- Attaching the file of a composition leaves a timeline settled. -/
theorem Timeline.Settled.attachTo {t : Timeline} (h : t.Settled) (scene node : Nat)
    (path : String) : (RenderUnit.attachTo t scene node path).Settled := by
  have hassets := h.local_assets
  simp only [Timeline.assets, List.forall_mem_append] at hassets
  obtain ⟨haudios, hscenes⟩ := hassets
  have hscene (s : Scene Timeline) (hs : s ∈ t.scenes) :
      ∀ path ∈ s.assets, Asset.isRemote path = false := fun path hpath =>
    hscenes path (List.mem_flatMap.2 ⟨s, hs, hpath⟩)
  constructor
  · simp only [Timeline.assets, List.forall_mem_append, RenderUnit.attachTo]
    refine ⟨haudios, fun path hpath => ?_⟩
    obtain ⟨s, hs, hpath⟩ := List.mem_flatMap.1 hpath
    refine forall_mem_modify (P := fun s => ∀ path ∈ s.assets, Asset.isRemote path = false) hscene
      (fun s hs hlocal => ?_) scene s hs path hpath
    simp only [Scene.assets, List.forall_mem_append] at hlocal ⊢
    refine ⟨hlocal.1, fun path hpath => ?_⟩
    obtain ⟨n, hn, hpath⟩ := List.mem_flatMap.1 hpath
    refine forall_mem_modify
      (P := fun n : Node Timeline => ∀ path ∈ n.kind.assets, Asset.isRemote path = false)
      (fun n hn path hpath => hlocal.2 path (List.mem_flatMap.2 ⟨n, hn, hpath⟩))
      (fun n _ hn => ?_) node n hn path hpath
    rwa [RenderUnit.assets_withOutput]
  · refine forall_mem_modify h.measured (fun s _ hmeasured => ?_) scene
    refine forall_mem_modify hmeasured (fun n _ hn => ?_) node
    exact (RenderUnit.isMeasured_withOutput path n).trans hn

theorem Timeline.Settled.attachAll {t : Timeline} (h : t.Settled) (children : List (Child String)) :
    (RenderUnit.attachAll t children).Settled := by
  induction children generalizing t with
  | nil => exact h
  | cons c rest ih => exact ih (h.attachTo c.scene c.node c.unit)

end Montage
