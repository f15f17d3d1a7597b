import Montage.Proofs.Template.Building
import Montage.Proofs.Timeline.Nesting

/-!
# What a document shows

Each clip of a document becomes a scene and each of its layers a group of nodes, at any depth
(`ShowsClip`).  So nothing is lost or changes places, and what the nodes of a template can be
follows for all that is nested in its timeline (`Timeline.shows_of_loads`).
-/

namespace Montage

/-- The settings are those of the root but for the size. -/
def Settings.Resized (root inner : Settings) : Prop :=
  inner = { root with width := inner.width, height := inner.height }

namespace Template

/-! ## Clips and their scenes -/

/-- How long the compositions among the nodes last, in seconds. -/
def nestedSeconds (nodes : List (Node Timeline)) : List Float :=
  (nodes.filterMap (·.kind.nested?)).map fun t => toSeconds t.scenesMillis

/-- The sum of seconds, from the first one on. -/
def sumSeconds (xs : List Float) : Float := xs.foldl (· + ·) 0.0

/-- The backdrop of a layer, if it asks for one. -/
def LayerHead.IsBackdrop {τ : Type} (l : LayerHead) (behind? : Option (Node τ)) : Prop :=
  behind?.map (·.kind) = l.overlayBackground.map .image

mutual
/-- The scene shows the clip that is read from a value: it has the nodes of the clip's layers, one
layer after another, and lasts as long as its compositions together, or as the clip says if they do
not last. -/
inductive ShowsClip (root : Settings) : Json → Scene Timeline → Prop
  | clip {v : Json} {head : ClipHead} {s : Scene Timeline} {groups : List (List (Node Timeline))}
      (hhead : ClipHead.ofJson? v = some head)
      (hlayers : List.Forall₂ (ShowsLayer root) (layerValues v) groups)
      (hnodes : s.nodes = groups.flatten)
      (hduration : s.duration =
        if sumSeconds (nestedSeconds s.nodes) > 0.0 then sumSeconds (nestedSeconds s.nodes)
        else head.duration) :
    ShowsClip root v s
/-- The nodes show the layer that is read from a value: its backdrop, the blurred copy of a picture
that is fitted that way, and a node of its own, which a composition of no clips has not. -/
inductive ShowsLayer (root : Settings) : Json → List (Node Timeline) → Prop
  | plain {v : Json} {l : LayerHead} {behind? copy? : Option (Node Timeline)} {own : Node Timeline}
      (hl : LayerHead.ofJson? v = some l) (hplain : l.holdsClips = false)
      (hbehind : l.IsBackdrop behind?) (hcopy : l.IsBlurred copy?) (hown : l.Stands own.kind) :
    ShowsLayer root v (behind?.toList ++ copy?.toList ++ [own])
  | empty {v : Json} {l : LayerHead} {behind? : Option (Node Timeline)}
      (hl : LayerHead.ofJson? v = some l) (hholds : l.holdsClips = true)
      (hbehind : l.IsBackdrop behind?) (hclips : innerValues v = []) :
    ShowsLayer root v behind?.toList
  | composition {v : Json} {l : LayerHead} {behind? : Option (Node Timeline)} {own : Node Timeline}
      {inner : Timeline} (hl : LayerHead.ofJson? v = some l) (hholds : l.holdsClips = true)
      (hbehind : l.IsBackdrop behind?) (hclips : innerValues v ≠ [])
      (hown : own.kind = .composition inner none) (hsettings : root.Resized inner.settings)
      (hscenes : List.Forall₂ (ShowsClip root) (innerValues v) inner.scenes)
      (haudios : inner.audios = []) :
    ShowsLayer root v (behind?.toList ++ [own])
end

/-! ## Building shows -/

/-- Steps that add what is nested in a node, if anything is, add up what is nested. -/
theorem foldl_nested {step : Float → Node Timeline → Float}
    (hstep : ∀ sum n, step sum n =
      n.kind.nested?.elim sum fun t => sum + toSeconds t.scenesMillis)
    (nodes : List (Node Timeline)) (sum : Float) :
    nodes.foldl step sum = (nestedSeconds nodes).foldl (· + ·) sum := by
  induction nodes generalizing sum with
  | nil => rfl
  | cons n nodes ih =>
    rw [List.foldl_cons, ih, hstep, nestedSeconds, nestedSeconds, List.filterMap_cons]
    cases n.kind.nested? <;> rfl

theorem composedDuration_eq (nodes : List (Node Timeline)) :
    composedDuration nodes = sumSeconds (nestedSeconds nodes) := by
  refine foldl_nested (fun sum n => ?_) nodes 0.0
  cases n.kind <;> rfl

theorem exists_isBackdrop {τ : Type} (l : LayerHead) (stage : StageSize Float) :
    ∃ behind? : Option (Node τ), l.IsBackdrop behind? ∧ l.backdrops stage = behind?.toList := by
  rw [LayerHead.backdrops]
  cases hpath : l.overlayBackground with
  | none => exact ⟨none, by rw [LayerHead.IsBackdrop, hpath]; rfl, rfl⟩
  | some path =>
    exact ⟨some (backdrop path (l.frame stage) stage), by rw [LayerHead.IsBackdrop, hpath]; rfl,
      rfl⟩

theorem resized_innerSettings {root settings : Settings} (h : root.Resized settings)
    (l : LayerHead) : root.Resized (l.innerSettings settings) := by
  rw [Settings.Resized] at h ⊢
  rw [LayerHead.innerSettings, h]

mutual
theorem showsClip_of_buildClip {root settings : Settings} {volume : Option Float} {v : Json}
    {s : Scene Timeline} (hroot : root.Resized settings)
    (h : buildClip settings volume v = .ok s) : ShowsClip root v s := by
  rw [buildClip_eq] at h
  cases hhead : ClipHead.ofJson? v with
  | none =>
    rw [hhead] at h
    cases h
  | some head =>
    rw [hhead] at h
    obtain ⟨groups, hgroups, rfl⟩ := exists_of_map_eq_ok h
    refine .clip hhead (forall₂_of_mapM hgroups fun w hw nodes hnodes => ?_) rfl ?_
    · have hdepth : w.depth < v.depth := depth_lt_of_mem_layerValues hw
      exact showsLayer_of_buildLayer hroot hnodes
    · simp only [sceneOf, composedDuration_eq]
termination_by v.depth
theorem showsLayer_of_buildLayer {root settings : Settings} {sceneDuration : Float} {v : Json}
    {nodes : List (Node Timeline)} (hroot : root.Resized settings)
    (h : buildLayer settings sceneDuration v = .ok nodes) : ShowsLayer root v nodes := by
  cases hl : LayerHead.ofJson? v with
  | none =>
    rw [buildLayer_of_unreadable hl] at h
    cases h
  | some l =>
    obtain ⟨behind?, hbehind, hbackdrops⟩ :
        ∃ behind? : Option (Node Timeline), l.IsBackdrop behind? ∧
          l.backdrops (stageOf settings) = behind?.toList :=
      exists_isBackdrop l (stageOf settings)
    have hbuilds := builds_layer hl settings sceneDuration
    generalize buildLayer settings sceneDuration v = build at h hbuilds
    cases hbuilds with
    | faulty hfault => cases h
    | plain hfault hplain hblurred hown =>
      cases h
      rw [hbackdrops]
      exact .plain hl hplain hbehind hblurred hown
    | empty hfault hholds hempty =>
      cases h
      rw [hbackdrops]
      exact .empty hl hholds hbehind hempty
    | composition hfault hholds hne =>
      obtain ⟨scenes, hscenes, rfl⟩ := exists_of_map_eq_ok h
      have hinner := resized_innerSettings hroot l
      rw [hbackdrops]
      refine .composition hl hholds hbehind hne rfl hinner ?_ rfl
      refine forall₂_of_mapM hscenes fun w hw s hs => ?_
      have hdepth : w.depth < v.depth := depth_lt_of_mem_innerValues hw
      exact showsClip_of_buildClip hinner hs
termination_by v.depth
end

/-! ## What nodes can be -/

/-- The node holds no subtitles, and a composition in it is not rendered yet, has scenes and no
tracks of its own, and has the settings of the root but for the size. -/
structure AsLoaded (root : Settings) (n : Node Timeline) : Prop where
  subtitle : ∀ path style vertical, n.kind ≠ .subtitle path style vertical
  composition : ∀ inner output, n.kind = .composition inner output →
    output = none ∧ inner.scenes ≠ [] ∧ inner.audios = [] ∧ root.Resized inner.settings

/-- Each scene of the timeline shows some clip. -/
def ShowsClips (root : Settings) (t : Timeline) : Prop :=
  ∃ vs, List.Forall₂ (ShowsClip root) vs t.scenes

/-- A node is as loaded, and a composition in it shows clips again. -/
def AsShown (root : Settings) (n : Node Timeline) : Prop :=
  AsLoaded root n ∧ ∀ inner, n.kind.nested? = some inner → ShowsClips root inner

section

variable {root : Settings} {l : LayerHead} {n : Node Timeline}

theorem asShown_of_image {path : String} (h : n.kind = .image path) : AsShown root n := by
  refine ⟨⟨fun _ _ _ hkind => ?_, fun _ _ hkind => ?_⟩, fun inner hinner => ?_⟩
  · rw [h] at hkind
    cases hkind
  · rw [h] at hkind
    cases hkind
  · rw [h] at hinner
    cases hinner

theorem asShown_of_stands (h : l.Stands n.kind) : AsShown root n := by
  generalize hkind : n.kind = kind at h
  refine ⟨⟨fun _ _ _ hsubtitle => ?_, fun _ _ hcomposition => ?_⟩, fun inner hinner => ?_⟩
  · rw [← hkind, hsubtitle] at h
    cases h
  · rw [← hkind, hcomposition] at h
    cases h
  · rw [hkind] at hinner
    cases h <;> cases hinner

theorem asShown_of_isBackdrop {behind? : Option (Node Timeline)} (h : l.IsBackdrop behind?)
    (hn : n ∈ behind?.toList) : AsShown root n := by
  obtain rfl := Option.mem_toList.1 hn
  obtain ⟨path, -, hpath⟩ := Option.map_eq_some_iff.1 h.symm
  exact asShown_of_image hpath.symm

theorem asShown_of_isBlurred {copy? : Option (Node Timeline)} (h : l.IsBlurred copy?)
    (hn : n ∈ copy?.toList) : AsShown root n := by
  obtain rfl := Option.mem_toList.1 hn
  obtain ⟨-, -, ⟨path, -, hpath⟩, -⟩ := h
  exact asShown_of_image hpath

theorem ShowsLayer.asShown {v : Json} {nodes : List (Node Timeline)} (h : ShowsLayer root v nodes)
    (hn : n ∈ nodes) : AsShown root n := by
  cases h with
  | plain hl hplain hbehind hcopy hown =>
    rw [List.mem_append, List.mem_append, List.mem_singleton] at hn
    obtain (hn | hn) | rfl := hn
    · exact asShown_of_isBackdrop hbehind hn
    · exact asShown_of_isBlurred hcopy hn
    · exact asShown_of_stands hown
  | empty hl hholds hbehind hclips => exact asShown_of_isBackdrop hbehind hn
  | @composition _ _ _ _ inner hl hholds hbehind hclips hown hsettings hscenes haudios =>
    rw [List.mem_append, List.mem_singleton] at hn
    obtain hn | rfl := hn
    · exact asShown_of_isBackdrop hbehind hn
    · have hne : inner.scenes ≠ [] := fun hnil =>
        hclips (List.forall₂_nil_right_iff.1 (hnil ▸ hscenes))
      refine ⟨⟨fun _ _ _ hkind => ?_, fun _ _ hkind => ?_⟩, fun inner hinner => ?_⟩
      · rw [hown] at hkind
        cases hkind
      · rw [hown] at hkind
        cases hkind
        exact ⟨rfl, hne, haudios, hsettings⟩
      · rw [hown] at hinner
        cases hinner
        exact ⟨_, hscenes⟩

theorem ShowsClip.asShown {v : Json} {s : Scene Timeline} (h : ShowsClip root v s)
    (hn : n ∈ s.nodes) : AsShown root n := by
  obtain ⟨-, hlayers, hnodes, -⟩ := h
  rw [hnodes, List.mem_flatten] at hn
  obtain ⟨nodes, hgroup, hn⟩ := hn
  obtain ⟨w, hlayer⟩ := exists_of_mem_of_forall₂ hlayers.flip hgroup
  exact hlayer.asShown hn

theorem ShowsClips.asShown {t : Timeline} (h : ShowsClips root t) {s : Scene Timeline}
    (hs : s ∈ t.scenes) (hn : n ∈ s.nodes) : AsShown root n := by
  obtain ⟨vs, hscenes⟩ := h
  obtain ⟨w, hclip⟩ := exists_of_mem_of_forall₂ hscenes.flip hs
  exact hclip.asShown hn

/-- What is nested in a timeline that shows clips shows clips again. -/
theorem ShowsClips.at? {t inner : Timeline} {address : List Slot} (h : ShowsClips root t)
    (hat : t.at? address = some inner) : ShowsClips root inner := by
  induction address generalizing t with
  | nil =>
    cases hat
    exact h
  | cons slot rest ih =>
    obtain ⟨first, hfirst, hat⟩ := Option.bind_eq_some_iff.1 hat
    obtain ⟨s, hs, hnode⟩ := Option.bind_eq_some_iff.1 hfirst
    obtain ⟨n, hn, hnested⟩ := Option.bind_eq_some_iff.1 hnode
    exact ih ((h.asShown (List.mem_of_getElem? hs) (List.mem_of_getElem? hn)).2 first hnested) hat

end

/-! ## Documents -/

/-- The timeline was loaded from a document, from its value or from its text. -/
def Loads (v : Json) (t : Timeline) : Prop :=
  Timeline.ofTemplate v = .ok t ∨
    ∃ s, guide.readWhole s = .ok v ∧ Timeline.ofTemplateText s = .ok t

theorem Loads.ofTemplate_eq {v : Json} {t : Timeline} (h : Loads v t) :
    Timeline.ofTemplate v = .ok t := by
  obtain h | ⟨s, hread, h⟩ := h
  · exact h
  · rwa [Timeline.ofTemplateText, hread] at h

end Template

namespace Timeline

open Template

theorem showsClip_of_ofTemplate {v : Json} {t : Timeline} (h : ofTemplate v = .ok t) :
    List.Forall₂ (ShowsClip t.settings) (clipValues v) t.scenes := by
  rw [ofTemplate_eq] at h
  cases hhead : Head.ofJson? v with
  | none =>
    rw [hhead] at h
    cases h
  | some head =>
    rw [hhead] at h
    obtain ⟨scenes, hscenes, rfl⟩ := exists_of_map_eq_ok h
    have hroot : head.settings.Resized head.settings := rfl
    exact forall₂_of_mapM hscenes fun w _ s hs => showsClip_of_buildClip hroot hs

/-- A document that is loaded has a scene for each clip, which shows it, and the nodes at any depth
of its timeline are as loaded. -/
theorem shows_of_loads {v : Json} {t : Timeline} (h : Loads v t) :
    t.scenes.length = (v.items 3 "clips").length ∧
      List.Forall₂ (ShowsClip t.settings) (clipValues v) t.scenes ∧
      ∀ address inner, t.at? address = some inner →
        ∀ s ∈ inner.scenes, ∀ n ∈ s.nodes, AsLoaded t.settings n := by
  have hclips := showsClip_of_ofTemplate h.ofTemplate_eq
  refine ⟨?_, hclips, fun address inner hat s hs n hn => ?_⟩
  · rw [← hclips.length_eq, clipValues, List.length_map]
  · have hinner : ShowsClips t.settings inner := ShowsClips.at? ⟨_, hclips⟩ hat
    exact (hinner.asShown hs hn).1

/-- A template with a picture on a backdrop, a composition without clips and one with a clip. -/
def panelTemplate : Json :=
  .obj [("clips", .arr [.obj [("duration", .int 1), ("layers", .arr [
      .obj [("overlayBackground", .str "back.png"), ("path", .str "a.png"),
        ("resizeMode", .str "contain-blur"), ("type", .str "image")],
      .obj [("type", .str "composition")],
      .obj [("clips", .arr [.obj [("duration", .int 2)]]), ("type", .str "composition")]])]]),
    ("height", .int 720), ("width", .int 1280)]

/-- The composition is the fourth node, behind the three of the picture. -/
theorem shows_of_loads_panelTemplate :
    ∃ t, Loads panelTemplate t ∧ t.scenes.length = 1 ∧
      (compositions t.scenes).map Child.slot = [(0, 3)] ∧
      List.Forall₂ (ShowsClip t.settings) (clipValues panelTemplate) t.scenes ∧
      ∀ s ∈ t.scenes, ∀ n ∈ s.nodes, AsLoaded t.settings n := by
  have hcomputed : (ofTemplate panelTemplate).toOption.map (fun t =>
      (compositions t.scenes).map Child.slot) = some [(0, 3)] := by decide +kernel
  rcases hload : ofTemplate panelTemplate with e | t <;> rw [hload] at hcomputed
  · cases hcomputed
  · obtain ⟨hlength, hclips, hnodes⟩ := shows_of_loads (Or.inl hload)
    exact ⟨t, Or.inl hload, hlength, Option.some.inj hcomputed, hclips, hnodes [] t rfl⟩

end Timeline

end Montage
