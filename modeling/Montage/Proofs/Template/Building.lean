import Mathlib.Data.List.Forall2
import Montage.Template.Build

/-!
# How a document is built

The clips and the layers of a document are values, read with the defaults merged under them
(`clipValues`, `layerValues`), and those inside a composition are read as they stand
(`innerValues`).  A clip builds its layers one after another and a composition its clips, up to the
first error (`buildClip_eq`, `builds_layer`).
-/

namespace Montage

/-! ## Lists of steps that may fail -/

section

variable {α β ε : Type} {f : α → Except ε β}

theorem mapM_cons_eq (x : α) (xs : List α) :
    (x :: xs).mapM f = match f x with
      | .error e => .error e
      | .ok y => match xs.mapM f with
        | .error e => .error e
        | .ok ys => .ok (y :: ys) := by
  rw [List.mapM_cons]
  rcases f x with e | y
  · rfl
  · rcases xs.mapM f with e | ys <;> rfl

theorem exists_of_mem_of_forall₂ {R : α → β → Prop} {xs : List α} {ys : List β}
    (h : List.Forall₂ R xs ys) {x : α} (hx : x ∈ xs) : ∃ y, R x y := by
  induction h with
  | nil => cases hx
  | cons hfirst _ ih =>
    obtain rfl | hx := List.mem_cons.1 hx
    · exact ⟨_, hfirst⟩
    · exact ih hx

theorem forall₂_of_mapM_eq_ok {xs : List α} {ys : List β} (h : xs.mapM f = .ok ys) :
    List.Forall₂ (fun x y => f x = .ok y) xs ys := by
  induction xs generalizing ys with
  | nil =>
    cases h
    exact .nil
  | cons x xs ih =>
    rw [mapM_cons_eq] at h
    split at h
    · cases h
    · next hx =>
      split at h
      · cases h
      · next hxs =>
        cases h
        exact .cons hx (ih hxs)

/-- What each step makes of an item is told item by item. -/
theorem forall₂_of_mapM {R : α → β → Prop} {xs : List α} {ys : List β} (h : xs.mapM f = .ok ys)
    (hR : ∀ x ∈ xs, ∀ y, f x = .ok y → R x y) : List.Forall₂ R xs ys :=
  ((List.forall₂_and_left xs ys).2 ⟨fun _ hx => hx, forall₂_of_mapM_eq_ok h⟩).imp
    fun x y hxy => hR x hxy.1 y hxy.2

theorem exists_of_mem_of_mapM {xs : List α} {ys : List β} (h : xs.mapM f = .ok ys) {x : α}
    (hx : x ∈ xs) : ∃ y, f x = .ok y :=
  exists_of_mem_of_forall₂ (forall₂_of_mapM_eq_ok h) hx

theorem exists_of_map_eq_ok {γ : Type} {a : Except ε α} {g : α → γ} {c : γ}
    (h : a.map g = .ok c) : ∃ x, a = .ok x ∧ g x = c := by
  cases a with
  | error e => cases h
  | ok x => exact ⟨x, rfl, Except.ok.inj h⟩

/-- The error is that of the first step that fails. -/
theorem exists_of_mapM_eq_error {xs : List α} {e : ε} (h : xs.mapM f = .error e) :
    ∃ (i : Nat) (x : α), xs[i]? = some x ∧ f x = .error e ∧
      ∀ j < i, ∀ y, xs[j]? = some y → ∃ z, f y = .ok z := by
  induction xs with
  | nil => cases h
  | cons x xs ih =>
    rw [mapM_cons_eq] at h
    split at h
    · next hx =>
      cases h
      exact ⟨0, x, rfl, hx, fun j hj => absurd hj (Nat.not_lt_zero j)⟩
    · next y hx =>
      split at h
      · next hxs =>
        cases h
        obtain ⟨i, x', hx', herror, hbefore⟩ := ih hxs
        refine ⟨i + 1, x', hx', herror, fun j hj z hz => ?_⟩
        cases j with
        | zero =>
          cases hz
          exact ⟨y, hx⟩
        | succ j => exact hbefore j (Nat.lt_of_succ_lt_succ hj) z hz
      · cases h

end

namespace Template

/-! ## The values of a document -/

/-- The clips of a document, with its defaults under them. -/
def clipValues (v : Json) : List Json :=
  (v.items 3 "clips").map (Json.merge ((v.field 14 "default").getD .null))

/-- The layers of a clip, with its defaults for layers under them. -/
def layerValues (v : Json) : List Json :=
  (v.items layersPlace "layers").map (Json.merge (layerDefaults v))

/-- The clips inside a layer. -/
def innerValues (v : Json) : List Json := v.items 0 "clips"

theorem depth_lt_of_mem_layerValues {v w : Json} (h : w ∈ layerValues v) : w.depth < v.depth := by
  obtain ⟨u, hu, rfl⟩ := List.mem_map.1 h
  exact depth_merge_layerDefaults_lt hu

theorem depth_lt_of_mem_innerValues {v w : Json} (h : w ∈ innerValues v) : w.depth < v.depth :=
  Json.depth_lt_of_mem_items h

theorem ofJson_clip_eq (v : Json) :
    Clip.ofJson v = match ClipHead.ofJson? v with
      | none => .unreadable
      | some head => .clip head ((layerValues v).map Layer.ofJson) := by
  rw [Clip.ofJson]
  cases ClipHead.ofJson? v with
  | none => rfl
  | some head =>
    have hlayers := @List.attach_map_val _ _ (v.items layersPlace "layers") fun w =>
      Layer.ofJson (Json.merge (layerDefaults v) w)
    rw [layerValues, List.map_map]
    exact congrArg (Clip.clip head) hlayers

theorem ofJson_layer_eq (v : Json) :
    Layer.ofJson v = match LayerHead.ofJson? v with
      | none => .unreadable
      | some l => .layer l ((innerValues v).map Clip.ofJson) := by
  rw [Layer.ofJson]
  cases LayerHead.ofJson? v with
  | none => rfl
  | some l => exact congrArg (Layer.layer l) List.attach_map_val

theorem ofJson?_document_eq (v : Json) :
    Document.ofJson? v =
      (Head.ofJson? v).map fun head => ⟨head, (clipValues v).map Clip.ofJson⟩ := by
  rw [Document.ofJson?]
  simp only [clipValues, List.map_map]
  rfl

/-! ## Building -/

/-- The scene of a clip that is read from a value. -/
def buildClip (settings : Settings) (volume : Option Float) (v : Json) :
    Except CompileError (Scene Timeline) :=
  (Clip.ofJson v).build settings volume

/-- The nodes of a layer that is read from a value. -/
def buildLayer (settings : Settings) (sceneDuration : Float) (v : Json) :
    Except CompileError (List (Node Timeline)) :=
  (Layer.ofJson v).build settings sceneDuration

theorem buildAll_map_clip (settings : Settings) (volume : Option Float) (vs : List Json) :
    Clip.buildAll settings volume (vs.map Clip.ofJson) = vs.mapM (buildClip settings volume) := by
  induction vs with
  | nil =>
    rw [List.map_nil, Clip.buildAll]
    rfl
  | cons v vs ih =>
    rw [List.map_cons, Clip.buildAll, ih, mapM_cons_eq, ← buildClip]
    rcases buildClip settings volume v with e | scene
    · rfl
    · rcases vs.mapM (buildClip settings volume) with e | scenes <;> rfl

theorem buildAll_map_layer (settings : Settings) (sceneDuration : Float) (vs : List Json) :
    Layer.buildAll settings sceneDuration (vs.map Layer.ofJson) =
      (vs.mapM (buildLayer settings sceneDuration)).map List.flatten := by
  induction vs with
  | nil =>
    rw [List.map_nil, Layer.buildAll]
    rfl
  | cons v vs ih =>
    rw [List.map_cons, Layer.buildAll, ih, mapM_cons_eq, ← buildLayer]
    rcases buildLayer settings sceneDuration v with e | nodes
    · rfl
    · rcases vs.mapM (buildLayer settings sceneDuration) with e | groups <;> rfl

theorem buildClip_eq (settings : Settings) (volume : Option Float) (v : Json) :
    buildClip settings volume v = match ClipHead.ofJson? v with
      | none => .error .template
      | some head =>
        ((layerValues v).mapM (buildLayer settings head.duration)).map fun groups =>
          sceneOf head groups.flatten settings volume := by
  rw [buildClip, ofJson_clip_eq]
  cases ClipHead.ofJson? v with
  | none => rw [Clip.build]
  | some head =>
    dsimp only
    rw [Clip.build, buildAll_map_layer]
    rcases (layerValues v).mapM (buildLayer settings head.duration) with e | groups <;> rfl

/-! ## Layers -/

namespace LayerHead

variable (l : LayerHead)

/-- The layer shows or plays a file. -/
def needsPath : Bool := l.kind == "image" || l.kind == "video" || l.kind == "audio"

/-- The layer is a composition of the clips inside it. -/
def holdsClips : Bool := l.kind == "composition" || l.kind == "slide-panel"

/-- What is wrong with the layer itself: a file that it does not name, or a type that is none. -/
def fault? : Option CompileError :=
  if l.needsPath then
    if l.path.isNone then some (.missingAsset (l.kind ++ " layer without a path")) else none
  else if l.kind == "text" || l.holdsClips then none
  else some (.unsupportedKind l.kind)

/-- The blurred copy of a picture that is fitted that way; other layers have none. -/
def IsBlurred {τ : Type} (copy? : Option (Node τ)) : Prop :=
  match copy? with
  | some copy => l.kind = "image" ∧ l.fit = some .containBlur ∧
      (∃ path, l.path = some path ∧ copy.kind = .image path) ∧
      copy.opacity = some 0.5 ∧ copy.preFilters.getLast? = some "boxblur=25:25"
  | none => ¬ (l.kind = "image" ∧ l.fit = some .containBlur)

/-- What stands on the stage for a layer that is no composition. -/
inductive Stands {τ : Type} (l : LayerHead) : NodeKind τ → Prop
  | image {path : String} (hkind : l.kind = "image") (hpath : l.path = some path) :
    Stands l (.image path)
  | video {path : String} (hkind : l.kind = "video") (hpath : l.path = some path) :
    Stands l (.video path l.cutFrom l.cutTo l.silent)
  | text (hkind : l.kind = "text") :
    Stands l (.text (l.text.getD "") { l.style with fontFile := l.fontPath })
  | audio {path : String} (hkind : l.kind = "audio") (hpath : l.path = some path) :
    Stands l (.audio (l.track path))

/-- What a layer with the given clips inside builds. -/
inductive Builds (l : LayerHead) (settings : Settings) (clips : List Json) :
    Except CompileError (List (Node Timeline)) → Prop
  | faulty {e : CompileError} (hfault : l.fault? = some e) : Builds l settings clips (.error e)
  | plain (hfault : l.fault? = none) (hplain : l.holdsClips = false)
      {copy? : Option (Node Timeline)} (hblurred : l.IsBlurred copy?) {own : Node Timeline}
      (hown : l.Stands own.kind) :
    Builds l settings clips (.ok (l.backdrops (stageOf settings) ++ copy?.toList ++ [own]))
  | empty (hfault : l.fault? = none) (hholds : l.holdsClips = true) (hempty : clips = []) :
    Builds l settings clips (.ok (l.backdrops (stageOf settings)))
  | composition (hfault : l.fault? = none) (hholds : l.holdsClips = true) (hne : clips ≠ []) :
    Builds l settings clips
      ((clips.mapM (buildClip (l.innerSettings settings) none)).map fun scenes =>
        l.backdrops (stageOf settings) ++
          [l.compositionNode { settings := l.innerSettings settings, scenes } (stageOf settings)])

end LayerHead

theorem LayerKind.ofName?_cases (s : String) :
    s = "image" ∧ ofName? s = some .image ∨ s = "video" ∧ ofName? s = some .video ∨
      s = "text" ∧ ofName? s = some .text ∨ s = "audio" ∧ ofName? s = some .audio ∨
      (s = "composition" ∨ s = "slide-panel") ∧ ofName? s = some .composition ∨
      s ∉ ["image", "video", "text", "audio", "composition", "slide-panel"] ∧
        ofName? s = none := by
  unfold ofName?
  split <;> simp_all

theorem isBlurred_blurredCopy {τ : Type} {l : LayerHead} {path : String} (hkind : l.kind = "image")
    (hpath : l.path = some path) (frame : Rect) :
    ∃ copy? : Option (Node τ), l.IsBlurred copy? ∧
      blurredCopy path l.fit frame = copy?.toList := by
  rw [blurredCopy]
  by_cases hfit : l.fit = some .containBlur
  · rw [hfit, if_pos (beq_self_eq_true _)]
    refine ⟨some _, ⟨hkind, hfit, ⟨path, hpath, rfl⟩, rfl, ?_⟩, rfl⟩
    exact List.getLast?_concat
  · rw [if_neg fun h => hfit (eq_of_beq h)]
    exact ⟨none, fun h => hfit h.2, rfl⟩

theorem LayerHead.fault?_of_needsPath {l : LayerHead} (h : l.needsPath = true) :
    l.fault? = match l.path with
      | some _ => none
      | none => some (.missingAsset (l.kind ++ " layer without a path")) := by
  rw [fault?, if_pos h]
  cases l.path <;> rfl

/-- A layer that needs a path builds nothing without one. -/
theorem LayerHead.builds_of_needsPath {l : LayerHead} {settings : Settings} {clips : List Json}
    {build : String → List (Node Timeline)} (h : l.needsPath = true)
    (hbuild : ∀ path, l.path = some path → l.fault? = none →
      l.Builds settings clips (.ok (build path))) :
    l.Builds settings clips (l.requirePath.map build) := by
  have hfault := fault?_of_needsPath h
  rw [requirePath]
  cases hpath : l.path with
  | none =>
    rw [hpath] at hfault
    exact .faulty hfault
  | some path =>
    rw [hpath] at hfault
    exact hbuild path hpath hfault

/-- A layer that is neither a picture nor a composition adds one node to its backdrop. -/
theorem LayerHead.Builds.single {l : LayerHead} {settings : Settings} {clips : List Json}
    {own : Node Timeline} (hfault : l.fault? = none) (hplain : l.holdsClips = false)
    (hkind : l.kind ≠ "image") (hown : l.Stands own.kind) :
    l.Builds settings clips (.ok (l.backdrops (stageOf settings) ++ [own])) := by
  have hblurred : l.IsBlurred (none : Option (Node Timeline)) := fun h => hkind h.1
  have hbuilds : l.Builds settings clips _ := .plain hfault hplain hblurred hown
  rwa [Option.toList_none, List.append_nil] at hbuilds

/-- A layer that can be read builds as its kind says. -/
theorem builds_layer {v : Json} {l : LayerHead} (h : LayerHead.ofJson? v = some l)
    (settings : Settings) (sceneDuration : Float) :
    l.Builds settings (innerValues v) (buildLayer settings sceneDuration v) := by
  rw [buildLayer, ofJson_layer_eq, h]
  dsimp only
  rw [Layer.build]
  obtain ⟨hkind, hname⟩ | ⟨hkind, hname⟩ | ⟨hkind, hname⟩ | ⟨hkind, hname⟩ | ⟨hkind, hname⟩ |
    ⟨hkind, hname⟩ := LayerKind.ofName?_cases l.kind <;> simp only [hname]
  · -- A picture.
    refine LayerHead.builds_of_needsPath (by simp [LayerHead.needsPath, hkind]) ?_
    intro path hpath hfault
    obtain ⟨copy?, hblurred, hcopy⟩ := isBlurred_blurredCopy hkind hpath
      (pictureFrame l.fit (l.frame (stageOf settings)) (stageOf settings))
    rw [LayerHead.imageNodes, hcopy, ← List.append_assoc]
    exact .plain hfault (by simp [LayerHead.holdsClips, hkind]) hblurred (.image hkind hpath)
  · -- A clip.
    refine LayerHead.builds_of_needsPath (by simp [LayerHead.needsPath, hkind]) ?_
    intro path hpath hfault
    exact .single hfault (by simp [LayerHead.holdsClips, hkind]) (by simp [hkind])
      (.video hkind hpath)
  · -- A text.
    exact .single (by simp [LayerHead.fault?, LayerHead.needsPath, hkind])
      (by simp [LayerHead.holdsClips, hkind]) (by simp [hkind]) (.text hkind)
  · -- A sound.
    refine LayerHead.builds_of_needsPath (by simp [LayerHead.needsPath, hkind]) ?_
    intro path hpath hfault
    exact .single hfault (by simp [LayerHead.holdsClips, hkind]) (by simp [hkind])
      (.audio hkind hpath)
  · -- A composition.
    have hholds : l.holdsClips = true := by simpa [LayerHead.holdsClips] using hkind
    have hfault : l.fault? = none := by
      obtain hkind | hkind := hkind <;>
        simp [LayerHead.fault?, LayerHead.needsPath, LayerHead.holdsClips, hkind]
    by_cases hempty : innerValues v = []
    · rw [hempty]
      exact .empty hfault hholds rfl
    · rw [if_neg (by simpa using hempty), buildAll_map_clip]
      have hbuilds : l.Builds settings (innerValues v) _ := .composition hfault hholds hempty
      cases hscenes : (innerValues v).mapM (buildClip (l.innerSettings settings) none) with
      | error e => rwa [hscenes] at hbuilds
      | ok scenes => rwa [hscenes] at hbuilds
  · -- No kind of layer.
    refine .faulty ?_
    simp only [List.mem_cons, List.not_mem_nil, or_false, not_or] at hkind
    simp [LayerHead.fault?, LayerHead.needsPath, LayerHead.holdsClips, hkind]

theorem buildLayer_of_unreadable {v : Json} (h : LayerHead.ofJson? v = none) (settings : Settings)
    (sceneDuration : Float) : buildLayer settings sceneDuration v = .error .template := by
  rw [buildLayer, ofJson_layer_eq, h, Layer.build]

end Template

theorem Timeline.ofTemplate_eq (v : Json) :
    ofTemplate v = match Template.Head.ofJson? v with
      | none => .error .template
      | some head =>
        ((Template.clipValues v).mapM
          (Template.buildClip head.settings (some (head.clipsAudioVolume / 100.0)))).map
            fun scenes => { settings := head.settings, scenes, audios := head.music } := by
  rw [ofTemplate, Template.ofJson?_document_eq]
  cases Template.Head.ofJson? v with
  | none => rfl
  | some head =>
    rw [Option.map_some]
    dsimp only
    rw [Template.Document.build, Template.buildAll_map_clip]
    rcases (Template.clipValues v).mapM _ with e | scenes <;> rfl

end Montage
