import Montage.Proofs.Scene.Drawing
import Montage.Proofs.Scene.Touches
import Montage.Timeline.Assets

/-!
# What scenes refer to

The program of a scene refers to files in two ways: as sources of its inputs, and in the filters of
its steps.  `Scene.inputs` and `Scene.operations` list both for a scene as it stands, and its
program has just these (`Scene.does_of_compile`).  An operation refers to files if it draws a text
or burns subtitles in; a filter that only shapes a picture has another name
(`Scene.honest_of_mem_operations`), and what a node brings along for filters of its own is its own
affair.
-/

namespace Montage

open Montage.Graph

/-! ## Operations -/

/-- What a step does, as far as files are concerned. -/
inductive Operation where
  /-- A filter that names no file. -/
  | shape (filter : String)
  /-- A filter that a node brings along. -/
  | custom (filter : String)
  | draw (words : String) (style : TextStyle) (alpha : Option Interpolation)
    (opacity : Option Float)
  | burn (path : String) (style : TextStyle) (frame : Rect) (vertical : Bool)
    (stageW stageH : UInt32)

namespace Operation

/-- The filter of the step. -/
def filter : Operation → String
  | shape filter | custom filter => filter
  | draw words style alpha opacity => Drawtext.filter words style alpha opacity
  | burn path style frame vertical stageW stageH =>
    Subtitle.filter path style frame vertical stageW stageH

/-- The font that the directory of fonts is taken from, if there is such a directory. -/
def dirFont? (style : TextStyle) : Option String :=
  if (Subtitle.fontDir? style).isSome then style.fontFile else none

/-- The files that the step refers to: the font of a text, or a file of subtitles and their font. -/
def files : Operation → List String
  | shape _ | custom _ => []
  | draw _ style _ _ => style.fontFile.toList
  | burn path style .. => path :: (dirFont? style).toList

/-- What is said to shape a picture names no file, and what is said to be a node's own is. -/
def Honest {τ : Type} (nodes : List (Node τ)) : Operation → Prop
  | shape filter => Filter.namesFiles filter = false
  | custom filter => ∃ n ∈ nodes, filter ∈ n.preFilters ++ n.filters
  | draw .. | burn .. => True

@[simp] theorem map_filter_shape (filters : List String) :
    (filters.map shape).map filter = filters := by
  simp [filter, Function.comp_def]

@[simp] theorem map_filter_custom (filters : List String) :
    (filters.map custom).map filter = filters := by
  simp [filter, Function.comp_def]

end Operation

/-- The steps of the program do these operations, in order. -/
def Program.Does (p : Program) (operations : List Operation) : Prop :=
  p.graph.steps.map (·.filter) = operations.map Operation.filter

/-! ## Compositing -/

namespace Composite

theorem namesFiles_overlay {τ : Type} (n : Node τ) (r : Resolved) (duration : Float) :
    Filter.namesFiles (overlay n r duration) = false := by
  have hoverlay : Filter.Fileless "overlay=x=" := by decide
  exact (hoverlay.appendAll [_, _, _, _, _, _, _, _]).2

/-- How a picture gets its size: by filters that the node brings along, or as its frame says. -/
def sizeOperations {τ : Type} (n : Node τ) (isText : Bool) : List Operation :=
  if n.preFilters = [] then (sizeFilters n isText).map .shape else n.preFilters.map .custom

theorem map_filter_sizeOperations {τ : Type} (n : Node τ) (isText : Bool) :
    (sizeOperations n isText).map Operation.filter = sizeFilters n isText := by
  rw [sizeOperations]
  split
  · rw [Operation.map_filter_shape]
  · next hne => rw [Operation.map_filter_custom, sizeFilters, if_neg (by simp [hne])]

theorem honest_of_mem_sizeOperations {τ : Type} {nodes : List (Node τ)} {n : Node τ}
    (hn : n ∈ nodes) (isText : Bool) : ∀ op ∈ sizeOperations n isText, op.Honest nodes := by
  rw [sizeOperations]
  split
  · next hnone =>
    refine List.forall_mem_map.2 fun filter hfilter => ?_
    rw [sizeFilters, hnone] at hfilter
    split at hfilter
    · have hscale : Filter.Fileless "scale=" := by decide
      rw [List.mem_singleton.1 hfilter]
      exact (hscale.appendAll [_, _, _]).2
    · cases hfilter
  · exact List.forall_mem_map.2 fun filter hfilter => ⟨n, hn, List.mem_append_left _ hfilter⟩

end Composite

/-! ## Nodes -/

theorem Graph.map_filter_applyAll (g : Graph) (ctx : Context) (filters : List String)
    (tag : String) :
    (g.applyAll ctx filters tag).2.steps.map (·.filter) = g.steps.map (·.filter) ++ filters := by
  induction filters generalizing g ctx with
  | nil => exact (List.append_nil _).symm
  | cons filter rest ih =>
    have hfirst : (g.apply ctx filter tag).2.steps.map (·.filter) =
        g.steps.map (·.filter) ++ [filter] := List.map_append
    rw [applyAll, ih, hfirst, List.append_assoc]
    rfl

namespace Program

variable {p : Program} {done : List Operation}

theorem Does.applyAll (h : p.Does done) (ctx : Context) (operations : List Operation)
    {filters : List String} (hfilters : operations.map Operation.filter = filters) (tag : String) :
    (p.applyAll ctx filters tag).2.Does (done ++ operations) := by
  have hsteps := p.graph.map_filter_applyAll ctx filters tag
  rw [Does] at h
  rw [h, ← hfilters, ← List.map_append] at hsteps
  rw [← hfilters]
  exact hsteps

theorem Does.combine (h : p.Does done) (ctxs : List Context) (op : Operation) (tag : String) :
    (p.combine ctxs op.filter tag).2.Does (done ++ [op]) := by
  have hsteps : (p.combine ctxs op.filter tag).2.graph.steps.map (·.filter) =
      p.graph.steps.map (·.filter) ++ [op.filter] := List.map_append
  rw [Does, hsteps, h, List.map_append]
  rfl

theorem Does.addInput (h : p.Does done) (input : Input) : (p.addInput input).2.Does done := h

end Program

namespace Stage

variable {τ : Type}

/-- What is done to lay a picture over the scene. -/
def layOperations (s : Stage) (n : Node τ) (isText : Bool) : List Operation :=
  Composite.sizeOperations n isText ++
    (Composite.between n n.resolve isText).filters.map Operation.shape ++
    n.filters.map Operation.custom ++
    [.shape (Composite.overlay n n.resolve s.duration)]

/-- What is done to draw a text on a canvas of its own. -/
def drawOperations (s : Stage) (words : String) (style : TextStyle) (n : Node τ) : List Operation :=
  [.shape (s.canvas "black@0" (canvasLength n.frame.w s.width) (canvasLength n.frame.h s.height)),
    .shape Composite.alphaFilter, .draw words style n.resolve.alpha n.opacity]

/-- The input that a node is read from. -/
def input? (s : Stage) (n : Node τ) : Option Input :=
  match n.kind with
  | .image path => some (.loopedImage path s.duration s.fps)
  | .video path cutFrom cutTo _ => some (.clip path cutFrom cutTo)
  | .composition _ (some output) => some (.file output)
  | _ => none

/-- What is done to add a node to the scene. -/
def operations (s : Stage) (n : Node τ) : List Operation :=
  match n.kind with
  | .audio _ => []
  | .subtitle path style vertical => [.burn path style n.frame vertical s.width s.height]
  | .text words style =>
    if Text.allBlank words then [] else s.drawOperations words style n ++ s.layOperations n true
  | .image _ => s.layOperations n false
  | .video .. => (delayFilters n).map .shape ++ s.layOperations n false
  | .composition _ (some _) => (delayFilters n).map .shape ++ s.layOperations n false
  | .composition _ none => []

variable {s : Stage} {p : Program} {scene picture : Context} {n : Node τ} {r : Context × Program}
  {done : List Operation}

theorem does_lay (h : p.Does done) (s : Stage) (scene picture : Context) (n : Node τ)
    (isText : Bool) :
    (s.lay p scene picture n isText).2.Does (done ++ s.layOperations n isText) := by
  have hfilters : (Composite.sizeOperations n isText ++
      (Composite.between n n.resolve isText).filters.map Operation.shape ++
      n.filters.map Operation.custom).map Operation.filter =
        Composite.filters n n.resolve isText := by
    rw [Composite.filters_eq, List.map_append, List.map_append,
      Composite.map_filter_sizeOperations, Operation.map_filter_shape, Operation.map_filter_custom]
  have happlied := h.applyAll picture _ hfilters "v"
  have hlaid := happlied.combine
    [scene, (p.applyAll picture (Composite.filters n n.resolve isText) "v").1]
    (.shape (Composite.overlay n n.resolve s.duration)) "ov"
  rw [List.append_assoc] at hlaid
  exact hlaid

theorem does_layInput (h : p.Does done) (s : Stage) (scene : Context) (input : Input)
    (filters : List String) (n : Node τ) :
    (s.layInput p scene input filters n).2.Does
      (done ++ (filters.map Operation.shape ++ s.layOperations n false)) := by
  have happlied := (h.addInput input).applyAll (.ofInput p.inputs.length .video) _
    (Operation.map_filter_shape filters) "v"
  rw [← List.append_assoc]
  exact does_lay happlied s scene _ n false

theorem does_layText (h : p.Does done) (s : Stage) (scene : Context) (words : String)
    (style : TextStyle) (n : Node τ) :
    (s.layText p scene words style n).2.Does
      (done ++ (s.drawOperations words style n ++ s.layOperations n true)) := by
  have hcanvas := h.combine [] (.shape (s.canvas "black@0" (canvasLength n.frame.w s.width)
    (canvasLength n.frame.h s.height))) "txt"
  have hdrawn : (s.drawText p words style n).2.Does (done ++ s.drawOperations words style n) := by
    have happlied := hcanvas.applyAll (p.combine [] (s.canvas "black@0"
      (canvasLength n.frame.w s.width) (canvasLength n.frame.h s.height)) "txt").1
      [.shape Composite.alphaFilter, .draw words style n.resolve.alpha n.opacity] rfl "txt"
    rw [List.append_assoc] at happlied
    exact happlied
  rw [layText_eq, ← List.append_assoc]
  exact does_lay hdrawn s scene _ n true

/-- A node that can be added is added by its operations, from its input. -/
theorem does_addNode (h : p.Does done) (hadd : s.addNode p scene n = .ok r) :
    r.2.Does (done ++ s.operations n) ∧ r.2.inputs = p.inputs ++ (s.input? n).toList := by
  rcases hkind : n.kind with path | ⟨path, cutFrom, cutTo, muted⟩ | ⟨words, style⟩ |
    ⟨path, style, vertical⟩ | track | ⟨timeline, _ | output⟩ <;>
    simp only [addNode, operations, input?, hkind] at hadd ⊢
  case text =>
    split at hadd <;> cases hadd
    · next hblank => simpa [hblank] using h
    · next hshown =>
      rw [if_neg hshown]
      exact ⟨does_layText h s scene words style n, (List.append_nil _).symm⟩
  case composition.none => cases hadd
  all_goals cases hadd
  · exact ⟨does_layInput h s scene _ [] n, rfl⟩
  · exact ⟨does_layInput h s scene _ _ n, rfl⟩
  · exact ⟨h.applyAll scene [.burn path style n.frame vertical s.width s.height] rfl "sub",
      (List.append_nil _).symm⟩
  · simpa using h
  · exact ⟨does_layInput h s scene _ _ n, rfl⟩

theorem does_addNodes {nodes : List (Node τ)} (h : p.Does done)
    (hadd : s.addNodes p scene nodes = .ok r) :
    r.2.Does (done ++ nodes.flatMap s.operations) ∧
      r.2.inputs = p.inputs ++ nodes.filterMap s.input? := by
  induction nodes generalizing p scene done with
  | nil =>
    cases hadd
    exact ⟨by simpa using h, by simp⟩
  | cons n rest ih =>
    obtain ⟨r₁, hnode, hrest⟩ := exists_of_addNodes_cons hadd
    obtain ⟨hdoes, hinputs⟩ := does_addNode h hnode
    obtain ⟨hdoes', hinputs'⟩ := ih hdoes hrest
    rw [List.append_assoc, ← List.flatMap_cons] at hdoes'
    refine ⟨hdoes', ?_⟩
    rw [hinputs', hinputs, List.append_assoc]
    cases hinput : s.input? n <;> simp [hinput]

theorem honest_of_mem_layOperations {nodes : List (Node τ)} (hn : n ∈ nodes) (s : Stage)
    (isText : Bool) : ∀ op ∈ s.layOperations n isText, op.Honest nodes := by
  simp only [layOperations, List.forall_mem_append, List.forall_mem_map, List.forall_mem_singleton]
  exact ⟨⟨⟨Composite.honest_of_mem_sizeOperations hn isText,
    fun _ hfilter => Composite.namesFiles_of_mem_between hfilter⟩,
    fun filter hfilter => ⟨n, hn, List.mem_append_right _ hfilter⟩⟩,
    Composite.namesFiles_overlay n n.resolve s.duration⟩

theorem namesFiles_canvas (s : Stage) (color : String) (w h : UInt32) :
    Filter.namesFiles (s.canvas color w h) = false := by
  have hcolor : Filter.Fileless "color=c=" := by decide
  exact (hcolor.appendAll [_, _, _, _, _, _, _, _, _]).2

theorem honest_of_mem_operations {nodes : List (Node τ)} (hn : n ∈ nodes) (s : Stage) :
    ∀ op ∈ s.operations n, op.Honest nodes := by
  have hdelay : ∀ op ∈ (delayFilters n).map Operation.shape, op.Honest nodes := by
    refine List.forall_mem_map.2 fun filter hfilter => ?_
    rw [delayFilters] at hfilter
    split at hfilter
    · split at hfilter
      · have hsetpts : Filter.Fileless "setpts=PTS-STARTPTS+" := by decide
        rw [List.mem_singleton.1 hfilter]
        exact (hsetpts.appendAll [_, _]).2
      · cases hfilter
    · cases hfilter
  have hlay (isText : Bool) := honest_of_mem_layOperations hn s isText
  rcases hkind : n.kind with path | ⟨path, cutFrom, cutTo, muted⟩ | ⟨words, style⟩ |
    ⟨path, style, vertical⟩ | track | ⟨timeline, _ | output⟩ <;> simp only [operations, hkind]
  case image => exact hlay false
  case video => exact List.forall_mem_append.2 ⟨hdelay, hlay false⟩
  case text =>
    split
    · exact fun _ hop => absurd hop List.not_mem_nil
    · have halpha : Filter.namesFiles Composite.alphaFilter = false := by decide
      refine List.forall_mem_append.2 ⟨?_, hlay true⟩
      simp only [drawOperations, List.forall_mem_cons, List.not_mem_nil, false_imp_iff,
        implies_true, and_true]
      exact ⟨namesFiles_canvas .., halpha, trivial⟩
  case subtitle => exact List.forall_mem_singleton.2 trivial
  case audio => exact fun _ hop => absurd hop List.not_mem_nil
  case composition.none => exact fun _ hop => absurd hop List.not_mem_nil
  case composition.some => exact List.forall_mem_append.2 ⟨hdelay, hlay false⟩

end Stage

/-! ## Scenes -/

namespace Scene

variable {τ : Type}

/-- The input that the background is read from. -/
def backdrop (s : Scene τ) (stage : Stage) : Input :=
  match s.background with
  | some (.image path) => .loopedImage path stage.duration stage.fps
  | some (.color color) => .generated (stage.canvas color stage.width stage.height)
  | none => .generated (stage.canvas defaultColor stage.width stage.height)

/-- A picture is brought to the size of the stage. -/
def backdropOperations (s : Scene τ) (stage : Stage) : List Operation :=
  match s.background with
  | some (.image _) =>
    [.shape ("scale=" ++ toString stage.width.toNat ++ ":" ++ toString stage.height.toNat),
      .shape "setsar=1"]
  | _ => []

/-- The inputs of a scene's program. -/
def inputs (s : Scene τ) (settings : Settings) : List Input :=
  s.backdrop (s.stage settings) :: s.nodes.filterMap (s.stage settings).input?

/-- The steps of a scene's program. -/
def operations (s : Scene τ) (settings : Settings) : List Operation :=
  s.backdropOperations (s.stage settings) ++ s.nodes.flatMap (s.stage settings).operations ++
    [.shape "format=yuv420p"]

theorem does_addBackground {p : Program} {done : List Operation} (h : p.Does done) (s : Scene τ)
    (stage : Stage) :
    (s.addBackground stage p).2.Does (done ++ s.backdropOperations stage) ∧
      (s.addBackground stage p).2.inputs = p.inputs ++ [s.backdrop stage] := by
  rcases hbackground : s.background with _ | color | path <;>
    simp only [addBackground, backdrop, backdropOperations, hbackground]
  · exact ⟨by simpa using h.addInput _, rfl⟩
  · exact ⟨by simpa using h.addInput _, rfl⟩
  · exact ⟨(h.addInput _).applyAll _ [.shape _, .shape _] rfl "bg", rfl⟩

/-- A scene's program has the inputs of the scene and does its operations. -/
theorem does_of_compile {s : Scene τ} {index : Nat} {settings : Settings} {output : String}
    {p : Program} (h : s.compile index settings output = .ok p) :
    p.Does (s.operations settings) ∧ p.inputs = s.inputs settings := by
  obtain ⟨scene, p', hnodes, rfl, -⟩ := exists_of_compile h
  have hstart : (Program.empty output s.duration).Does [] := rfl
  obtain ⟨hback, hinput⟩ := does_addBackground hstart s (s.stage settings)
  obtain ⟨hdoes, hinputs⟩ := Stage.does_addNodes hback hnodes
  refine ⟨hdoes.applyAll scene [.shape "format=yuv420p"] rfl "scene", ?_⟩
  change p'.inputs = s.inputs settings
  rw [hinputs, hinput]
  rfl

theorem honest_of_mem_operations (s : Scene τ) (settings : Settings) :
    ∀ op ∈ s.operations settings, op.Honest s.nodes := by
  have hback : ∀ op ∈ s.backdropOperations (s.stage settings), op.Honest s.nodes := by
    have hratio : Filter.namesFiles "setsar=1" = false := by decide
    rw [backdropOperations]
    split
    · have hscale : Filter.Fileless "scale=" := by decide
      simp only [List.forall_mem_cons, List.not_mem_nil, false_imp_iff, implies_true, and_true]
      exact ⟨(hscale.appendAll [_, _, _]).2, hratio⟩
    · exact fun _ hop => absurd hop List.not_mem_nil
  have hformat : Filter.namesFiles "format=yuv420p" = false := by decide
  simp only [operations, List.forall_mem_append, List.forall_mem_flatMap,
    List.forall_mem_singleton]
  exact ⟨⟨hback, fun n hn => Stage.honest_of_mem_operations hn _⟩, hformat⟩

end Scene

/-! ## Files -/

namespace Input

/-- The file of the input; the source of a generated picture is a filter. -/
def file? (i : Input) : Option String :=
  if i.options = ["-f", "lavfi"] then none else some i.source

theorem file?_of_options_ne {i : Input} (h : i.options ≠ ["-f", "lavfi"]) :
    i.file? = some i.source := if_neg h

theorem file?_generated (filter : String) : (generated filter).file? = none := if_pos rfl

theorem file?_file (path : String) : (file path).file? = some path := rfl

theorem file?_manifest (path : String) : (manifest path).file? = some path :=
  file?_of_options_ne (by simp [manifest])

theorem file?_loopedImage (path : String) (duration : Float) (fps : UInt32) :
    (loopedImage path duration fps).file? = some path :=
  file?_of_options_ne (by simp [loopedImage])

theorem file?_clip (path : String) (start finish : Option Float) :
    (clip path start finish).file? = some path := by
  refine file?_of_options_ne ?_
  simp only [clip]
  cases start <;> cases finish <;> simp
  all_goals split <;> simp

theorem file?_audio (path : String) (looped : Bool) (range : Option (Float × Float)) :
    (audio path looped range).file? = some path := by
  refine file?_of_options_ne ?_
  simp only [audio]
  cases looped <;> cases range <;> simp

end Input

/-- The files that a program refers to that does these operations. -/
def Program.references (p : Program) (operations : List Operation) : List String :=
  p.inputs.filterMap Input.file? ++ operations.flatMap Operation.files

/-- The files that a node refers to: what it shows, the font of its words, or a file of subtitles
and the font that their directory of fonts is taken from. -/
def NodeKind.references {τ : Type} : NodeKind τ → List String
  | .image path => [path]
  | .video path _ _ _ => [path]
  | .text words style => if Text.allBlank words then [] else style.fontFile.toList
  | .subtitle path style _ => path :: (Operation.dirFont? style).toList
  | .audio _ => []
  | .composition _ output => output.toList

namespace Stage

variable {τ : Type}

theorem files_layOperations (s : Stage) (n : Node τ) (isText : Bool) :
    (s.layOperations n isText).flatMap Operation.files = [] := by
  have hshape (filters : List String) :
      (filters.map Operation.shape).flatMap Operation.files = [] := by
    simp [List.flatMap_map, Operation.files]
  have hcustom (filters : List String) :
      (filters.map Operation.custom).flatMap Operation.files = [] := by
    simp [List.flatMap_map, Operation.files]
  have hsize : (Composite.sizeOperations n isText).flatMap Operation.files = [] := by
    rw [Composite.sizeOperations]
    split
    · exact hshape _
    · exact hcustom _
  simp [layOperations, hsize, hshape, hcustom, Operation.files]

/-- A node's input and operations refer to the files of the node. -/
theorem files_operations (s : Stage) (n : Node τ) :
    ((s.input? n).bind Input.file?).toList ++ (s.operations n).flatMap Operation.files =
      n.kind.references := by
  have hdelay : ((delayFilters n).map Operation.shape).flatMap Operation.files = [] := by
    simp [List.flatMap_map, Operation.files]
  rcases hkind : n.kind with path | ⟨path, cutFrom, cutTo, muted⟩ | ⟨words, style⟩ |
    ⟨path, style, vertical⟩ | track | ⟨timeline, _ | output⟩ <;>
    simp only [operations, input?, hkind, NodeKind.references, Option.bind_some, Option.bind_none]
  case image => simp [Input.file?_loopedImage, files_layOperations]
  case video => simp [Input.file?_clip, files_layOperations, hdelay]
  case text =>
    split
    · rfl
    · simp [drawOperations, Operation.files, files_layOperations]
  case subtitle => simp [Operation.files]
  case audio => rfl
  case composition.none => rfl
  case composition.some => simp [Input.file?_file, files_layOperations, hdelay]

end Stage

namespace Scene

variable {τ : Type}

theorem file?_backdrop (s : Scene τ) (stage : Stage) :
    (s.backdrop stage).file?.toList = (s.background.map Background.assets).getD [] := by
  rcases hbackground : s.background with _ | color | path <;>
    simp [backdrop, hbackground, Background.assets, Input.file?_generated,
      Input.file?_loopedImage]

theorem files_backdropOperations (s : Scene τ) (stage : Stage) :
    (s.backdropOperations stage).flatMap Operation.files = [] := by
  rcases hbackground : s.background with _ | color | path <;>
    simp [backdropOperations, hbackground, Operation.files]

/-- The file is the picture of the background, or a node refers to it. -/
def Needs (s : Scene τ) (file : String) : Prop :=
  file ∈ (s.background.map Background.assets).getD [] ∨ ∃ n ∈ s.nodes, file ∈ n.kind.references

/-- A scene's program refers to the files that the scene needs. -/
theorem mem_references_iff {s : Scene τ} {index : Nat} {settings : Settings} {output : String}
    {p : Program} (h : s.compile index settings output = .ok p) {file : String} :
    file ∈ p.references (s.operations settings) ↔ s.Needs file := by
  have hnode (n : Node τ) : file ∈ n.kind.references ↔
      (((s.stage settings).input? n).bind Input.file? = some file ∨
        file ∈ ((s.stage settings).operations n).flatMap Operation.files) := by
    rw [← Stage.files_operations (s.stage settings) n, List.mem_append, Option.mem_toList]
  have hinputs : file ∈ (s.nodes.filterMap (s.stage settings).input?).filterMap Input.file? ↔
      ∃ n ∈ s.nodes, ((s.stage settings).input? n).bind Input.file? = some file := by
    rw [List.filterMap_filterMap, List.mem_filterMap]
  have hbackdrop : file ∈ [s.backdrop (s.stage settings)].filterMap Input.file? ↔
      file ∈ (s.background.map Background.assets).getD [] := by
    rw [← file?_backdrop s (s.stage settings), Option.mem_toList, List.mem_filterMap]
    simp
  have hoperations : file ∈ (s.operations settings).flatMap Operation.files ↔
      ∃ n ∈ s.nodes, file ∈ ((s.stage settings).operations n).flatMap Operation.files := by
    rw [operations, List.flatMap_append, List.flatMap_append, files_backdropOperations,
      List.flatMap_assoc]
    simp [Operation.files]
  rw [Program.references, (does_of_compile h).2, inputs, ← List.singleton_append,
    List.filterMap_append, List.mem_append, List.mem_append, hinputs, hbackdrop, hoperations]
  simp only [Needs, hnode, and_or_left, exists_or, or_assoc]

end Scene

end Montage
