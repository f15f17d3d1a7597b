import Montage.Proofs.Graph.Chains
import Montage.Proofs.Scene.References

/-!
# The way of a picture onto the scene

A node that shows a picture adds one chain of filters to the program: from its input, or from a
canvas that a text is drawn on, through what is done to the picture, to the overlay that lays it
over the scene so far (`Stage.addNode_passage`).
-/

namespace Montage

open Montage.Graph

/-! ## Drawn opacity -/

namespace Drawtext

theorem filter_key_setting? {key other : String} (hkey : key ≠ other) (value : Option String) :
    (setting? key value).filter (·.key == other) = [] := by
  cases value <;> simp [setting?, hkey]

/-- A text is drawn with one opacity at most: its fade, or else its node's. -/
theorem filter_alpha_settings (words : String) (style : TextStyle) (alpha : Option Interpolation)
    (opacity : Option Float) :
    (settings words style alpha opacity).filter (·.key == "alpha") =
      alphaSettings alpha opacity := by
  have hshadow : (shadowSettings style.shadow).filter (·.key == "alpha") = [] := by
    cases style.shadow with
    | none => rfl
    | some shadow => simp [shadowSettings, filter_key_setting?]
  have halpha : (alphaSettings alpha opacity).filter (·.key == "alpha") =
      alphaSettings alpha opacity := by
    cases alpha with
    | none => cases opacity <;> rfl
    | some ramp => rfl
  simp only [settings, List.filter_append, hshadow, halpha]
  cases style.fontFile <;> cases style.backgroundColor <;> simp [filter_key_setting?]

end Drawtext

/-! ## Pictures -/

section

variable {τ : Type}

/-- The node shows a picture of its own: an image, a clip, a text that is not blank, or a
composition that has been rendered. -/
def Node.ShowsPicture (n : Node τ) : Prop :=
  match n.kind with
  | .image _ | .video .. => True
  | .text words _ => Text.allBlank words = false
  | .composition _ output => output.isSome = true
  | .subtitle .. | .audio _ => False

def Node.isText (n : Node τ) : Bool :=
  match n.kind with
  | .text .. => true
  | _ => false

theorem Node.isText_of_kind_eq {n : Node τ} {words : String} {style : TextStyle}
    (h : n.kind = .text words style) : n.isText = true := by
  rw [isText, h]

end

namespace Stage

variable {τ : Type}

/-- The step that makes the canvas of a text; other pictures have none. -/
def canvasSteps (s : Stage) (n : Node τ) (label : Label) : List Step :=
  if n.isText then
    [⟨[], s.canvas "black@0" (canvasLength n.frame.w s.width) (canvasLength n.frame.h s.height),
      [label]⟩]
  else []

/-- A clip that appears late is delayed. -/
def delay : Option Float → List String
  | some start =>
    if 0.0 < start then ["setpts=PTS-STARTPTS+" ++ Filter.number start ++ "/TB"] else []
  | none => []

theorem delayFilters_eq (n : Node τ) : delayFilters n = delay n.start := rfl

/-- What brings the picture about: a clip is delayed, a text is drawn. -/
def introFilters (n : Node τ) : List String :=
  match n.kind with
  | .text words style => ["format=rgba", Drawtext.filter words style n.resolve.alpha n.opacity]
  | .video .. | .composition .. => delay n.start
  | .image _ | .subtitle .. | .audio _ => []

/-- A coordinate that may move, as an expression in time. -/
def coordinate (ramp : Option Interpolation) (fixed : Float) : String :=
  (ramp.map fun ramp => "(" ++ ramp.expr "t" ++ ")").getD (Filter.number fixed)

/-- Where the picture of a node is laid.  If its size changes it is held at the centre of its box,
and at a fixed angle at the corner of the box around it. -/
structure Placed (n : Node τ) (r : Resolved) (x y : String) : Prop where
  resizing : r.scale ≠ none ∨ r.angle ≠ none →
    x = coordinate r.x r.frame.x ++ "+" ++ Filter.number (r.frame.w / 2.0) ++ "-w/2" ∧
      y = coordinate r.y r.frame.y ++ "+" ++ Filter.number (r.frame.h / 2.0) ++ "-h/2"
  turned_moving : r.scale = none → r.angle = none → (n.rotation == 0.0) = false → r.x ≠ none →
    let box := r.frame.turned n.rotation
    x = coordinate r.x r.frame.x ++ "-" ++ Filter.number ((box.w - r.frame.w) / 2.0) ∧
      y = coordinate r.y r.frame.y ++ "-" ++ Filter.number ((box.h - r.frame.h) / 2.0)
  turned_still : r.scale = none → r.angle = none → (n.rotation == 0.0) = false → r.x = none →
    let box := r.frame.turned n.rotation
    x = Filter.number box.x ∧ y = Filter.number box.y
  straight : r.scale = none → r.angle = none → (n.rotation == 0.0) = true →
    x = coordinate r.x r.frame.x ∧ y = coordinate r.y r.frame.y

/-- The filter that lays a picture over a scene at a place, within a window of time. -/
def overlayFilter (x y : String) (window : Window Float) : String :=
  "overlay=x=" ++ Filter.quotedIfCommas x ++ ":y=" ++ Filter.quotedIfCommas y ++
    ":enable='between(t," ++ Filter.number window.appear ++ "," ++
    Filter.number window.disappear ++ ")'"

theorem placed_place (n : Node τ) (r : Resolved) :
    Placed n r (Composite.place r (Composite.turnedBox? n r)).1
      (Composite.place r (Composite.turnedBox? n r)).2 := by
  have hcoordinate (ramp : Option Interpolation) (fixed : Float) :
      Composite.placeExpr ramp fixed = coordinate ramp fixed := by
    cases ramp <;> rfl
  refine ⟨fun h => ?_, fun hscale hangle hturned hmoves => ?_,
    fun hscale hangle hturned hstill => ?_, fun hscale hangle hstraight => ?_⟩
  · have hresizes : r.resizes = true := by
      rw [Resolved.resizes, Bool.or_eq_true, Option.isSome_iff_ne_none, Option.isSome_iff_ne_none]
      exact h
    simp only [Composite.place, hresizes, if_true, hcoordinate, and_self]
  · simp [Composite.place, Composite.turnedBox?, Resolved.resizes, hscale, hangle, bne, hturned,
      hcoordinate, Option.isSome_iff_ne_none, hmoves]
  · simp [Composite.place, Composite.turnedBox?, Resolved.resizes, hscale, hangle, bne, hturned,
      hstill]
  · simp [Composite.place, Composite.turnedBox?, Resolved.resizes, hscale, hangle, bne, hstraight,
      hcoordinate]

/-- What adding a node that shows a picture yields: the chain of its filters, among them the ones
that are done to the picture and are not the node's own. -/
structure Passage (s : Stage) (p : Program) (scene : Context) (n : Node τ) (r : Context × Program)
    (c : Chain) (own : List String) : Prop where
  /-- The node's input, if it has one, is the last. -/
  inputs : r.2.inputs = p.inputs ++ (s.input? n).toList
  /-- The chain starts from this input, or else from the canvas of a text. -/
  start : n.isText = false →
    (s.input? n).isSome = true ∧ c.start = inputLabel p.inputs.length .video
  /-- The steps of the chain are added, and one that lays what they lead to over the scene. -/
  steps : ∃ x y, Placed n n.resolve x y ∧
    r.2.graph.steps = p.graph.steps ++ s.canvasSteps n c.start ++ c.steps ++
      [⟨[scene.label, c.finish], overlayFilter x y (n.window s.duration), [r.1.label]⟩]
  filters : c.filters = introFilters n ++ (n.preFilters ++ own ++ n.filters)
  touched : Composite.Touched n n.resolve n.isText own
  /-- A text is drawn with its opacity. -/
  drawn_opacity : ∀ words style, n.kind = .text words style →
    (Drawtext.settings words style n.resolve.alpha n.opacity).filter (·.key == "alpha") =
      Drawtext.alphaSettings n.resolve.alpha n.opacity

/-- Laying a picture over the scene adds one chain, from the picture to the overlay. -/
theorem exists_chain_lay (s : Stage) (p : Program) (scene picture : Context) (n : Node τ)
    (isText : Bool) :
    ∃ c : Chain, c.start = picture.label ∧
      c.filters = Composite.filters n n.resolve isText ∧
      (s.lay p scene picture n isText).2.graph.steps = p.graph.steps ++ c.steps ++
        [⟨[scene.label, c.finish], Composite.overlay n n.resolve s.duration,
          [(s.lay p scene picture n isText).1.label]⟩] := by
  obtain ⟨c, hstart, hfilters, hfinish, hsteps⟩ := exists_chain_applyAll p.graph picture
    (Composite.filters n n.resolve isText) "v"
  refine ⟨c, hstart, hfilters, ?_⟩
  rw [hfinish, ← hsteps]
  rfl

/-- Filters that bring a picture about and the filters that lay it form one chain. -/
theorem exists_chain_applyAll_lay (s : Stage) (p : Program) (scene source : Context) (n : Node τ)
    (intro : List String) (tag : String) (isText : Bool) :
    let laid := s.lay (p.applyAll source intro tag).2 scene (p.applyAll source intro tag).1 n isText
    ∃ c : Chain, c.start = source.label ∧
      c.filters = intro ++ Composite.filters n n.resolve isText ∧
      laid.2.graph.steps = p.graph.steps ++ c.steps ++
        [⟨[scene.label, c.finish], Composite.overlay n n.resolve s.duration, [laid.1.label]⟩] := by
  obtain ⟨first, hstart, hfilters, hfinish, hsteps⟩ :=
    exists_chain_applyAll p.graph source intro tag
  obtain ⟨second, hstart', hfilters', hsteps'⟩ := exists_chain_lay s
    (p.applyAll source intro tag).2 scene (p.applyAll source intro tag).1 n isText
  have hmeet : first.finish = second.start := hfinish.trans hstart'.symm
  refine ⟨first.append second, (Chain.start_append hmeet).trans hstart, ?_, ?_⟩
  · rw [Chain.filters_append, hfilters, hfilters']
  · rw [Chain.steps_append hmeet, Chain.finish_append, ← List.append_assoc, ← hsteps]
    exact hsteps'

section

variable (s : Stage) (p : Program) (scene : Context) {n : Node τ}

/-- A node with an input is laid from this input. -/
theorem addNode_of_input?_eq {input : Input} (hinput : s.input? n = some input) :
    n.isText = false ∧
      s.addNode p scene n = .ok (s.layInput p scene input (introFilters n) n) := by
  rcases hkind : n.kind with path | ⟨path, cutFrom, cutTo, muted⟩ | ⟨words, style⟩ |
    ⟨path, style, vertical⟩ | track | ⟨timeline, _ | output⟩ <;>
    simp only [input?, hkind, Option.some.injEq, reduceCtorEq] at hinput
  all_goals
    subst hinput
    simp only [Node.isText, addNode, introFilters, delayFilters_eq, hkind, and_self]

theorem exists_passage_layInput {input : Input} (htext : n.isText = false)
    (hinput : s.input? n = some input) :
    ∃ c own, s.Passage p scene n (s.layInput p scene input (introFilters n) n) c own := by
  obtain ⟨c, hstart, hfilters, hsteps⟩ := s.exists_chain_applyAll_lay (p.addInput input).2 scene
    (.ofInput p.inputs.length .video) n (introFilters n) "v" false
  rw [Composite.filters_eq_touches] at hfilters
  refine ⟨c, Composite.withAlpha n.isText (Composite.touches n n.resolve n.isText), ?_,
    fun _ => ⟨Option.isSome_of_eq_some hinput, hstart⟩, ?_, ?_,
    Composite.touched_withAlpha n n.resolve n.isText, ?_⟩
  · rw [hinput]
    rfl
  · rw [canvasSteps, htext, if_neg Bool.false_ne_true, List.append_nil]
    exact ⟨_, _, placed_place n n.resolve, hsteps⟩
  · rw [hfilters, htext]
  · intro words style hkind
    rw [Node.isText_of_kind_eq hkind] at htext
    cases htext

theorem exists_passage_layText {words : String} {style : TextStyle}
    (hkind : n.kind = .text words style) :
    ∃ c own, s.Passage p scene n (s.layText p scene words style n) c own := by
  have htext := Node.isText_of_kind_eq hkind
  let canvas := p.combine [] (s.canvas "black@0" (canvasLength n.frame.w s.width)
    (canvasLength n.frame.h s.height)) "txt"
  obtain ⟨c, hstart, hfilters, hsteps⟩ := s.exists_chain_applyAll_lay canvas.2 scene canvas.1 n
    [Composite.alphaFilter, Drawtext.filter words style n.resolve.alpha n.opacity] "txt" true
  rw [Composite.filters_eq_touches] at hfilters
  have hintro : introFilters n =
      [Composite.alphaFilter, Drawtext.filter words style n.resolve.alpha n.opacity] := by
    rw [introFilters, hkind]
    rfl
  refine ⟨c, Composite.withAlpha n.isText (Composite.touches n n.resolve n.isText), ?_, ?_, ?_, ?_,
    Composite.touched_withAlpha n n.resolve n.isText,
    fun words style _ => Drawtext.filter_alpha_settings words style n.resolve.alpha n.opacity⟩
  · rw [input?, hkind]
    exact (List.append_nil _).symm
  · intro h
    rw [htext] at h
    cases h
  · rw [canvasSteps, htext, if_pos rfl, hstart]
    exact ⟨_, _, placed_place n n.resolve, hsteps⟩
  · rw [hintro, hfilters, htext]

/-- A node that shows a picture has an input or draws a text. -/
theorem exists_input_or_text (hn : n.ShowsPicture) :
    (∃ input, s.input? n = some input) ∨
      ∃ words style, n.kind = .text words style ∧ Text.allBlank words = false := by
  rcases hkind : n.kind with path | ⟨path, cutFrom, cutTo, muted⟩ | ⟨words, style⟩ |
    ⟨path, style, vertical⟩ | track | ⟨timeline, _ | output⟩ <;>
    simp only [Node.ShowsPicture, hkind] at hn
  case text => exact Or.inr ⟨words, style, rfl, hn⟩
  case composition.none => cases hn
  all_goals exact Or.inl ⟨_, by rw [input?, hkind]⟩

/-- For every image, clip, rendered composition and text that is not blank, every stage, and every
program and scene so far: one chain leads from the node's input, or from the canvas of the text,
through the filters that bring the picture about, the node's own for its size, what is done to it,
and the node's further ones, to the overlay.  In what is done to it the alpha channel is added once
at most, before all that needs it, and neither an angle nor an opacity is applied twice. -/
theorem addNode_passage (hn : n.ShowsPicture) :
    ∃ r c own, s.addNode p scene n = .ok r ∧ s.Passage p scene n r c own := by
  obtain ⟨input, hinput⟩ | ⟨words, style, hkind, hshown⟩ := exists_input_or_text s hn
  · obtain ⟨htext, hadd⟩ := addNode_of_input?_eq s p scene hinput
    obtain ⟨c, own, h⟩ := exists_passage_layInput s p scene htext hinput
    exact ⟨_, c, own, hadd, h⟩
  · obtain ⟨c, own, h⟩ := exists_passage_layText s p scene hkind
    exact ⟨_, c, own, addNode_text s p scene hkind hshown, h⟩

end

/-- A clip that appears late, is turned and fades in, with an opacity that its fade replaces. -/
def fadingClip : Node Timeline where
  kind := .video "clip.mp4" none none false
  frame := ⟨10.0, 20.0, 320.0, 180.0⟩
  rotation := 30.0
  opacity := some 0.5
  start := some 1.0
  filters := ["hflip"]
  animations := [{ motion := .fade 0.0 1.0, direction := .entering, start := 1.0, duration := 1.0 }]

theorem addNode_passage_fadingClip :
    fadingClip.ShowsPicture ∧
      ∃ r c own,
        (⟨1280, 720, 25, 4.0⟩ : Stage).addNode (.empty "scene.mp4" 4.0) (.ofInput 0 .video)
          fadingClip = .ok r ∧
        (⟨1280, 720, 25, 4.0⟩ : Stage).Passage (.empty "scene.mp4" 4.0) (.ofInput 0 .video)
          fadingClip r c own :=
  ⟨trivial, addNode_passage ⟨1280, 720, 25, 4.0⟩ (.empty "scene.mp4" 4.0) (.ofInput 0 .video)
    trivial⟩

end Stage

end Montage
