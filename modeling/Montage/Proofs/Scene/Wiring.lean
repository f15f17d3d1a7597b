import Montage.Proofs.Program.Linear
import Montage.Scene.Compile

/-!
# The wiring of scenes

Each builder of a scene's program takes the label that shows the scene, and the inputs that it adds
itself, and hands one label back: if the scene's label waits before, the new one waits behind it
(`Stage.wired_addNode`, and for whole scenes `Scene.wired_of_addNodes`).  What adding a node can do
is said once, by `Stage.of_addNode_eq_ok`; it adds one input at most
(`Stage.length_inputs_addNode_le`).
-/

namespace Montage

open Montage.Graph

/-! ## Inputs -/

namespace Program

@[simp] theorem inputs_addInput (p : Program) (input : Input) :
    (p.addInput input).2.inputs = p.inputs ++ [input] := rfl

end Program

/-! ## Nodes -/

namespace Stage

variable {τ : Type} {p : Program} {scene picture : Context} {r : Context × Program}
  {waiting : List Label}

theorem wired_lay (h : p.Wired (scene.label :: picture.label :: waiting)) (s : Stage) (n : Node τ)
    (isText : Bool) :
    (s.lay p scene picture n isText).2.Wired
      ((s.lay p scene picture n isText).1.label :: waiting) := by
  have happlied := (h.perm (.swap ..)).applyAll (Composite.filters n n.resolve isText)
    (show isTag "v" = true by decide)
  exact Program.Wired.combine [scene, _] (happlied.perm (.swap ..)) _ (by decide)

theorem wired_layInput (h : p.Wired (scene.label :: waiting)) (s : Stage) (input : Input)
    (filters : List String) (n : Node τ) :
    (s.layInput p scene input filters n).2.Wired
      ((s.layInput p scene input filters n).1.label :: waiting) := by
  have happlied := (h.addInput input .video).applyAll filters (show isTag "v" = true by decide)
  exact wired_lay (happlied.perm (.swap ..)) s n false

theorem wired_layText (h : p.Wired (scene.label :: waiting)) (s : Stage) (words : String)
    (style : TextStyle) (n : Node τ) :
    (s.layText p scene words style n).2.Wired
      ((s.layText p scene words style n).1.label :: waiting) := by
  have hcanvas := Program.Wired.combine [] h
    (s.canvas "black@0" (canvasLength n.frame.w s.width) (canvasLength n.frame.h s.height))
    (show isTag "txt" = true by decide)
  have happlied := hcanvas.applyAll
    [Composite.alphaFilter, Drawtext.filter words style n.resolve.alpha n.opacity]
    (show isTag "txt" = true by decide)
  exact wired_lay (happlied.perm (.swap ..)) s n true

/-- A node that can be added shows nothing, burns subtitles in, or lays a text or an input over the
scene. -/
theorem of_addNode_eq_ok {s : Stage} {n : Node τ} (hadd : s.addNode p scene n = .ok r) :
    r = (scene, p) ∨ (∃ filter, r = p.applyAll scene [filter] "sub") ∨
      (∃ words style, r = s.layText p scene words style n) ∨
      ∃ input filters, r = s.layInput p scene input filters n := by
  rw [addNode] at hadd
  split at hadd
  case h_1 =>
    cases hadd
    exact Or.inl rfl
  case h_2 =>
    cases hadd
    exact Or.inr (Or.inl ⟨_, rfl⟩)
  case h_3 =>
    split at hadd <;> cases hadd
    · exact Or.inl rfl
    · exact Or.inr (Or.inr (Or.inl ⟨_, _, rfl⟩))
  case h_7 => cases hadd
  all_goals
    cases hadd
    exact Or.inr (Or.inr (Or.inr ⟨_, _, rfl⟩))

theorem exists_of_addNodes_cons {s : Stage} {n : Node τ} {rest : List (Node τ)}
    (hadd : s.addNodes p scene (n :: rest) = .ok r) :
    ∃ r₁, s.addNode p scene n = .ok r₁ ∧ s.addNodes r₁.2 r₁.1 rest = .ok r := by
  rw [addNodes] at hadd
  rcases hnode : s.addNode p scene n with e | r₁ <;> rw [hnode] at hadd
  · cases hadd
  · exact ⟨r₁, rfl, hadd⟩

/-- A node takes the scene's label and hands a new one back. -/
theorem wired_addNode (h : p.Wired (scene.label :: waiting)) {s : Stage} {n : Node τ}
    (hadd : s.addNode p scene n = .ok r) : r.2.Wired (r.1.label :: waiting) := by
  obtain rfl | ⟨filter, rfl⟩ | ⟨words, style, rfl⟩ | ⟨input, filters, rfl⟩ := of_addNode_eq_ok hadd
  · exact h
  · exact h.applyAll [filter] (show isTag "sub" = true by decide)
  · exact wired_layText h s words style n
  · exact wired_layInput h s input filters n

theorem wired_addNodes (h : p.Wired (scene.label :: waiting)) {s : Stage} {nodes : List (Node τ)}
    (hadd : s.addNodes p scene nodes = .ok r) : r.2.Wired (r.1.label :: waiting) := by
  induction nodes generalizing p scene with
  | nil =>
    cases hadd
    exact h
  | cons n rest ih =>
    obtain ⟨r₁, hnode, hrest⟩ := exists_of_addNodes_cons hadd
    exact ih (wired_addNode h hnode) hrest

theorem length_inputs_addNode_le {s : Stage} {n : Node τ}
    (hadd : s.addNode p scene n = .ok r) :
    r.2.inputs.length ≤ p.inputs.length + 1 := by
  obtain rfl | ⟨filter, rfl⟩ | ⟨words, style, rfl⟩ | ⟨input, filters, rfl⟩ := of_addNode_eq_ok hadd
  · exact Nat.le_succ _
  · exact Nat.le_succ _
  · exact Nat.le_succ _
  · have hinputs : (s.layInput p scene input filters n).2.inputs = p.inputs ++ [input] := rfl
    simp [hinputs]

theorem length_inputs_addNodes_le {s : Stage} {nodes : List (Node τ)}
    (hadd : s.addNodes p scene nodes = .ok r) :
    r.2.inputs.length ≤ p.inputs.length + nodes.length := by
  induction nodes generalizing p scene with
  | nil =>
    cases hadd
    exact Nat.le_refl _
  | cons n rest ih =>
    obtain ⟨r₁, hnode, hrest⟩ := exists_of_addNodes_cons hadd
    have hfirst := length_inputs_addNode_le hnode
    have hlater := ih hrest
    rw [List.length_cons]
    omega

/-- Adding a node changes nothing but the inputs and the graph. -/
theorem addNode_frame {s : Stage} {n : Node τ} (hadd : s.addNode p scene n = .ok r) :
    r.2 = { p with inputs := r.2.inputs, graph := r.2.graph } := by
  obtain rfl | ⟨filter, rfl⟩ | ⟨words, style, rfl⟩ | ⟨input, filters, rfl⟩ :=
    of_addNode_eq_ok hadd <;> rfl

theorem addNodes_frame {s : Stage} {nodes : List (Node τ)}
    (hadd : s.addNodes p scene nodes = .ok r) :
    r.2 = { p with inputs := r.2.inputs, graph := r.2.graph } := by
  induction nodes generalizing p scene with
  | nil =>
    cases hadd
    rfl
  | cons n rest ih =>
    obtain ⟨r₁, hnode, hrest⟩ := exists_of_addNodes_cons hadd
    rw [ih hrest, addNode_frame hnode]

end Stage

/-! ## Scenes -/

namespace Scene

variable {τ : Type}

theorem wired_addBackground {p : Program} {waiting : List Label} (h : p.Wired waiting)
    (s : Scene τ) (stage : Stage) :
    (s.addBackground stage p).2.Wired ((s.addBackground stage p).1.label :: waiting) := by
  rcases hbackground : s.background with _ | color | path <;>
    simp only [addBackground, hbackground]
  · exact h.addInput _ .video
  · exact h.addInput _ .video
  · exact (h.addInput _ .video).applyAll _ (show isTag "bg" = true by decide)

theorem length_inputs_addBackground (s : Scene τ) (stage : Stage) (p : Program) :
    (s.addBackground stage p).2.inputs.length = p.inputs.length + 1 := by
  have hadded (input : Input) : (p.inputs ++ [input]).length = p.inputs.length + 1 :=
    List.length_append
  rcases hbackground : s.background with _ | color | path <;>
    simp only [addBackground, hbackground]
  all_goals exact hadded _

theorem addBackground_frame (s : Scene τ) (stage : Stage) (p : Program) :
    (s.addBackground stage p).2 = { p with
      inputs := (s.addBackground stage p).2.inputs
      graph := (s.addBackground stage p).2.graph } := by
  rcases hbackground : s.background with _ | color | path <;>
    simp only [addBackground, hbackground] <;> rfl

/-- Behind the last step only the picture waits. -/
theorem wired_of_addNodes {s : Scene τ} {settings : Settings} {output : String} {scene : Context}
    {p : Program} (hnodes : (s.stage settings).addNodes (s.addBackground (s.stage settings)
      (.empty output s.duration)).2 (s.addBackground (s.stage settings)
      (.empty output s.duration)).1 s.nodes = .ok (scene, p)) :
    (p.applyAll scene ["format=yuv420p"] "scene").2.Wired
      [(p.applyAll scene ["format=yuv420p"] "scene").1.label] :=
  (Stage.wired_addNodes (wired_addBackground (Program.wired_empty ..) s _) hnodes).applyAll _
    (by decide)

/-- A finished scene is the program behind its nodes with one more step, checked. -/
theorem exists_of_compile {s : Scene τ} {index : Nat} {settings : Settings} {output : String}
    {p : Program} (h : s.compile index settings output = .ok p) :
    ∃ scene p', (s.stage settings).addNodes (s.addBackground (s.stage settings)
        (.empty output s.duration)).2 (s.addBackground (s.stage settings)
        (.empty output s.duration)).1 s.nodes = .ok (scene, p') ∧
      p = { (p'.applyAll scene ["format=yuv420p"] "scene").2 with
        video := some (p'.applyAll scene ["format=yuv420p"] "scene").1.label } ∧
      p.validate = .ok () := by
  rw [compile] at h
  split at h
  · cases h
  · dsimp only at h
    split at h
    · cases h
    · next scene p' hnodes =>
      split at h
      · cases h
      · next hvalidate =>
        cases h
        exact ⟨scene, p', hnodes, rfl, hvalidate⟩

end Scene

end Montage
