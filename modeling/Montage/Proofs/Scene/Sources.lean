import Montage.Proofs.Scene.Wiring

/-!
# What scenes read

The program of a scene reads the file of each composition of the scene
(`Scene.mem_inputs_of_compile`): adding a node takes no input away, and adding a rendered
composition adds its file.
-/

namespace Montage

namespace Stage

variable {τ : Type} {s : Stage} {p : Program} {scene : Graph.Context} {n : Node τ}
  {nodes : List (Node τ)} {r : Graph.Context × Program} {timeline : τ} {output : String}

theorem inputs_subset_addNode (hadd : s.addNode p scene n = .ok r) : p.inputs ⊆ r.2.inputs := by
  obtain rfl | ⟨filter, rfl⟩ | ⟨words, style, rfl⟩ | ⟨input, filters, rfl⟩ := of_addNode_eq_ok hadd
  · exact List.Subset.refl _
  · exact List.Subset.refl _
  · exact List.Subset.refl _
  · exact List.subset_append_left p.inputs [input]

theorem inputs_subset_addNodes (hadd : s.addNodes p scene nodes = .ok r) :
    p.inputs ⊆ r.2.inputs := by
  induction nodes generalizing p scene with
  | nil =>
    cases hadd
    exact List.Subset.refl _
  | cons n rest ih =>
    obtain ⟨r₁, hnode, hrest⟩ := exists_of_addNodes_cons hadd
    exact List.Subset.trans (inputs_subset_addNode hnode) (ih hrest)

theorem mem_inputs_addNode (hkind : n.kind = .composition timeline (some output))
    (hadd : s.addNode p scene n = .ok r) : Input.file output ∈ r.2.inputs := by
  rw [addNode, hkind] at hadd
  cases hadd
  exact List.mem_append_right p.inputs (List.mem_singleton_self _)

theorem mem_inputs_addNodes (hn : n ∈ nodes)
    (hkind : n.kind = .composition timeline (some output))
    (hadd : s.addNodes p scene nodes = .ok r) : Input.file output ∈ r.2.inputs := by
  induction nodes generalizing p scene with
  | nil => cases hn
  | cons first rest ih =>
    obtain ⟨r₁, hnode, hrest⟩ := exists_of_addNodes_cons hadd
    rcases List.mem_cons.1 hn with rfl | hn
    · exact inputs_subset_addNodes hrest (mem_inputs_addNode hkind hnode)
    · exact ih hn hrest

end Stage

namespace Scene

variable {τ : Type} {s : Scene τ} {n : Node τ} {timeline : τ} {output : String}

/-- A scene's program reads the files of the scene's compositions. -/
theorem mem_inputs_of_compile {index : Nat} {settings : Settings} {target : String} {p : Program}
    (hn : n ∈ s.nodes) (hkind : n.kind = .composition timeline (some output))
    (h : s.compile index settings target = .ok p) : Input.file output ∈ p.inputs := by
  obtain ⟨scene, p', hnodes, rfl, -⟩ := exists_of_compile h
  have hinputs : Input.file output ∈ p'.inputs := Stage.mem_inputs_addNodes hn hkind hnodes
  exact hinputs

end Scene

end Montage
