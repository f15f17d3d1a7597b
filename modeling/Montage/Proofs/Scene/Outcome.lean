import Montage.Proofs.Scene.Wiring

/-!
# When scenes compile

A scene compiles if it lasts and all its compositions are rendered; its graph is never at fault,
because it is wired.  `Scene.of_compile_eq_error` tells which of the two was found missing.
-/

namespace Montage

open Montage.Graph

/-! ## Lengths -/

open Float.Model in
/-- A number is at most zero unless it is more than zero or no number. -/
theorem le_zero_eq (u : UnpackedFloat) :
    u.le (.zero .positive) = !(UnpackedFloat.lt (.zero .positive) u || u.isNaN) := by
  rcases u with (_ | _) | _ | _ | ⟨_ | _, _, _, _⟩ <;> rfl

open Float.Model in
theorem not_le_zero_iff (d : Float) : ¬ d ≤ 0.0 ↔ 0.0 < d ∨ d.isNaN = true := by
  have hzero : (0.0 : Float).toModel.unpack = .zero .positive := rfl
  have hle : d ≤ 0.0 ↔ d.toModel.unpack.le (.zero .positive) = true := by
    rw [← hzero]
    exact decide_eq_true_iff
  have hlt : 0.0 < d ↔ UnpackedFloat.lt (.zero .positive) d.toModel.unpack = true := by
    rw [← hzero]
    exact decide_eq_true_iff
  have hnan : d.isNaN = d.toModel.unpack.isNaN := rfl
  rw [hle, hlt, hnan, le_zero_eq, Bool.not_eq_true', Bool.not_eq_false, Bool.or_eq_true]

/-- The node is no composition that still has to be rendered. -/
def Node.IsRendered {τ : Type} (n : Node τ) : Prop := ∀ timeline, n.kind ≠ .composition timeline none

namespace Scene

variable {τ : Type}

/-- The scene's length is positive or no number: a scene is turned away only for a length of zero or
less.  No document holds a length that is no number. -/
def Lasts (s : Scene τ) : Prop := 0.0 < s.duration ∨ s.duration.isNaN = true

instance (s : Scene τ) : Decidable s.Lasts := inferInstanceAs (Decidable (_ ∨ _))

/-- All compositions of the scene are rendered. -/
def IsRendered (s : Scene τ) : Prop := ∀ n ∈ s.nodes, n.IsRendered

end Scene

/-- The error of a composition that still has to be rendered. -/
def unrendered : CompileError := .missingAsset "nested composition has not been rendered"

/-! ## Nodes -/

namespace Stage

variable {τ : Type} {p : Program} {scene : Context} {r : Context × Program} {s : Stage}
  {e : CompileError}

theorem isRendered_of_addNode_eq_ok {n : Node τ} (hadd : s.addNode p scene n = .ok r) :
    n.IsRendered := by
  intro timeline hkind
  rw [addNode, hkind] at hadd
  cases hadd

theorem of_addNode_eq_error {n : Node τ} (hadd : s.addNode p scene n = .error e) :
    ¬ n.IsRendered ∧ e = unrendered := by
  rw [addNode] at hadd
  split at hadd
  case h_3 => split at hadd <;> cases hadd
  case h_7 timeline hkind =>
    cases hadd
    exact ⟨fun h => h timeline hkind, rfl⟩
  all_goals cases hadd

theorem isRendered_of_addNodes_eq_ok {nodes : List (Node τ)}
    (hadd : s.addNodes p scene nodes = .ok r) : ∀ n ∈ nodes, n.IsRendered := by
  induction nodes generalizing p scene with
  | nil => exact fun n hn => absurd hn List.not_mem_nil
  | cons n rest ih =>
    obtain ⟨r₁, hnode, hrest⟩ := exists_of_addNodes_cons hadd
    exact List.forall_mem_cons.2 ⟨isRendered_of_addNode_eq_ok hnode, ih hrest⟩

theorem of_addNodes_eq_error {nodes : List (Node τ)}
    (hadd : s.addNodes p scene nodes = .error e) :
    (¬ ∀ n ∈ nodes, n.IsRendered) ∧ e = unrendered := by
  induction nodes generalizing p scene with
  | nil => cases hadd
  | cons n rest ih =>
    rw [addNodes] at hadd
    rw [List.forall_mem_cons]
    rcases hnode : s.addNode p scene n with e | ⟨scene₁, p₁⟩ <;> rw [hnode] at hadd
    · cases hadd
      obtain ⟨hrendered, he⟩ := of_addNode_eq_error hnode
      exact ⟨fun h => hrendered h.1, he⟩
    · obtain ⟨hrendered, he⟩ := ih hadd
      exact ⟨fun h => hrendered h.2, he⟩

end Stage

/-! ## Scenes -/

namespace Scene

variable {τ : Type} {s : Scene τ} {index : Nat} {settings : Settings} {output : String}

theorem of_compile_eq_ok {p : Program} (h : s.compile index settings output = .ok p) :
    s.Lasts ∧ s.IsRendered := by
  obtain ⟨scene, p', hnodes, -, -⟩ := exists_of_compile h
  refine ⟨?_, Stage.isRendered_of_addNodes_eq_ok hnodes⟩
  rw [compile] at h
  split at h
  · cases h
  · next hlasts => exact (not_le_zero_iff _).1 hlasts

/-- The program of a scene passes its check, if its inputs can be counted. -/
theorem validate_eq_ok {scene : Context} {p : Program}
    (hnodes : (s.stage settings).addNodes (s.addBackground (s.stage settings)
      (.empty output s.duration)).2 (s.addBackground (s.stage settings)
      (.empty output s.duration)).1 s.nodes = .ok (scene, p))
    (hsize : s.nodes.length + 1 ≤ UInt64.size) (video : Option Label) :
    Program.validate { (p.applyAll scene ["format=yuv420p"] "scene").2 with video } = .ok () := by
  have hinputs : p.inputs.length ≤ s.nodes.length + 1 := by
    have := Stage.length_inputs_addNodes_le hnodes
    rw [length_inputs_addBackground] at this
    change p.inputs.length ≤ 0 + 1 + s.nodes.length at this
    omega
  exact (wired_of_addNodes hnodes).validate_eq_ok (Nat.le_trans hinputs hsize)

/-- A scene that does not compile does not last, or else has a composition to be rendered. -/
theorem of_compile_eq_error (hsize : s.nodes.length + 1 ≤ UInt64.size) {e : CompileError}
    (h : s.compile index settings output = .error e) :
    (¬ s.Lasts ∧ e = .invalid (.nonPositiveDuration index s.duration)) ∨
      (s.Lasts ∧ ¬ s.IsRendered ∧ e = unrendered) := by
  rw [compile] at h
  split at h
  · next hlasts =>
    cases h
    exact Or.inl ⟨fun h => (not_le_zero_iff _).2 h hlasts, rfl⟩
  · next hlasts =>
    have hlasts := (not_le_zero_iff _).1 hlasts
    dsimp only at h
    split at h
    · next hnodes =>
      cases h
      exact Or.inr ⟨hlasts, Stage.of_addNodes_eq_error hnodes⟩
    · next hnodes =>
      rw [validate_eq_ok hnodes hsize] at h
      cases h

end Scene

end Montage
