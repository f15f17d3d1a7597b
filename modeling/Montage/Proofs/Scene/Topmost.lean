import Montage.Proofs.Scene.Wiring
import Montage.Subtitle.Attach

/-!
# What stands on top of a scene

A scene's program writes the file that it was compiled for (`Scene.output_of_compile`).  Subtitles
that were attached to a scene are burned in over all its own nodes, by the last step but the one
that fixes the pixel format (`Scene.burnsOnTop_of_compile`).
-/

namespace Montage

open Montage.Graph

namespace Stage

variable {τ : Type}

theorem exists_of_addNodes_concat {s : Stage} {p : Program} {scene : Context}
    {nodes : List (Node τ)} {n : Node τ} {r : Context × Program}
    (hadd : s.addNodes p scene (nodes ++ [n]) = .ok r) :
    ∃ r₁, s.addNodes p scene nodes = .ok r₁ ∧ s.addNode r₁.2 r₁.1 n = .ok r := by
  induction nodes generalizing p scene with
  | nil =>
    obtain ⟨r₁, hnode, hrest⟩ := exists_of_addNodes_cons hadd
    cases hrest
    exact ⟨(scene, p), rfl, hnode⟩
  | cons first rest ih =>
    obtain ⟨r₁, hfirst, hrest⟩ := exists_of_addNodes_cons hadd
    obtain ⟨r₂, hnodes, hnode⟩ := ih hrest
    exact ⟨r₂, by rw [addNodes, hfirst]; exact hnodes, hnode⟩

end Stage

namespace Scene

variable {τ : Type} {s s' : Scene τ} {index : Nat} {settings : Settings} {output path : String}
  {p : Program}

/-- The scene's background and its nodes on a stage. -/
def painted (s : Scene τ) (stage : Stage) (output : String) :
    Except CompileError (Context × Program) :=
  stage.addNodes (s.addBackground stage (.empty output stage.duration)).2
    (s.addBackground stage (.empty output stage.duration)).1 s.nodes

theorem output_of_compile (h : s.compile index settings output = .ok p) : p.output = output := by
  obtain ⟨scene, p', hnodes, rfl, -⟩ := exists_of_compile h
  change p'.output = output
  rw [congrArg Program.output (Stage.addNodes_frame hnodes),
    congrArg Program.output (addBackground_frame ..)]
  rfl

/-- The filter that burns a block's cues in from a file. -/
def burnFilter (block : SubtitleBlock) (settings : Settings) (path : String) : String :=
  Subtitle.filter path { block.style with fontFile := block.style.fontFile.or block.fontPath }
    block.frame block.vertical settings.width settings.height

/-- The program paints the scene's own nodes, burns the block's cues in over what they show, and
writes that out with nothing above it. -/
def BurnsOnTop (s : Scene τ) (settings : Settings) (block : SubtitleBlock) (path : String)
    (p : Program) : Prop :=
  ∃ below own burned shown,
    s.painted ⟨settings.width, settings.height, settings.fps, block.duration.getD s.duration⟩
      p.output = .ok (below, own) ∧
    p.graph.steps = own.graph.steps ++
      [⟨[below.label], burnFilter block settings path, [burned]⟩,
        ⟨[burned], "format=yuv420p", [shown]⟩] ∧
    p.inputs = own.inputs ∧ p.video = some shown

/-- Attached subtitles are the topmost node. -/
theorem burnsOnTop_of_compile {block : SubtitleBlock} {contents : String}
    (hblock : s.subtitle = some block) (hattach : Subtitle.attach? s path = some (s', contents))
    (h : s'.compile index settings output = .ok p) : s.BurnsOnTop settings block path p := by
  have houtput := output_of_compile h
  rw [Subtitle.attach?, hblock] at hattach
  cases hattach
  obtain ⟨scene, q, hnodes, rfl, -⟩ := exists_of_compile h
  obtain ⟨⟨below, own⟩, hown, htop⟩ := Stage.exists_of_addNodes_concat hnodes
  have hburned : own.applyAll below [burnFilter block settings path] "sub" = (scene, q) :=
    Except.ok.inj htop
  cases hburned
  refine ⟨below, own, "sub" ++ toString own.graph.nextId,
    "scene" ++ toString (own.graph.nextId + 1), ?_, ?_, rfl, rfl⟩
  · rw [houtput]
    exact hown
  · exact List.append_assoc own.graph.steps [_] [_]

end Scene

end Montage
