import Montage.Scene.Chain

/-!
# Programs of scenes

A scene becomes a silent program: its background is the first input, its nodes are laid over it in
their order, and a last step brings the picture into the common pixel format.
-/

namespace Montage.Scene

variable {τ : Type}

/-- The colour of a scene without a background. -/
def defaultColor : String := "black"

/-- Starts the program with the scene's background. -/
def addBackground (s : Scene τ) (stage : Stage) (p : Program) : Graph.Context × Program :=
  match s.background with
  | some (.image path) =>
    let (index, p) := p.addInput (.loopedImage path stage.duration stage.fps)
    p.applyAll (.ofInput index .video)
      ["scale=" ++ toString stage.width.toNat ++ ":" ++ toString stage.height.toNat, "setsar=1"]
      "bg"
  | some (.color color) =>
    let (index, p) := p.addInput (.generated (stage.canvas color stage.width stage.height))
    (.ofInput index .video, p)
  | none =>
    let (index, p) := p.addInput (.generated (stage.canvas defaultColor stage.width stage.height))
    (.ofInput index .video, p)

def stage (s : Scene τ) (settings : Settings) : Stage :=
  ⟨settings.width, settings.height, settings.fps, s.duration⟩

/-- The program of the scene with the given number, which has to last. -/
def compile (s : Scene τ) (index : Nat) (settings : Settings) (output : String) :
    Except CompileError Program :=
  if s.duration <= 0.0 then .error (.invalid (.nonPositiveDuration index s.duration))
  else
    let (scene, p) := s.addBackground (s.stage settings) (.empty output s.duration)
    match (s.stage settings).addNodes p scene s.nodes with
    | .error e => .error e
    | .ok (scene, p) =>
      let (scene, p) := p.applyAll scene ["format=yuv420p"] "scene"
      let p := { p with video := some scene.label }
      match p.validate with
      | .error e => .error e
      | .ok () => .ok p

end Montage.Scene
