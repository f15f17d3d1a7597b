import Montage.Audio
import Montage.Plan.Layout
import Montage.Plan.Manifest
import Montage.Program.Command
import Montage.Scene.Compile
import Montage.Subtitle.Attach
import Montage.Timeline.Offsets
import Montage.Transition.Picker
import Montage.Transition.Splice

/-!
# Plans

`Timeline.compile` turns a timeline into a plan: the text files to write first, a program for each
scene, and a last step that makes the output of the scenes' files.  A single scene at high speed is
moved into place; scenes that all carry a transition are spliced; others are played one after
another from a manifest.
-/

namespace Montage

/-- How the scenes' files become the output. -/
inductive Strategy where
  | fastPath
  | crossfade
  | sequence
  deriving Repr, DecidableEq, Inhabited

def Strategy.name : Strategy → String
  | .fastPath => "fast_path"
  | .crossfade => "crossfade"
  | .sequence => "sequence"

/-- A text file that is written before any program runs. -/
structure TextFile where
  path : String
  contents : String
  deriving Repr, DecidableEq, Inhabited

/-- The last step of a plan. -/
inductive Finish where
  | relocate (source target : String)
  | program (p : Program)
  deriving Repr, Inhabited

/-- All that is needed to make one output. -/
structure Plan where
  strategy : Strategy
  files : List TextFile
  scenes : List Program
  finish : Finish
  duration : Float
  /-- The frames that all programs process together. -/
  totalFrames : Nat
  deriving Repr, Inhabited

namespace Timeline

def strategy (t : Timeline) : Strategy :=
  if t.scenes.length = 1 ∧ t.settings.speed = .high then .fastPath
  else if 1 < t.scenes.length ∧ t.scenes.all (·.transition.isSome) then .crossfade
  else .sequence

/-! ## Preparing -/

/-- The scenes from an index on with their subtitles attached, and the subtitle files. -/
def prepareScenes {τ : Type} (l : Layout) (index : Nat) :
    List (Scene τ) → List (Scene τ) × List TextFile
  | [] => ([], [])
  | s :: rest =>
    let (scenes, files) := prepareScenes l (index + 1) rest
    let path := l.subtitlePath index
    match Subtitle.attach? s path with
    | some (s, contents) => (s :: scenes, ⟨path, contents⟩ :: files)
    | none => (s :: scenes, files)

/-- The timeline with its subtitles attached, and the subtitle files. -/
def prepare (t : Timeline) (l : Layout) : Timeline × List TextFile :=
  let (scenes, files) := prepareScenes l 0 t.scenes
  ({ t with scenes }, files)

/-! ## Scenes -/

/-- The programs of the scenes from an index on, up to the first that fails. -/
def compileScenes {τ : Type} (settings : Settings) (l : Layout) (index : Nat) :
    List (Scene τ) → Except CompileError (List Program)
  | [] => .ok []
  | s :: rest =>
    match s.compile index settings (l.scenePath index) with
    | .error e => .error e
    | .ok p =>
      match compileScenes settings l (index + 1) rest with
      | .error e => .error e
      | .ok ps => .ok (p :: ps)

/-- The files of so many scenes. -/
def scenePaths (l : Layout) (count : Nat) : List String := (List.range count).map l.scenePath

/-! ## Joining -/

/-- Reads the scenes' files in order and resolves their transitions. -/
def addSegments {τ : Type} (picker : Transition.Picker) (p : Program) :
    List (Scene τ × String) → Except CompileError (List Transition.Segment × Program)
  | [] => .ok ([], p)
  | (s, path) :: rest =>
    match s.transition with
    | none => .error (.invalid .noTransition)
    | some spec =>
      let (index, p) := p.addInput (.file path)
      match picker.resolve spec.name with
      | (.error e, _) => .error e
      | (.ok name, picker) =>
        match addSegments picker p rest with
        | .error e => .error e
        | .ok (segments, p) =>
          .ok (⟨.ofInput index .video, s.millis, name, toMillis spec.duration⟩ :: segments, p)

/-- A program with its sounds mixed in and its streams named, once it is checked. -/
def finishProgram (p : Program) (video : Option Graph.Context) (tracks : List PlacedTrack)
    (raw : Bool) (fallback : Option Graph.Label) : Except CompileError Program :=
  let (streams, p) := Audio.mix p video tracks raw
  let p := { p with
    video := (streams.video.map Graph.Context.label).or fallback
    audio := streams.audio.map Graph.Context.label }
  match p.validate with
  | .error e => .error e
  | .ok () => .ok p

/-- The program that splices the scenes' files. -/
def crossfadeProgram (t : Timeline) (paths : List String) (output : String) :
    Except CompileError Program :=
  let picker : Transition.Picker := { seed := t.settings.seed.getD 0 }
  match addSegments picker (.empty output 0.0) (t.scenes.zip paths) with
  | .error e => .error e
  | .ok (segments, p) =>
    match Transition.splice p.graph segments with
    | (.error e, _) => .error e
    | (.ok (video, millis), graph) =>
      finishProgram { p with graph, duration := toSeconds millis } (some video)
        (t.placedTracks t.crossfadeStarts) t.settings.rawMix none

/-- The program that plays the scenes' files from a manifest. -/
def sequenceProgram (t : Timeline) (manifest output : String) : Except CompileError Program :=
  let (_, p) := (Program.empty output (toSeconds t.scenesMillis)).addInput (.manifest manifest)
  finishProgram p none (t.placedTracks t.starts) t.settings.rawMix
    (some (Graph.inputLabel 0 .video))

/-! ## Compiling -/

/-- The last step, the length of the output, and the files that the step reads. -/
def finish (t : Timeline) (l : Layout) :
    Except CompileError (Finish × Float × List TextFile) :=
  let paths := scenePaths l t.scenes.length
  match t.strategy with
  | .fastPath =>
    .ok (.relocate (l.scenePath 0) l.output, (t.scenes.head?.map (·.duration)).getD 0.0, [])
  | .crossfade =>
    match t.crossfadeProgram paths l.output with
    | .error e => .error e
    | .ok p => .ok (.program p, p.duration, [])
  | .sequence =>
    match t.sequenceProgram l.manifestPath l.output with
    | .error e => .error e
    | .ok p => .ok (.program p, p.duration, [⟨l.manifestPath, Manifest.render paths⟩])

/-- The frames of all programs; a last program processes every frame again. -/
def totalFrames (t : Timeline) : Finish → Nat
  | .relocate .. => t.frames
  | .program _ => t.frames * 2 % UInt64.size

/-- The plan of a timeline, and the timeline with its subtitles attached.  Compositions have to be
rendered already. -/
def compile (t : Timeline) (l : Layout) : Except CompileError (Timeline × Plan) :=
  if t.scenes.isEmpty then .error (.invalid .noScenes)
  else
    let (t, files) := t.prepare l
    match compileScenes t.settings l 0 t.scenes with
    | .error e => .error e
    | .ok scenes =>
      match t.finish l with
      | .error e => .error e
      | .ok (finish, duration, more) =>
        .ok (t,
          { strategy := t.strategy
            files := files ++ more
            scenes
            finish
            duration
            totalFrames := t.totalFrames finish })

end Timeline

namespace Plan

/-- The arguments of each scene's program. -/
def sceneCommands (plan : Plan) (settings : Settings) : List (List String) :=
  plan.scenes.map fun p => p.args settings

/-- The arguments of the last program, if there is one. -/
def finalCommand (plan : Plan) (settings : Settings) : Option (List String) :=
  match plan.finish with
  | .program p => some (p.args settings)
  | .relocate .. => none

end Plan

end Montage
