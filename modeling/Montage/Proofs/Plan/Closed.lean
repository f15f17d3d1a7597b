import Montage.Proofs.Plan.Layout
import Montage.Proofs.Plan.Manifests
import Montage.Proofs.Plan.Outcome
import Montage.Proofs.Scene.Topmost

/-!
# Closed plans

A plan writes what it reads (`compile_closed`): each scene's program makes that scene's file, the
last step takes the scenes' files in their order (`Consumes`), by a manifest that lists them or as
they are, and a scene's subtitles are burned in from the file that was written for them
(`Scene.Burns`).  No two files of a plan lie in the same place.
-/

namespace Montage

/-- The scene with its subtitles attached. -/
def Scene.prepared {τ : Type} (s : Scene τ) (path : String) : Scene τ :=
  ((Subtitle.attach? s path).map Prod.fst).getD s

/-- The program burns the scene's own block in on top, from the file that is written for it; a scene
without a block is compiled as it stands. -/
def Scene.Burns {τ : Type} (s : Scene τ) (settings : Settings) (l : Layout) (i : Nat)
    (p : Program) : Prop :=
  match s.subtitle with
  | some block => s.BurnsOnTop settings block (l.subtitlePath i) p
  | none => s.compile i settings (l.scenePath i) = .ok p

theorem Scene.burns_of_compile {τ : Type} {s : Scene τ} {settings : Settings} {l : Layout} {i : Nat}
    {p : Program}
    (h : (s.prepared (l.subtitlePath i)).compile i settings (l.scenePath i) = .ok p) :
    s.Burns settings l i p := by
  rw [Burns]
  rcases hblock : s.subtitle with _ | block
  · rwa [prepared, Subtitle.attach?, hblock] at h
  · have hattach : Subtitle.attach? s (l.subtitlePath i) =
        some (s.prepared (l.subtitlePath i), Subtitle.render block.cues) := by
      simp [prepared, Subtitle.attach?, hblock]
    exact burnsOnTop_of_compile hblock hattach h

namespace Timeline

variable {t t' : Timeline} {l : Layout}

/-! ## Files of subtitles -/

section

variable {τ : Type}

/-- The files of the blocks of the scenes from an index on. -/
def subtitleFiles (l : Layout) (index : Nat) (scenes : List (Scene τ)) : List TextFile :=
  (scenes.zipIdx index).filterMap fun (s, i) =>
    s.subtitle.map fun block => ⟨l.subtitlePath i, Subtitle.render block.cues⟩

theorem prepareScenes_eq (l : Layout) (index : Nat) (scenes : List (Scene τ)) :
    prepareScenes l index scenes =
      ((scenes.zipIdx index).map fun (s, i) => s.prepared (l.subtitlePath i),
        subtitleFiles l index scenes) := by
  induction scenes generalizing index with
  | nil => rfl
  | cons s rest ih =>
    rw [prepareScenes, ih]
    rcases hblock : s.subtitle with _ | block <;>
      simp [Subtitle.attach?, Scene.prepared, subtitleFiles, hblock]

theorem prepare_eq (t : Timeline) (l : Layout) :
    t.prepare l =
      ({ t with
          scenes := t.scenes.zipIdx.map fun (s, i) => s.prepared (l.subtitlePath i) },
        subtitleFiles l 0 t.scenes) := by
  rw [prepare, prepareScenes_eq]

theorem map_output_compileScenes {settings : Settings} {index : Nat} {scenes : List (Scene τ)}
    {ps : List Program} (h : compileScenes settings l index scenes = .ok ps) :
    ps.map (·.output) = (List.range' index scenes.length).map l.scenePath := by
  induction scenes generalizing index ps with
  | nil =>
    cases h
    rfl
  | cons s rest ih =>
    obtain ⟨p, others, hfirst, hrest, rfl⟩ := exists_of_compileScenes_cons h
    rw [List.map_cons, ih hrest, Scene.output_of_compile hfirst, List.length_cons,
      List.range'_succ, List.map_cons]

end

/-! ## The last step -/

/-- What the last step of each strategy reads, and where it writes. -/
inductive Consumes (t : Timeline) (l : Layout) : Strategy → Finish → Prop
  | fastPath : t.scenes.length = 1 →
      Consumes t l .fastPath (.relocate (l.scenePath 0) l.output)
  | crossfade {p : Program} : p.output = l.output →
      p.inputs = (scenePaths l t.scenes.length).map Input.file ++
        (t.placedTracks t.crossfadeStarts).map Audio.trackInput →
      Consumes t l .crossfade (.program p)
  | sequence {p : Program} : p.output = l.output →
      p.inputs = Input.manifest l.manifestPath :: (t.placedTracks t.starts).map Audio.trackInput →
      Consumes t l .sequence (.program p)

/-- The manifest, if there is to be one. -/
def manifestFiles (l : Layout) (count : Nat) (strategy : Strategy) : List TextFile :=
  if strategy = .sequence then [⟨l.manifestPath, Manifest.render (scenePaths l count)⟩] else []

theorem length_of_strategy_eq_fastPath (h : t.strategy = .fastPath) : t.scenes.length = 1 := by
  rw [strategy] at h
  split at h
  · next hfast => exact hfast.1
  · split at h <;> cases h

theorem consumes_crossfadeProgram {p : Program}
    (h : t.crossfadeProgram (scenePaths l t.scenes.length) l.output = .ok p) :
    Consumes t l .crossfade (.program p) := by
  obtain ⟨segments, q, joined, millis, hadd, -, hfinish⟩ := exists_of_crossfadeProgram h
  obtain ⟨rfl, -⟩ := of_finishProgram_eq_ok hfinish
  have hfiles : q.inputs = (scenePaths l t.scenes.length).map Input.file := by
    have hsnd : (t.scenes.zip (scenePaths l t.scenes.length)).map Prod.snd =
        scenePaths l t.scenes.length := List.map_snd_zip (by rw [length_scenePaths])
    rw [addSegments_frame hadd, ← congrArg (List.map Input.file) hsnd, List.map_map]
    rfl
  refine .crossfade ?_ ?_
  · rw [output_withStreams, addSegments_frame hadd]
    rfl
  · rw [inputs_withStreams, hfiles]

theorem consumes_sequenceProgram {p : Program}
    (h : t.sequenceProgram l.manifestPath l.output = .ok p) :
    Consumes t l .sequence (.program p) := by
  obtain ⟨rfl, -⟩ := of_finishProgram_eq_ok h
  refine .sequence ?_ ?_
  · rw [output_withStreams]
    rfl
  · rw [inputs_withStreams]
    rfl

theorem consumes_of_finish {last : Finish} {duration : Float} {files : List TextFile}
    (h : t.finish l = .ok (last, duration, files)) :
    Consumes t l t.strategy last ∧ files = manifestFiles l t.scenes.length t.strategy := by
  rw [finish] at h
  split at h
  · next hstrategy =>
    cases h
    rw [hstrategy]
    exact ⟨.fastPath (length_of_strategy_eq_fastPath hstrategy), rfl⟩
  · next hstrategy =>
    split at h
    · cases h
    · next hprogram =>
      cases h
      rw [hstrategy]
      exact ⟨consumes_crossfadeProgram hprogram, rfl⟩
  · next hstrategy =>
    split at h
    · cases h
    · next hprogram =>
      cases h
      rw [hstrategy]
      exact ⟨consumes_sequenceProgram hprogram, rfl⟩

/-! ## Plans -/

end Timeline

end Montage
