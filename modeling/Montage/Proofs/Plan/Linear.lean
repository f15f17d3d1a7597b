import Montage.Proofs.Plan.Mixing
import Montage.Proofs.Plan.Segments
import Montage.Proofs.Transition.Wiring

/-!
# Plans of linear programs

Every program of a plan is linear (`compile_linear`): whatever builders it went through, each of its
streams is used exactly once.  The programs are wired by construction; that their inputs can be
counted is what their check has found.
-/

namespace Montage

open Montage.Graph

/-! ## Scenes -/

namespace Scene

variable {τ : Type} {s : Scene τ}

/-- The program of a scene is linear. -/
theorem linear_of_compile {index : Nat} {settings : Settings} {output : String} {p : Program}
    (h : s.compile index settings output = .ok p) : p.Linear := by
  obtain ⟨scene, p', hnodes, rfl, hvalidate⟩ := exists_of_compile h
  have haudio : p'.audio = none := by
    rw [congrArg Program.audio (Stage.addNodes_frame hnodes),
      congrArg Program.audio (addBackground_frame ..)]
    rfl
  have hmapped : Program.mapped { (p'.applyAll scene ["format=yuv420p"] "scene").2 with
      video := some (p'.applyAll scene ["format=yuv420p"] "scene").1.label } =
      [(p'.applyAll scene ["format=yuv420p"] "scene").1.label] :=
    congrArg (fun audio => [_] ++ audio.toList) haudio
  refine Program.Wired.linear (hmapped ▸ wired_of_addNodes hnodes) hvalidate fun kind hmem => ?_
  rw [hmapped, List.mem_singleton] at hmem
  exact tagged_ne_inputLabel _ _ _ _ hmem.symm

end Scene

/-! ## Plans -/

namespace Timeline

open Transition

variable {t t' : Timeline} {l : Layout}

theorem exists_of_compileScenes_cons {τ : Type} {settings : Settings} {index : Nat} {s : Scene τ}
    {rest : List (Scene τ)} {ps : List Program}
    (h : compileScenes settings l index (s :: rest) = .ok ps) :
    ∃ p others, s.compile index settings (l.scenePath index) = .ok p ∧
      compileScenes settings l (index + 1) rest = .ok others ∧ ps = p :: others := by
  rw [compileScenes] at h
  rcases hfirst : s.compile index settings (l.scenePath index) with e | p <;> rw [hfirst] at h
  · cases h
  · dsimp only at h
    rcases hrest : compileScenes settings l (index + 1) rest with e | others <;> rw [hrest] at h <;>
      cases h
    exact ⟨p, others, rfl, rfl, rfl⟩

/-- There is one program for each scene, which is that scene's. -/
theorem getElem?_compileScenes {τ : Type} {settings : Settings} {index : Nat}
    {scenes : List (Scene τ)} {ps : List Program}
    (h : compileScenes settings l index scenes = .ok ps) (i : Nat) :
    (scenes[i]?.map fun s => s.compile (index + i) settings (l.scenePath (index + i))) =
      ps[i]?.map .ok := by
  induction scenes generalizing index ps i with
  | nil =>
    cases h
    rfl
  | cons s rest ih =>
    obtain ⟨p, others, hfirst, hrest, rfl⟩ := exists_of_compileScenes_cons h
    cases i with
    | zero => exact congrArg some hfirst
    | succ i =>
      have hlater := ih hrest i
      rwa [Nat.add_assoc, Nat.add_comm 1 i] at hlater

theorem exists_of_mem_compileScenes {τ : Type} {settings : Settings} {index : Nat}
    {scenes : List (Scene τ)} {ps : List Program}
    (h : compileScenes settings l index scenes = .ok ps) {p : Program} (hp : p ∈ ps) :
    ∃ s ∈ scenes, ∃ number, s.compile number settings (l.scenePath number) = .ok p := by
  obtain ⟨i, hi⟩ := List.mem_iff_getElem?.1 hp
  have hcompile := getElem?_compileScenes h i
  rw [hi] at hcompile
  obtain ⟨s, hs, hsame⟩ := Option.map_eq_some_iff.1 hcompile
  exact ⟨s, List.mem_of_getElem? hs, index + i, hsame⟩

/-- A program that splices the scenes' files is a splice with sounds. -/
theorem exists_of_crossfadeProgram {paths : List String} {output : String} {q : Program}
    (h : t.crossfadeProgram paths output = .ok q) :
    ∃ segments p joined millis,
      addSegments { seed := t.settings.seed.getD 0 } (.empty output 0.0) (t.scenes.zip paths) =
        .ok (segments, p) ∧
      (splice p.graph segments).1 = .ok (joined, millis) ∧
      finishProgram { p with graph := (splice p.graph segments).2, duration := toSeconds millis }
        (some joined) (t.placedTracks t.crossfadeStarts) t.settings.rawMix none = .ok q := by
  rw [crossfadeProgram] at h
  split at h
  · cases h
  · next segments p hadd =>
    rcases hsplice : splice p.graph segments with ⟨_ | ⟨joined, millis⟩, graph⟩ <;>
      rw [hsplice] at h
    · cases h
    · exact ⟨segments, p, joined, millis, hadd, by rw [hsplice], by rw [hsplice]; exact h⟩

/-- Behind a splice of the scenes' files only the joined stream waits. -/
theorem wired_of_splice {picker : Picker} {output : String} {xs : List (Scene Timeline × String)}
    {segments : List Segment} {p : Program}
    (hadd : addSegments picker (.empty output 0.0) xs = .ok (segments, p)) {joined : Context}
    {millis : Int} (hsplice : (splice p.graph segments).1 = .ok (joined, millis))
    (duration : Float) :
    Program.Wired { p with graph := (splice p.graph segments).2, duration } [joined.label] := by
  obtain ⟨-, -, heq, hresult⟩ := eq_of_splice_eq_ok hsplice
  rw [Prod.mk.injEq] at hresult
  obtain ⟨media, hlength, hwired⟩ := wired_addSegments (Program.wired_empty output 0.0) hadd
  rw [heq, hresult.1]
  exact ⟨media, hlength, wired_spliced hwired⟩

theorem linear_of_crossfadeProgram {paths : List String} {output : String} {q : Program}
    (h : t.crossfadeProgram paths output = .ok q) : q.Linear := by
  obtain ⟨segments, p, joined, millis, hadd, hsplice, hfinish⟩ := exists_of_crossfadeProgram h
  obtain ⟨number, hnumber⟩ := exists_label_splice hsplice
  refine linear_of_finishProgram (wired_of_splice hadd hsplice _) rfl (fun kind => ?_) hfinish
  change joined.label ≠ _
  rw [hnumber]
  exact tagged_ne_inputLabel "gl" number _ kind

theorem linear_of_sequenceProgram {manifest output : String} {q : Program}
    (h : t.sequenceProgram manifest output = .ok q) : q.Linear := by
  have hwired := (Program.wired_empty output (toSeconds t.scenesMillis)).addInput
    (.manifest manifest) .video
  refine linear_of_finishProgram hwired rfl (fun kind e => ?_) h
  exact absurd (inputLabel_inj e) (by decide)

theorem linear_of_finish {q : Program} {duration : Float} {files : List TextFile}
    (h : t.finish l = .ok (.program q, duration, files)) : q.Linear := by
  rw [finish] at h
  split at h
  · cases h
  · split at h
    · cases h
    · next hcrossfade =>
      cases h
      exact linear_of_crossfadeProgram hcrossfade
  · split at h
    · cases h
    · next hsequence =>
      cases h
      exact linear_of_sequenceProgram hsequence

/-- A plan is made of the programs of the prepared scenes and of the last step, and of the files
that both read. -/
theorem of_compile_eq_ok {plan : Plan} (h : t.compile l = .ok (t', plan)) :
    t' = (t.prepare l).1 ∧ compileScenes t'.settings l 0 t'.scenes = .ok plan.scenes ∧
      ∃ files, t'.finish l = .ok (plan.finish, plan.duration, files) ∧
        plan.strategy = t'.strategy ∧ plan.files = (t.prepare l).2 ++ files := by
  rw [compile] at h
  split at h
  · cases h
  · dsimp only at h
    split at h
    · cases h
    · next hscenes =>
      split at h
      · cases h
      · next hfinish =>
        cases h
        exact ⟨rfl, hscenes, _, hfinish, rfl, rfl⟩

/-- All programs of a plan are linear. -/
theorem compile_linear (t : Timeline) (l : Layout) {t' : Timeline} {plan : Plan}
    (h : t.compile l = .ok (t', plan)) :
    (∀ p ∈ plan.scenes, p.Linear) ∧ ∀ p, plan.finish = .program p → p.Linear := by
  obtain ⟨-, hscenes, files, hfinish, -⟩ := of_compile_eq_ok h
  refine ⟨fun p hp => ?_, fun p hp => ?_⟩
  · obtain ⟨s, -, number, hcompile⟩ := exists_of_mem_compileScenes hscenes hp
    exact Scene.linear_of_compile hcompile
  · rw [hp] at hfinish
    exact linear_of_finish hfinish

theorem compile_linear_fadedPair :
    ∃ t' plan, fadedPair.compile ⟨"cache", "out.mp4"⟩ = .ok (t', plan) ∧ plan.scenes.length = 2 ∧
      (∀ p ∈ plan.scenes, p.Linear) ∧ ∀ p, plan.finish = .program p → p.Linear := by
  have hcount : (fadedPair.compile ⟨"cache", "out.mp4"⟩).toOption.map
      (fun r => r.2.scenes.length) = some 2 := by
    decide +kernel
  rcases hcompile : fadedPair.compile ⟨"cache", "out.mp4"⟩ with e | ⟨t', plan⟩ <;>
    rw [hcompile] at hcount
  · cases hcount
  · exact ⟨t', plan, rfl, Option.some.inj hcount, compile_linear _ _ hcompile⟩

end Timeline

end Montage
