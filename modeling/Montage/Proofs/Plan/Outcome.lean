import Montage.Proofs.Plan.Linear
import Montage.Proofs.Plan.Size
import Montage.Proofs.Scene.Outcome

/-!
# When timelines compile

`Timeline.Compilable` says what a prepared timeline needs, and `Timeline.Stops` in which order the
lack of it is found.  A timeline compiles exactly if its prepared form is compilable, and is
otherwise stopped (`compile_outcome`).  A graph is never the reason, because the builders wire their
graphs, as long as the timeline fits into memory (`Timeline.Addressable`).
-/

namespace Montage.Timeline

open Montage.Graph Transition

/-! ## What a timeline needs -/

/-- There is more than one scene, and all scenes carry transitions. -/
def Crossfaded (t : Timeline) : Prop :=
  1 < t.scenes.length ∧ ∀ s ∈ t.scenes, s.transition.isSome = true

/-- How long the tail of the scene with the index `i` is: as long as the transition into the next
scene, or into the scene itself if it is the last one. -/
def outgoingMillis (t : Timeline) (i : Nat) (s : Scene Timeline) : Int :=
  (t.scenes[i + 1]?.getD s).transitionMillis

/-- The scene with the index `i` is no shorter than its own transition, and longer than its tail: in
sixty-four bits its length without the tail is more than nothing. -/
def FitsAt (t : Timeline) (i : Nat) (hi : i < t.scenes.length) : Prop :=
  t.scenes[i].transitionMillis ≤ t.scenes[i].millis ∧
    0 < wrap64 (t.scenes[i].millis - t.outgoingMillis i t.scenes[i])

instance (t : Timeline) (i : Nat) (hi : i < t.scenes.length) : Decidable (t.FitsAt i hi) :=
  inferInstanceAs (Decidable (_ ∧ _))

/-- The length that the scene with the index `i` is too short for. -/
def lackingAt (t : Timeline) (i : Nat) (hi : i < t.scenes.length) : Int :=
  if t.scenes[i].millis < t.scenes[i].transitionMillis then t.scenes[i].transitionMillis
  else t.outgoingMillis i t.scenes[i]

/-- What a prepared timeline needs to compile. -/
structure Compilable (t : Timeline) : Prop where
  nonempty : t.scenes ≠ []
  lasts : ∀ s ∈ t.scenes, s.Lasts
  rendered : ∀ s ∈ t.scenes, s.IsRendered
  names_known : t.Crossfaded → ∀ s ∈ t.scenes, s.NameKnown
  fits : t.Crossfaded → ∀ i (hi : i < t.scenes.length), t.FitsAt i hi

/-- A prepared timeline stops with an error: the first of what it lacks, scene by scene within each
kind of lack, and a scene's length before its compositions. -/
inductive Stops (t : Timeline) : CompileError → Prop
  | noScenes : t.scenes = [] → Stops t (.invalid .noScenes)
  | duration {before s after} : t.scenes = before ++ s :: after →
      (∀ earlier ∈ before, earlier.Lasts ∧ earlier.IsRendered) → ¬ s.Lasts →
      Stops t (.invalid (.nonPositiveDuration before.length s.duration))
  | asset {before s after} : t.scenes = before ++ s :: after →
      (∀ earlier ∈ before, earlier.Lasts ∧ earlier.IsRendered) → s.Lasts → ¬ s.IsRendered →
      Stops t unrendered
  | name {before s after spec} : (∀ scene ∈ t.scenes, scene.Lasts ∧ scene.IsRendered) →
      t.Crossfaded → t.scenes = before ++ s :: after → (∀ earlier ∈ before, earlier.NameKnown) →
      s.transition = some spec → ¬ IsKnown spec.name → Stops t (.unknownTransition spec.name)
  | short {i} (hi : i < t.scenes.length) : (∀ s ∈ t.scenes, s.Lasts ∧ s.IsRendered) →
      t.Crossfaded → (∀ s ∈ t.scenes, s.NameKnown) → ¬ t.FitsAt i hi →
      (∀ j, ∀ hj : j < i, t.FitsAt j (Nat.lt_trans hj hi)) →
      Stops t (.shortScene i t.scenes[i].millis (t.lackingAt i hi))

theorem Compilable.not_stops {t : Timeline} (h : t.Compilable) {e : CompileError} :
    ¬ t.Stops e := by
  intro hstops
  cases hstops with
  | noScenes hempty => exact h.nonempty hempty
  | duration hsplit _ hlasts => exact hlasts (h.lasts _ (by simp [hsplit]))
  | asset hsplit _ _ hrendered => exact hrendered (h.rendered _ (by simp [hsplit]))
  | name _ hcrossfaded hsplit _ hspec hunknown =>
    exact hunknown (h.names_known hcrossfaded _ (by simp [hsplit]) _ hspec)
  | short hi _ hcrossfaded _ hunfit _ => exact hunfit (h.fits hcrossfaded _ hi)

/-! ## Scenes -/

theorem lasts_and_rendered_of_compileScenes {settings : Settings} {l : Layout} {index : Nat}
    {scenes : List (Scene Timeline)} {ps : List Program}
    (h : compileScenes settings l index scenes = .ok ps) :
    ∀ s ∈ scenes, s.Lasts ∧ s.IsRendered := by
  induction scenes generalizing index ps with
  | nil => exact fun s hs => absurd hs List.not_mem_nil
  | cons s rest ih =>
    obtain ⟨p, others, hfirst, hrest, -⟩ := exists_of_compileScenes_cons h
    exact List.forall_mem_cons.2 ⟨Scene.of_compile_eq_ok hfirst, ih hrest⟩

/-- The first scene that does not compile is the error. -/
theorem exists_of_compileScenes_eq_error {settings : Settings} {l : Layout} {index : Nat}
    {scenes : List (Scene Timeline)} {e : CompileError}
    (h : compileScenes settings l index scenes = .error e) :
    ∃ before s after, scenes = before ++ s :: after ∧
      (∀ earlier ∈ before, earlier.Lasts ∧ earlier.IsRendered) ∧
      s.compile (index + before.length) settings (l.scenePath (index + before.length)) =
        .error e := by
  induction scenes generalizing index with
  | nil => cases h
  | cons s rest ih =>
    rw [compileScenes] at h
    rcases hfirst : s.compile index settings (l.scenePath index) with e' | p <;> rw [hfirst] at h
    · cases h
      exact ⟨[], s, rest, rfl, fun _ hmem => absurd hmem List.not_mem_nil, hfirst⟩
    · dsimp only at h
      rcases hrest : compileScenes settings l (index + 1) rest with e' | qs <;> rw [hrest] at h <;>
        cases h
      obtain ⟨before, s', after, hsplit, hbefore, hcompile⟩ := ih hrest
      refine ⟨s :: before, s', after, by rw [hsplit, List.cons_append],
        List.forall_mem_cons.2 ⟨Scene.of_compile_eq_ok hfirst, hbefore⟩, ?_⟩
      rwa [List.length_cons, Nat.add_comm before.length 1, ← Nat.add_assoc]

/-! ## Crossfades -/

variable {t : Timeline} {segments : List Segment}

/-- Segments with the lengths of the scenes fit where the scenes do. -/
theorem segment_eq (hdurations : segments.map (·.duration) = t.scenes.map Scene.millis)
    (htransitions : segments.map (·.transitionLength) = t.scenes.map Scene.transitionMillis) {i : Nat}
    (hi : i < segments.length) (hi' : i < t.scenes.length) :
    segments[i].duration = t.scenes[i].millis ∧
      segments[i].transitionLength = t.scenes[i].transitionMillis ∧
      outgoing segments i segments[i] = t.outgoingMillis i t.scenes[i] := by
  have hduration : segments[i].duration = t.scenes[i].millis := by
    have := congrArg (·[i]?) hdurations
    simpa [List.getElem?_eq_getElem hi, List.getElem?_eq_getElem hi'] using this
  have htransition : segments[i].transitionLength = t.scenes[i].transitionMillis := by
    have := congrArg (·[i]?) htransitions
    simpa [List.getElem?_eq_getElem hi, List.getElem?_eq_getElem hi'] using this
  refine ⟨hduration, htransition, ?_⟩
  have hnext := congrArg (·[i + 1]?) htransitions
  simp only [List.getElem?_map] at hnext
  rw [outgoing, outgoingMillis]
  rcases hs : segments[i + 1]? with _ | next <;> rcases ht : t.scenes[i + 1]? with _ | next' <;>
    rw [hs, ht] at hnext
  · exact htransition
  · cases hnext
  · cases hnext
  · exact Option.some.inj hnext

theorem fitsAt_segments_iff (hdurations : segments.map (·.duration) = t.scenes.map Scene.millis)
    (htransitions : segments.map (·.transitionLength) = t.scenes.map Scene.transitionMillis) {i : Nat}
    (hi : i < segments.length) (hi' : i < t.scenes.length) :
    CutAt segments i hi ↔ t.FitsAt i hi' := by
  obtain ⟨hduration, htransition, houtgoing⟩ := segment_eq hdurations htransitions hi hi'
  rw [CutAt, FitsAt, hduration, htransition, houtgoing]

theorem lackingAt_segments (hdurations : segments.map (·.duration) = t.scenes.map Scene.millis)
    (htransitions : segments.map (·.transitionLength) = t.scenes.map Scene.transitionMillis) {i : Nat}
    (hi : i < segments.length) (hi' : i < t.scenes.length) :
    Transition.lackingAt segments i hi = t.lackingAt i hi' := by
  obtain ⟨hduration, htransition, houtgoing⟩ := segment_eq hdurations htransitions hi hi'
  rw [Transition.lackingAt, lackingAt, hduration, htransition, houtgoing]

variable {paths : List String} {output : String}

/-- A program that crossfades all scenes knows their names and cuts them where they fit. -/
theorem of_crossfadeProgram_eq_ok (hpaths : paths.length = t.scenes.length) {q : Program}
    (h : t.crossfadeProgram paths output = .ok q) :
    (∀ s ∈ t.scenes, s.NameKnown) ∧ ∀ i (hi : i < t.scenes.length), t.FitsAt i hi := by
  obtain ⟨segments, p, joined, millis, hadd, hsplice, -⟩ := exists_of_crossfadeProgram h
  obtain ⟨hdurations, htransitions, hlength⟩ := lengths_of_addSegments hpaths hadd
  have hknown := nameKnown_of_addSegments_eq_ok hadd
  rw [List.map_fst_zip (by omega)] at hknown
  have hfits := ((exists_splice_eq_ok_iff p.graph segments).1 ⟨_, hsplice⟩).2
  exact ⟨hknown, fun i hi => (fitsAt_segments_iff hdurations htransitions (by omega) hi).1
    (hfits i (by omega))⟩

/-- A program that does not crossfade the scenes stops at a name or else at a length. -/
theorem stops_of_crossfadeProgram_eq_error (hsize : t.entries ≤ UInt64.size)
    (hscenes : ∀ s ∈ t.scenes, s.Lasts ∧ s.IsRendered) (hcrossfaded : t.Crossfaded)
    (hpaths : paths.length = t.scenes.length) {e : CompileError}
    (h : t.crossfadeProgram paths output = .error e) : t.Stops e := by
  have hfst : (t.scenes.zip paths).map Prod.fst = t.scenes := List.map_fst_zip (by omega)
  rw [crossfadeProgram] at h
  split at h
  · next e' hadd =>
    cases h
    obtain ⟨before, s, after, spec, hsplit, hbefore, hspec, hunknown, rfl⟩ :=
      exists_of_addSegments_eq_error (by rw [hfst]; exact hcrossfaded.2) hadd
    rw [hfst] at hsplit
    exact .name hscenes hcrossfaded hsplit hbefore hspec hunknown
  · next segments p hadd =>
    obtain ⟨hdurations, htransitions, hlength⟩ := lengths_of_addSegments hpaths hadd
    have hknown := nameKnown_of_addSegments_eq_ok hadd
    rw [hfst] at hknown
    rcases hsplice : splice p.graph segments with ⟨e' | ⟨joined, millis⟩, graph⟩ <;>
      rw [hsplice] at h
    · cases h
      have htwo := hcrossfaded.1
      obtain ⟨i, hi, hunfit, hbefore, rfl⟩ :=
        exists_of_splice_eq_error (by omega) (congrArg Prod.fst hsplice)
      have hi' : i < t.scenes.length := by omega
      rw [(segment_eq hdurations htransitions hi hi').1,
        lackingAt_segments hdurations htransitions hi hi']
      exact .short hi' hscenes hcrossfaded hknown
        (fun hfit => hunfit ((fitsAt_segments_iff hdurations htransitions hi hi').2 hfit))
        fun j hj => (fitsAt_segments_iff hdurations htransitions _ _).1 (hbefore j hj)
    · have htracks := t.length_placedTracks_le t.crossfadeStarts
      have hinputs : p.inputs.length = t.scenes.length := by
        rw [addSegments_frame hadd]
        simp [Program.empty, hpaths]
      have hwired := wired_of_splice hadd (congrArg Prod.fst hsplice) (toSeconds millis)
      rw [hsplice] at hwired
      dsimp only at h
      rw [finishProgram_eq_ok hwired rfl (by rw [hinputs]; omega)] at h
      cases h

/-- The scenes can always be played from a manifest. -/
theorem sequenceProgram_ne_error (hsize : t.entries ≤ UInt64.size) (hne : t.scenes ≠ [])
    (manifest output : String) (e : CompileError) :
    t.sequenceProgram manifest output ≠ .error e := by
  have htracks := t.length_placedTracks_le t.starts
  have hpos := List.length_pos_iff.2 hne
  have hwired := (Program.wired_empty output (toSeconds t.scenesMillis)).addInput
    (.manifest manifest) .video
  have hfinish : t.sequenceProgram manifest output = .ok _ :=
    finishProgram_eq_ok hwired rfl (by change 1 + _ ≤ _; omega)
  rw [hfinish]
  exact nofun

/-! ## Plans -/

theorem strategy_eq_crossfade_iff (t : Timeline) : t.strategy = .crossfade ↔ t.Crossfaded := by
  rw [strategy, Crossfaded]
  split
  · next hfast =>
    refine ⟨nofun, fun h => ?_⟩
    omega
  · split
    · next hall => simpa using hall
    · next hall =>
      refine ⟨nofun, fun h => absurd ?_ hall⟩
      simpa using h

theorem length_scenePaths (l : Layout) (count : Nat) : (scenePaths l count).length = count := by
  rw [scenePaths, List.length_map, List.length_range]

/-- A last step that cannot be made stops at a name or else at a length. -/
theorem stops_of_finish_eq_error {l : Layout} (hsize : t.entries ≤ UInt64.size)
    (hne : t.scenes ≠ []) (hscenes : ∀ s ∈ t.scenes, s.Lasts ∧ s.IsRendered) {e : CompileError}
    (h : t.finish l = .error e) : t.Stops e := by
  rw [finish] at h
  split at h
  · cases h
  · next hstrategy =>
    split at h
    · next hcrossfade =>
      cases h
      exact stops_of_crossfadeProgram_eq_error hsize hscenes
        ((strategy_eq_crossfade_iff t).1 hstrategy) (length_scenePaths ..) hcrossfade
    · cases h
  · split at h
    · next hsequence => exact absurd hsequence (sequenceProgram_ne_error hsize hne _ _ _)
    · cases h

/-- If the scenes are crossfaded, a last step is the program that does so. -/
theorem exists_crossfadeProgram_of_finish {l : Layout} (hcrossfaded : t.Crossfaded)
    {r : Finish × Float × List TextFile} (h : t.finish l = .ok r) :
    ∃ q, t.crossfadeProgram (scenePaths l t.scenes.length) l.output = .ok q := by
  rw [finish, (strategy_eq_crossfade_iff t).2 hcrossfaded] at h
  dsimp only at h
  split at h
  · cases h
  · next q hcrossfade => exact ⟨q, hcrossfade⟩

theorem scenes_prepare_eq_nil_iff (t : Timeline) (l : Layout) :
    (t.prepare l).1.scenes = [] ↔ t.scenes = [] := by
  rw [← List.length_eq_zero_iff, ← List.length_eq_zero_iff]
  change (prepareScenes l 0 t.scenes).1.length = 0 ↔ _
  rw [length_prepareScenes]

theorem compilable_of_compile_eq_ok {l : Layout} {t' : Timeline} {plan : Plan}
    (h : t.compile l = .ok (t', plan)) : (t.prepare l).1.Compilable := by
  have hne : t.scenes ≠ [] := by
    rintro hempty
    rw [compile, hempty] at h
    cases h
  obtain ⟨rfl, hscenes, files, hfinish, -⟩ := of_compile_eq_ok h
  have hcrossfade := fun hcrossfaded =>
    (exists_crossfadeProgram_of_finish hcrossfaded hfinish).elim fun _ hprogram =>
      of_crossfadeProgram_eq_ok (length_scenePaths ..) hprogram
  exact
    { nonempty := fun hempty => hne ((scenes_prepare_eq_nil_iff t l).1 hempty)
      lasts := fun s hs => (lasts_and_rendered_of_compileScenes hscenes s hs).1
      rendered := fun s hs => (lasts_and_rendered_of_compileScenes hscenes s hs).2
      names_known := fun hcrossfaded => (hcrossfade hcrossfaded).1
      fits := fun hcrossfaded => (hcrossfade hcrossfaded).2 }

theorem stops_of_compile_eq_error {l : Layout} (hsize : t.Addressable) {e : CompileError}
    (h : t.compile l = .error e) : (t.prepare l).1.Stops e := by
  have hentries : (t.prepare l).1.entries ≤ UInt64.size := by
    have := entries_prepare_le t l
    rw [Addressable] at hsize
    change _ ≤ 18446744073709551616
    omega
  rw [compile] at h
  split at h
  · next hempty =>
    cases h
    exact .noScenes ((scenes_prepare_eq_nil_iff t l).2 (List.isEmpty_iff.1 hempty))
  · next hempty =>
    have hne : (t.prepare l).1.scenes ≠ [] := fun h =>
      hempty (List.isEmpty_iff.2 ((scenes_prepare_eq_nil_iff t l).1 h))
    dsimp only at h
    split at h
    · next hscenes =>
      cases h
      obtain ⟨before, s, after, hsplit, hbefore, hcompile⟩ :=
        exists_of_compileScenes_eq_error hscenes
      have hnodes := length_nodes_lt_entries (t := (t.prepare l).1) (s := s) (by simp [hsplit])
      rw [Nat.zero_add] at hcompile
      rcases Scene.of_compile_eq_error (by omega) hcompile with
        ⟨hlasts, rfl⟩ | ⟨hlasts, hrendered, rfl⟩
      · exact .duration hsplit hbefore hlasts
      · exact .asset hsplit hbefore hlasts hrendered
    · next hscenes =>
      split at h
      · next hfinish =>
        cases h
        exact stops_of_finish_eq_error hentries hne (lasts_and_rendered_of_compileScenes hscenes)
          hfinish
      · cases h

end Montage.Timeline
