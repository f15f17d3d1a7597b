import Montage.Proofs.Render.Planned
import Montage.Proofs.Render.Resolving

/-!
# What commands read

A unit's commands come from its plan, and the plan tells which files of the render each of them
reads (`RenderUnit.Command`): a scene's command the files of its compositions and of its subtitles
(`RenderUnit.HasPlan.command_scene`), the last one what it puts together
(`RenderUnit.HasPlan.command_finish`).
-/

namespace Montage

theorem Program.getLast?_args (p : Program) (settings : Settings) :
    (p.args settings).getLast? = some p.output := by
  rw [args, List.getLast?_append]
  rfl

namespace RenderUnit

/-! ## Commands of a unit -/

/-- The plan is what the unit's timeline compiles to, once the files of its children are attached
and its assets are resolved. -/
def HasPlan (u : RenderUnit) (t : Timeline) (plan : Plan) : Prop :=
  u.attachPlanned.timeline.Resolves t ∧ ∃ t', t.compile u.site.layout = .ok (t', plan)

/-- The files of the children in a scene. -/
def outputsIn (u : RenderUnit) (scene : Nat) : List String :=
  (u.children.filter (·.scene == scene)).map (·.unit.site.output)

/-- The file of a scene's subtitles, if it has any. -/
def captions (u : RenderUnit) (i : Nat) (s : Scene Timeline) : List String :=
  if s.subtitle.isSome then [u.site.layout.subtitlePath i] else []

/-- A command of the unit, and the files of the render that it reads. -/
inductive Command (u : RenderUnit) (args : List String) : List String → Prop
  | scene {t : Timeline} {plan : Plan} {i : Nat} {s : Scene Timeline} {p : Program} :
      u.HasPlan t plan → t.scenes[i]? = some s → plan.scenes[i]? = some p →
      args = p.args t.settings → s.Burns t.settings u.site.layout i p →
      (∀ output ∈ u.outputsIn i, Input.file output ∈ p.inputs) →
      Command u args (u.captions i s ++ u.outputsIn i)
  | crossfade {t : Timeline} {plan : Plan} {p : Program} :
      u.HasPlan t plan → plan.finish = .program p → args = p.args t.settings →
      (Timeline.scenePaths u.site.layout t.scenes.length).map Input.file <+: p.inputs →
      Command u args (Timeline.scenePaths u.site.layout t.scenes.length)
  | sequence {t : Timeline} {plan : Plan} {p : Program} :
      u.HasPlan t plan → plan.finish = .program p → args = p.args t.settings →
      Input.manifest u.site.layout.manifestPath ∈ p.inputs →
      ⟨u.site.layout.manifestPath,
        Manifest.render (Timeline.scenePaths u.site.layout t.scenes.length)⟩ ∈ plan.files →
      Command u args
        (u.site.layout.manifestPath :: Timeline.scenePaths u.site.layout t.scenes.length)

/-! ## Plans -/

variable {site : Site} {t t₀ : Timeline} {plan : Plan} {u : RenderUnit} {p : Program}

theorem length_scenes_prepare (t : Timeline) (l : Layout) :
    (t.prepare l).1.scenes.length = t.scenes.length := by
  simp [Timeline.prepare_eq]

/-- Each scene's program makes that scene's file. -/
theorem HasPlan.outputs_eq (h : u.HasPlan t plan) :
    plan.scenes.map (·.output) = Timeline.scenePaths u.site.layout t.scenes.length := by
  obtain ⟨-, t', hcompile⟩ := h
  obtain ⟨rfl, hscenes, -⟩ := Timeline.of_compile_eq_ok hcompile
  rw [Timeline.map_output_compileScenes hscenes, length_scenes_prepare, Timeline.scenePaths,
    List.range_eq_range']

theorem HasPlan.consumes (h : u.HasPlan t plan) :
    (t.prepare u.site.layout).1.Consumes u.site.layout plan.strategy plan.finish ∧
      plan.files = Timeline.subtitleFiles u.site.layout 0 t.scenes ++
        Timeline.manifestFiles u.site.layout t.scenes.length plan.strategy := by
  obtain ⟨-, t', hcompile⟩ := h
  obtain ⟨rfl, -, files, hfinish, hstrategy, hfiles⟩ := Timeline.of_compile_eq_ok hcompile
  obtain ⟨hconsumes, rfl⟩ := Timeline.consumes_of_finish hfinish
  rw [← hstrategy] at hconsumes hfiles
  rw [length_scenes_prepare, Timeline.prepare_eq] at hfiles
  exact ⟨hconsumes, hfiles⟩

/-- The program of a scene is that of the scene with its subtitles attached. -/
theorem HasPlan.exists_scene (h : u.HasPlan t plan) {i : Nat} (hp : plan.scenes[i]? = some p) :
    ∃ s, t.scenes[i]? = some s ∧ (s.prepared (u.site.layout.subtitlePath i)).compile i t.settings
      (u.site.layout.scenePath i) = .ok p := by
  obtain ⟨-, t', hcompile⟩ := h
  obtain ⟨rfl, hscenes, -⟩ := Timeline.of_compile_eq_ok hcompile
  have hat := Timeline.getElem?_compileScenes hscenes i
  have hprepared : (t.prepare u.site.layout).1.scenes[i]? =
      t.scenes[i]?.map fun s => s.prepared (u.site.layout.subtitlePath i) := by
    simp [Timeline.prepare_eq, Option.map_map, Function.comp_def]
  rw [hprepared, hp, Option.map_map, Option.map_some, Nat.zero_add] at hat
  obtain ⟨s, hs, hcompiled⟩ := Option.map_eq_some_iff.1 hat
  exact ⟨s, hs, hcompiled⟩

/-- The program of a scene reads the files of the children in it. -/
theorem HasPlan.mem_inputs (h : (build site t₀).HasPlan t plan) {i : Nat}
    (hp : plan.scenes[i]? = some p) :
    ∀ output ∈ (build site t₀).outputsIn i, Input.file output ∈ p.inputs := by
  obtain ⟨s, hs, hcompile⟩ := h.exists_scene hp
  intro output houtput
  obtain ⟨child, hchild, rfl⟩ := List.mem_map.1 houtput
  rw [List.mem_filter, children_build, beq_iff_eq] at hchild
  obtain ⟨hmem, rfl⟩ := hchild
  obtain ⟨c, hc, rfl⟩ := List.mem_map.1 hmem
  obtain ⟨s₀, hs₀, n, hn, inner, hkind⟩ := exists_node_of_mem_compositions site hc
  have hplanned : (build site t₀).attachPlanned.timeline.scenes[c.scene]? =
      some (plannedScene site c.scene s₀) := by
    rw [attachPlanned_build]
    simp [plannedTimeline, hs₀]
  obtain ⟨s', hs', hresolves⟩ := exists_getElem?_of_forall₂ h.1.scenes hplanned
  obtain rfl := Option.some.inj (hs'.symm.trans hs)
  obtain ⟨n', hn', inner', hkind'⟩ := hresolves.shows ⟨n, hn, inner, hkind⟩
  rw [site_build]
  exact Scene.mem_inputs_of_compile (Scene.nodes_subset_prepared _ _ hn') hkind' hcompile

theorem HasPlan.keeps_file (h : u.HasPlan t plan) :
    ∀ f ∈ plan.files, u.site.layout.Keeps f.path := by
  intro f hf
  rw [h.consumes.2, List.mem_append] at hf
  rcases hf with hf | hf
  · obtain ⟨⟨s, i⟩, -, hs⟩ := List.mem_filterMap.1 hf
    obtain ⟨block, -, rfl⟩ := Option.map_eq_some_iff.1 hs
    exact .subtitles i
  · rw [Timeline.manifestFiles] at hf
    split at hf
    · rw [List.mem_singleton.1 hf]
      exact .manifest
    · cases hf

theorem HasPlan.keeps_output (h : u.HasPlan t plan) :
    ∀ p ∈ plan.scenes, u.site.layout.Keeps p.output := by
  intro p hp
  have hpath := List.mem_map_of_mem (f := fun p : Program => p.output) hp
  rw [h.outputs_eq] at hpath
  obtain ⟨i, -, hi⟩ := List.mem_map.1 hpath
  rw [← hi]
  exact .scene i

/-- A path of a scene's file is that of a program's output. -/
theorem HasPlan.exists_output (h : u.HasPlan t plan) {path : String}
    (hpath : path ∈ Timeline.scenePaths u.site.layout t.scenes.length) :
    ∃ p ∈ plan.scenes, p.output = path := by
  rw [← h.outputs_eq] at hpath
  exact List.mem_map.1 hpath

/-- The command of a scene reads files of the plan and of children. -/
theorem HasPlan.command_scene (h : (build site t₀).HasPlan t plan) (hp : p ∈ plan.scenes) :
    ∃ reads, (build site t₀).Command (p.args t.settings) reads ∧ ∀ path ∈ reads,
      (∃ f ∈ plan.files, f.path = path) ∨
        ∃ c ∈ (build site t₀).children, c.unit.site.output = path := by
  obtain ⟨i, hi⟩ := List.getElem?_of_mem hp
  obtain ⟨s, hs, hcompile⟩ := h.exists_scene hi
  refine ⟨_, .scene h hs hi rfl (Scene.burns_of_compile hcompile) (h.mem_inputs hi), ?_⟩
  intro path hpath
  rcases List.mem_append.1 hpath with hpath | hpath
  · rw [captions] at hpath
    split at hpath
    · next hblock =>
      obtain ⟨block, hblock⟩ := Option.isSome_iff_exists.1 hblock
      have hfile : ⟨(build site t₀).site.layout.subtitlePath i, Subtitle.render block.cues⟩ ∈
          plan.files := by
        rw [h.consumes.2]
        exact List.mem_append_left _ (List.mem_filterMap.2
          ⟨(s, i), List.mk_mem_zipIdx_iff_getElem?.2 hs, by simp [hblock]⟩)
      exact Or.inl ⟨_, hfile, (List.mem_singleton.1 hpath).symm⟩
    · cases hpath
  · obtain ⟨c, hc, rfl⟩ := List.mem_map.1 hpath
    exact Or.inr ⟨c, (List.mem_filter.1 hc).1, rfl⟩

/-- The last command makes the output of files of the plan and of the scenes. -/
theorem HasPlan.command_finish (h : u.HasPlan t plan) (hp : plan.finish = .program p) :
    p.output = u.site.output ∧ ∃ reads, u.Command (p.args t.settings) reads ∧ ∀ path ∈ reads,
      (∃ f ∈ plan.files, f.path = path) ∨ ∃ q ∈ plan.scenes, q.output = path := by
  obtain ⟨hconsumes, hfiles⟩ := h.consumes
  rw [hp] at hconsumes
  generalize plan.strategy = strategy at hconsumes hfiles
  cases hconsumes with
  | crossfade houtput hinputs =>
    rw [length_scenes_prepare] at hinputs
    refine ⟨houtput, _, .crossfade h hp rfl (hinputs ▸ List.prefix_append _ _), ?_⟩
    exact fun path hpath => Or.inr (h.exists_output hpath)
  | sequence houtput hinputs =>
    have hmanifest : ⟨u.site.layout.manifestPath,
        Manifest.render (Timeline.scenePaths u.site.layout t.scenes.length)⟩ ∈ plan.files := by
      rw [hfiles]
      exact List.mem_append_right _ (List.mem_singleton_self _)
    refine ⟨houtput, _, .sequence h hp rfl (hinputs ▸ List.mem_cons_self) hmanifest, ?_⟩
    intro path hpath
    rcases List.mem_cons.1 hpath with rfl | hpath
    · exact Or.inl ⟨_, hmanifest, rfl⟩
    · exact Or.inr (h.exists_output hpath)

/-- A file that is moved into place is that of the only scene. -/
theorem HasPlan.of_relocate (h : u.HasPlan t plan) {source target : String}
    (hp : plan.finish = .relocate source target) :
    u.site.layout.Keeps source ∧ target = u.site.output := by
  have hconsumes := h.consumes.1
  rw [hp] at hconsumes
  generalize plan.strategy = strategy at hconsumes
  cases hconsumes
  exact ⟨.scene 0, rfl⟩

end RenderUnit

end Montage
