import Montage.Proofs.Plan.Playable
import Montage.Proofs.Render.Attachments
import Montage.Proofs.Scene.Sources
import Montage.Proofs.Template.Compositions
import Montage.Render.Planned

/-!
# Plans of trees

Planning a tree of units compiles them in postorder and stops at the first that does not compile
(`RenderUnit.firstFailure_of_plan`); the tree of plans mirrors the tree of units
(`PlannedUnit.Mirrors`).  A unit of a loaded template compiles unless its lengths and transitions
are at fault, because its compositions have their files and are not empty
(`RenderUnit.plan_build_outcome`).
-/

namespace Montage

/-- The program of the child's scene reads the file that the child makes. -/
def PlannedUnit.Reads (p : PlannedUnit) (c : Child RenderUnit) : Prop :=
  ∃ program, p.plan.scenes[c.scene]? = some program ∧
    ∃ input ∈ program.inputs, input.source = c.unit.site.output

/-- The plans are those of the unit and of all units below it, and every unit reads the files of its
children where these belong. -/
inductive PlannedUnit.Mirrors : PlannedUnit → RenderUnit → Prop
  | intro {p : PlannedUnit} {u : RenderUnit} : p.id = u.site.id → p.output = u.site.output →
      (∀ c ∈ u.children, p.Reads c) → p.children.length = u.children.length →
      (∀ x ∈ p.children.zip u.children, Mirrors x.1 x.2.unit) → Mirrors p u

namespace RenderUnit

/-- The unit's own plan. -/
def compiled (u : RenderUnit) : Except CompileError (Timeline × Plan) :=
  u.attachPlanned.timeline.compile u.site.layout

def Compiles (u : RenderUnit) : Prop := ∃ r, u.compiled = .ok r

/-- The unit's scenes last, and their transitions can be made if they are crossfaded. -/
def Playable (u : RenderUnit) : Prop := (u.timeline.prepare u.site.layout).1.Playable

/-! ## The order of planning -/

mutual
/-- The unit and all units below it, a unit behind those below it. -/
def postorder : RenderUnit → List RenderUnit
  | ⟨site, timeline, children⟩ => postorderAll children ++ [⟨site, timeline, children⟩]
/-- The children and all units below them. -/
def postorderAll : List (Child RenderUnit) → List RenderUnit
  | [] => []
  | ⟨_, _, unit⟩ :: rest => postorder unit ++ postorderAll rest
end

mutual
theorem mem_postorder_iff {v : RenderUnit} : (u : RenderUnit) → (v ∈ u.postorder ↔ v ∈ u.units)
  | ⟨site, timeline, children⟩ => by
    rw [postorder, units, List.mem_append, List.mem_singleton, List.mem_cons, or_comm,
      mem_postorderAll_iff children]
theorem mem_postorderAll_iff {v : RenderUnit} :
    (children : List (Child RenderUnit)) → (v ∈ postorderAll children ↔ v ∈ unitsBelow children)
  | [] => Iff.rfl
  | ⟨_, _, unit⟩ :: rest => by
    rw [postorderAll, unitsBelow, List.mem_append, List.mem_append, mem_postorder_iff unit,
      mem_postorderAll_iff rest]
end

/-- The error is that of the first of the units that does not compile. -/
def FirstFailure (us : List RenderUnit) (e : CompileError) : Prop :=
  ∃ before u after, us = before ++ u :: after ∧ (∀ v ∈ before, v.Compiles) ∧ u.compiled = .error e

variable {us vs : List RenderUnit} {u : RenderUnit} {e : CompileError}

theorem FirstFailure.append (h : FirstFailure us e) (vs : List RenderUnit) :
    FirstFailure (us ++ vs) e := by
  obtain ⟨before, u, after, rfl, hbefore, hu⟩ := h
  exact ⟨before, u, after ++ vs, by rw [List.append_assoc, List.cons_append], hbefore, hu⟩

theorem FirstFailure.of_append (hus : ∀ v ∈ us, v.Compiles) (h : FirstFailure vs e) :
    FirstFailure (us ++ vs) e := by
  obtain ⟨before, u, after, rfl, hbefore, hu⟩ := h
  refine ⟨us ++ before, u, after, (List.append_assoc ..).symm, fun v hv => ?_, hu⟩
  rcases List.mem_append.1 hv with hv | hv
  · exact hus v hv
  · exact hbefore v hv

theorem firstFailure_singleton (hu : u.compiled = .error e) : FirstFailure [u] e :=
  ⟨[], u, [], rfl, fun _ hv => absurd hv List.not_mem_nil, hu⟩

theorem plan_eq (u : RenderUnit) :
    u.plan = match planAll u.children with
      | .error e => .error e
      | .ok planned =>
        match u.compiled with
        | .error e => .error e
        | .ok (t, plan) => .ok ⟨u.site.id, u.site.output, t.settings, plan, planned⟩ := by
  cases u
  rw [plan]
  rfl

/-- A plan of a tree has the plan of the unit, and those of its children. -/
theorem of_plan_eq_ok {p : PlannedUnit} (h : u.plan = .ok p) :
    ∃ planned t plan, planAll u.children = .ok planned ∧ u.compiled = .ok (t, plan) ∧
      p = ⟨u.site.id, u.site.output, t.settings, plan, planned⟩ := by
  rw [plan_eq] at h
  split at h
  · cases h
  · next planned hplanned =>
    split at h
    · cases h
    · next t plan hcompiled =>
      cases h
      exact ⟨planned, t, plan, hplanned, hcompiled, rfl⟩

theorem of_planAll_cons {c : Child RenderUnit} {rest : List (Child RenderUnit)}
    {ps : List PlannedUnit} (h : planAll (c :: rest) = .ok ps) :
    ∃ p others, c.unit.plan = .ok p ∧ planAll rest = .ok others ∧ ps = p :: others := by
  rw [planAll] at h
  split at h
  · cases h
  · next p hfirst =>
    split at h
    · cases h
    · next others hrest =>
      cases h
      exact ⟨p, others, hfirst, hrest, rfl⟩

mutual
/-- Where a tree is planned all its units compile. -/
theorem compiles_of_plan : (u : RenderUnit) → {p : PlannedUnit} → u.plan = .ok p →
    ∀ v ∈ u.postorder, v.Compiles
  | ⟨site, timeline, children⟩, p, h => by
    obtain ⟨planned, t, plan, hplanned, hcompiled, -⟩ := of_plan_eq_ok h
    intro v hv
    rw [postorder, List.mem_append, List.mem_singleton] at hv
    rcases hv with hv | rfl
    · exact compiles_of_planAll children hplanned v hv
    · exact ⟨_, hcompiled⟩
theorem compiles_of_planAll : (children : List (Child RenderUnit)) → {ps : List PlannedUnit} →
    planAll children = .ok ps → ∀ v ∈ postorderAll children, v.Compiles
  | [], _, _ => fun _ hv => absurd hv List.not_mem_nil
  | ⟨_, _, unit⟩ :: rest, ps, h => by
    obtain ⟨p, others, hfirst, hrest, -⟩ := of_planAll_cons h
    intro v hv
    rw [postorderAll, List.mem_append] at hv
    rcases hv with hv | hv
    · exact compiles_of_plan unit hfirst v hv
    · exact compiles_of_planAll rest hrest v hv
end

mutual
/-- A tree that is not planned stops at the first of its units that does not compile. -/
theorem firstFailure_of_plan : (u : RenderUnit) → {e : CompileError} → u.plan = .error e →
    FirstFailure u.postorder e
  | ⟨site, timeline, children⟩, e, h => by
    rw [plan_eq] at h
    rw [postorder]
    split at h
    · next hchildren =>
      cases h
      exact (firstFailure_of_planAll children hchildren).append _
    · next hchildren =>
      split at h
      · next hcompiled =>
        cases h
        exact .of_append (compiles_of_planAll children hchildren) (firstFailure_singleton hcompiled)
      · cases h
theorem firstFailure_of_planAll : (children : List (Child RenderUnit)) → {e : CompileError} →
    planAll children = .error e → FirstFailure (postorderAll children) e
  | [], e, h => by
    rw [planAll] at h
    cases h
  | ⟨_, _, unit⟩ :: rest, e, h => by
    rw [planAll] at h
    rw [postorderAll]
    split at h
    · next hfirst =>
      cases h
      exact (firstFailure_of_plan unit hfirst).append _
    · next hfirst =>
      split at h
      · next hrest =>
        cases h
        exact .of_append (compiles_of_plan unit hfirst) (firstFailure_of_planAll rest hrest)
      · cases h
end

/-- A tree is planned exactly if all its units compile. -/
theorem exists_plan_iff (u : RenderUnit) :
    (∃ p, u.plan = .ok p) ↔ ∀ v ∈ u.units, v.Compiles := by
  constructor
  · rintro ⟨p, h⟩ v hv
    exact compiles_of_plan u h v ((mem_postorder_iff u).2 hv)
  · intro h
    rcases hplan : u.plan with e | p
    · obtain ⟨before, v, after, hsplit, -, hv⟩ := firstFailure_of_plan u hplan
      have hmem : v ∈ u.postorder := by
        rw [hsplit]
        exact List.mem_append_right before List.mem_cons_self
      obtain ⟨r, hr⟩ := h v ((mem_postorder_iff u).1 hmem)
      cases hv.symm.trans hr
    · exact ⟨p, rfl⟩

/-! ## Units of timelines -/

variable {site : Site} {t : Timeline}

theorem compiled_build (site : Site) (t : Timeline) :
    (build site t).compiled = (plannedTimeline site t).compile site.layout := by
  rw [compiled, attachPlanned_build, site_build]

theorem timeline_build (site : Site) (t : Timeline) :
    (build site t).timeline = { t with
      scenes := t.scenes.map (Scene.map fun inner => Timeline.placeholder inner.settings) } := by
  rw [build_eq]

/-- The files change neither lengths nor transitions. -/
theorem playable_plannedTimeline_iff (site : Site) (t : Timeline) :
    ((plannedTimeline site t).prepare site.layout).1.Playable ↔ (build site t).Playable := by
  rw [Playable, site_build, timeline_build]
  refine Timeline.playable_prepare_congr ?_ _ _
  rw [List.map_map]
  exact map_map_zipIdx t.scenes fun _ _ => rfl

theorem isRendered_plannedTimeline (site : Site) (t : Timeline) :
    ∀ s ∈ (plannedTimeline site t).scenes, s.IsRendered := by
  intro s hs
  obtain ⟨⟨s₀, i⟩, -, rfl⟩ := List.mem_map.1 hs
  exact isRendered_plannedScene site i s₀

theorem entries_plannedTimeline (site : Site) (t : Timeline) :
    (plannedTimeline site t).entries = (build site t).timeline.entries := by
  have hcounts : (plannedTimeline site t).scenes.map (fun s => s.nodes.length + s.audios.length) =
      (build site t).timeline.scenes.map fun s => s.nodes.length + s.audios.length := by
    rw [timeline_build, List.map_map]
    refine map_map_zipIdx t.scenes fun s i => ?_
    simp [plannedScene, Scene.map]
  have hlength := congrArg List.length hcounts
  rw [List.length_map, List.length_map] at hlength
  rw [Timeline.entries, Timeline.entries, hcounts, hlength, timeline_build]
  rfl

theorem addressable_plannedTimeline (h : (build site t).timeline.Addressable) :
    (plannedTimeline site t).Addressable := by
  rw [Timeline.Addressable, entries_plannedTimeline]
  exact h

theorem scenes_build_eq_nil_iff : (build site t).timeline.scenes = [] ↔ t.scenes = [] := by
  rw [timeline_build, List.map_eq_nil_iff]

theorem scenes_plannedTimeline_eq_nil_iff (site : Site) (t : Timeline) :
    ((plannedTimeline site t).prepare site.layout).1.scenes = [] ↔
      (build site t).timeline.scenes = [] := by
  rw [Timeline.scenes_prepare_eq_nil_iff, plannedTimeline, List.map_eq_nil_iff,
    List.zipIdx_eq_nil_iff, scenes_build_eq_nil_iff]

/-- A unit compiles exactly if it has scenes and is playable. -/
theorem compiles_iff (hu : u ∈ (build site t).units) (hsize : u.timeline.Addressable) :
    u.Compiles ↔ u.timeline.scenes ≠ [] ∧ u.Playable := by
  obtain ⟨a, inner, -, rfl⟩ := exists_of_mem_units hu
  generalize site.descend a = place at hsize ⊢
  have hrendered :=
    Timeline.isRendered_prepare (isRendered_plannedTimeline place inner) place.layout
  have hcompilable : ((plannedTimeline place inner).prepare place.layout).1.Compilable ↔
      (build place inner).timeline.scenes ≠ [] ∧ (build place inner).Playable := by
    rw [Timeline.compilable_iff, playable_plannedTimeline_iff, ne_eq,
      scenes_plannedTimeline_eq_nil_iff]
    exact and_congr_right fun _ => and_iff_right hrendered
  rw [← hcompilable, Compiles, compiled_build]
  constructor
  · rintro ⟨⟨t', plan⟩, hok⟩
    exact Timeline.compilable_of_compile_eq_ok hok
  · intro hneeds
    rcases hcompile : (plannedTimeline place inner).compile place.layout with e | r
    · exact absurd (Timeline.stops_of_compile_eq_error (addressable_plannedTimeline hsize) hcompile)
        hneeds.not_stops
    · exact ⟨r, rfl⟩

/-- No unit lacks the file of a composition, or has a graph that is at fault. -/
theorem of_compiled_eq_error (hu : u ∈ (build site t).units) (hsize : u.timeline.Addressable)
    (herror : u.compiled = .error e) :
    (∀ what, e ≠ .missingAsset what) ∧ (∀ defect, e ≠ .invalidGraph defect) ∧
      (e = .invalid .noScenes → u.timeline.scenes = []) := by
  obtain ⟨a, inner, -, rfl⟩ := exists_of_mem_units hu
  generalize site.descend a = place at hsize herror ⊢
  have hrendered :=
    Timeline.isRendered_prepare (isRendered_plannedTimeline place inner) place.layout
  rw [compiled_build] at herror
  have hstops := Timeline.stops_of_compile_eq_error (addressable_plannedTimeline hsize) herror
  cases hstops with
  | noScenes hempty =>
    exact ⟨nofun, nofun, fun _ => (scenes_plannedTimeline_eq_nil_iff place inner).1 hempty⟩
  | asset hsplit _ _ hunrendered => exact absurd (hrendered _ (by simp [hsplit])) hunrendered
  | duration | name | short => exact ⟨nofun, nofun, nofun⟩

/-! ## Trees of timelines -/

theorem length_of_planAll {children : List (Child RenderUnit)} {ps : List PlannedUnit}
    (h : planAll children = .ok ps) :
    ps.length = children.length ∧ ∀ x ∈ ps.zip children, x.2.unit.plan = .ok x.1 := by
  induction children generalizing ps with
  | nil =>
    cases h
    exact ⟨rfl, fun x hx => absurd hx List.not_mem_nil⟩
  | cons c rest ih =>
    obtain ⟨p, others, hfirst, hrest, rfl⟩ := of_planAll_cons h
    obtain ⟨hlength, hzip⟩ := ih hrest
    exact ⟨congrArg (· + 1) hlength, List.forall_mem_cons.2 ⟨hfirst, hzip⟩⟩

/-- The program of a composition's scene reads the file of the composition's unit. -/
theorem exists_input_of_compiled {t' : Timeline} {plan : Plan}
    (h : (build site t).compiled = .ok (t', plan)) {c : Child Timeline}
    (hc : c ∈ compositions t.scenes) :
    ∃ program, plan.scenes[c.scene]? = some program ∧
      ∃ input ∈ program.inputs, input.source = (site.child c.scene c.node).output := by
  rw [compiled_build] at h
  obtain ⟨rfl, hscenes, -⟩ := Timeline.of_compile_eq_ok h
  obtain ⟨s, hs, n, hn, inner, hkind⟩ := exists_node_of_mem_compositions site hc
  have hprepared : ((plannedTimeline site t).prepare site.layout).1.scenes[c.scene]? =
      some ((plannedScene site c.scene s).prepared (site.layout.subtitlePath c.scene)) := by
    rw [Timeline.prepare_eq]
    simp [plannedTimeline, hs]
  have hprogram := Timeline.getElem?_compileScenes hscenes c.scene
  rw [hprepared, Option.map_some] at hprogram
  obtain ⟨program, hat, hcompile⟩ := Option.map_eq_some_iff.1 hprogram.symm
  exact ⟨program, hat, _, Scene.mem_inputs_of_compile
    (Scene.nodes_subset_prepared _ _ hn) hkind hcompile.symm, rfl⟩

/-- The plans of a timeline's units mirror the units. -/
theorem mirrors_of_plan {p : PlannedUnit} (h : (build site t).plan = .ok p) :
    p.Mirrors (build site t) := by
  -- The site is general because each child is planned at a site of its own.
  induction t using Timeline.induction generalizing site p with
  | step t ih =>
    obtain ⟨planned, t', plan, hplanned, hcompiled, rfl⟩ := of_plan_eq_ok h
    obtain ⟨hlength, hzip⟩ := length_of_planAll hplanned
    refine .intro rfl rfl (fun c hc => ?_) hlength fun x hx => ?_
    · rw [children_build] at hc
      obtain ⟨c, hmem, rfl⟩ := List.mem_map.1 hc
      obtain ⟨program, hprogram, input, hinput, hsource⟩ := exists_input_of_compiled hcompiled hmem
      exact ⟨program, hprogram, input, hinput, by rw [hsource, site_build]⟩
    · have hchild := (List.of_mem_zip hx).2
      have hplan := hzip x hx
      rw [children_build] at hchild
      obtain ⟨c, hc, hx₂⟩ := List.mem_map.1 hchild
      rw [← hx₂] at hplan ⊢
      exact ih c hc hplan

/-- The units of a filled timeline with scenes have scenes. -/
theorem scenes_ne_nil_of_mem_units (hfilled : t.Filled) (hne : t.scenes ≠ [])
    (hu : u ∈ (build site t).units) : u.timeline.scenes ≠ [] := by
  obtain ⟨a, inner, hat, rfl⟩ := exists_of_mem_units hu
  rw [ne_eq, scenes_build_eq_nil_iff]
  cases a with
  | nil =>
    cases hat
    exact hne
  | cons slot rest => exact hfilled _ inner (List.cons_ne_nil slot rest) hat

/-- The tree of a loaded template is planned exactly if there is a scene and all its units are
playable.  Otherwise planning stops with the error of the first unit in postorder that does not
compile: that is never a file that is not there, nor a graph, and only a template without scenes
lacks scenes.  The plans mirror the tree. -/
theorem plan_build_outcome (site : Site) (t : Timeline) (hloaded : t.Loaded)
    (hsize : ∀ u ∈ (build site t).units, u.timeline.Addressable) :
    ((∃ p, (build site t).plan = .ok p) ↔
        t.scenes ≠ [] ∧ ∀ u ∈ (build site t).units, u.Playable) ∧
      (∀ e, (build site t).plan = .error e → FirstFailure (build site t).postorder e ∧
        (∀ what, e ≠ .missingAsset what) ∧ (∀ defect, e ≠ .invalidGraph defect) ∧
        (e = .invalid .noScenes → t.scenes = [])) ∧
      ∀ p, (build site t).plan = .ok p → p.Mirrors (build site t) := by
  have hfilled := Timeline.filled_of_loaded hloaded
  have hroot : build site t ∈ (build site t).units := by
    rw [units_eq]
    exact List.mem_cons_self
  refine ⟨?_, fun e he => ⟨firstFailure_of_plan _ he, ?_⟩, fun p => mirrors_of_plan⟩
  · rw [exists_plan_iff]
    constructor
    · intro hcompiles
      have hunits := fun u hu => (compiles_iff hu (hsize u hu)).1 (hcompiles u hu)
      exact ⟨fun hempty => (hunits _ hroot).1 (scenes_build_eq_nil_iff.2 hempty),
        fun u hu => (hunits u hu).2⟩
    · rintro ⟨hne, hplayable⟩ u hu
      exact (compiles_iff hu (hsize u hu)).2
        ⟨scenes_ne_nil_of_mem_units hfilled hne hu, hplayable u hu⟩
  · obtain ⟨before, u, after, hsplit, -, herror⟩ := firstFailure_of_plan _ he
    have hu : u ∈ (build site t).units := by
      rw [← mem_postorder_iff, hsplit]
      exact List.mem_append_right before List.mem_cons_self
    obtain ⟨hasset, hgraph, hscenes⟩ := of_compiled_eq_error hu (hsize u hu) herror
    refine ⟨hasset, hgraph, fun h => ?_⟩
    by_contra hne
    exact scenes_ne_nil_of_mem_units hfilled hne hu (hscenes h)

/-- A template with a clip inside a layer of another clip. -/
def nestedTemplate : Json :=
  .obj [("clips", .arr [.obj [("duration", .int 1), ("layers", .arr [.obj [
      ("clips", .arr [.obj [("duration", .int 2)]]), ("type", .str "composition")]])]]),
    ("height", .int 720), ("width", .int 1280)]

def jobSite : Site := ⟨"job", "cache/job", "out.mp4"⟩

theorem plan_build_outcome_nestedTemplate :
    ∃ t, Timeline.ofTemplate nestedTemplate = .ok t ∧
      (∀ u ∈ (build jobSite t).units, u.timeline.Addressable) ∧
      (build jobSite t).units.length = 2 ∧
      ∃ p, (build jobSite t).plan = .ok p ∧ p.Mirrors (build jobSite t) := by
  have hcomputed : (Timeline.ofTemplate nestedTemplate).toOption.map (fun t =>
      ((build jobSite t).units.all fun u => decide u.timeline.Addressable) &&
        (build jobSite t).units.length == 2 && (build jobSite t).plan.toOption.isSome) =
      some true := by decide +kernel
  rcases hload : Timeline.ofTemplate nestedTemplate with e | t <;> rw [hload] at hcomputed
  · cases hcomputed
  · obtain ⟨⟨hsize, hcount⟩, hplan⟩ :
        (((build jobSite t).units.all fun u => decide u.timeline.Addressable) = true ∧
          ((build jobSite t).units.length == 2) = true) ∧
          (build jobSite t).plan.toOption.isSome = true := by
      simpa only [Bool.and_eq_true] using Option.some.inj hcomputed
    have hsize : ∀ u ∈ (build jobSite t).units, u.timeline.Addressable :=
      fun u hu => of_decide_eq_true (List.all_eq_true.1 hsize u hu)
    have houtcome := plan_build_outcome jobSite t (Or.inl ⟨_, hload⟩) hsize
    rcases hp : (build jobSite t).plan with e | p
    · rw [hp] at hplan
      cases hplan
    · exact ⟨t, rfl, hsize, beq_iff_eq.1 hcount, p, hp, houtcome.2.2 p hp⟩

end RenderUnit

end Montage
