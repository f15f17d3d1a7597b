import Montage.Proofs.Render.Settled
import Montage.Proofs.Render.Work

/-!
# Plans and renders agree

What a unit does when nothing goes wrong can be read off its plan: it writes the plan's files, runs
the programs of the scenes and then the last step, all after the units below it
(`PlannedUnit.Done`).  So a tree that is planned and has nothing left to resolve is rendered as
planned, in whatever order its units are worked on (`RenderUnit.rendered_as_planned`).
-/

namespace Montage

/-! ## Actions of trails -/

/-- The text file that is written. -/
def Action.written? : Action → Option TextFile
  | .write path contents => some ⟨path, contents⟩
  | _ => none

/-- The arguments of the command that is started for the unit. -/
def Action.commandFor? (id : String) : Action → Option (List String)
  | .start unit args => if unit = id then some args else none
  | _ => none

/-! ## What plans ask for -/

/-- The last step of a unit. -/
def Finish.actions (id : String) (settings : Settings) : Finish → List Action
  | .relocate source target => [.move source target]
  | .program p => [.start id (p.args settings)]

/-- All steps of a unit: its files, its scenes, its last step. -/
def Plan.actions (id : String) (settings : Settings) (plan : Plan) : List Action :=
  plan.files.map (fun f => .write f.path f.contents) ++
    ((plan.sceneCommands settings).map (.start id) ++ plan.finish.actions id settings)

namespace PlannedUnit

/-- The commands of the unit in order: those of its scenes, then the last one if there is one. -/
def commands (p : PlannedUnit) : List (List String) :=
  p.plan.sceneCommands p.settings ++ (p.plan.finalCommand p.settings).toList

mutual
/-- The plan and all plans below it. -/
def units : PlannedUnit → List PlannedUnit
  | ⟨id, output, settings, plan, children⟩ =>
    ⟨id, output, settings, plan, children⟩ :: unitsBelow children
/-- The plans and all plans below them. -/
def unitsBelow : List PlannedUnit → List PlannedUnit
  | [] => []
  | p :: rest => units p ++ unitsBelow rest
end

/-- The trails of units beside each other, each with all units below it: the units below a unit come
in any order beside each other, and the unit's own steps behind them. -/
inductive Done : List PlannedUnit → List Action → Prop
  | nil : Done [] []
  | unit {p : PlannedUnit} {below : List Action} (h : Done p.children below) :
    Done [p] (below ++ p.plan.actions p.id p.settings)
  | beside {p : PlannedUnit} {rest : List PlannedUnit} {first others acts : List Action}
    (hfirst : Done [p] first) (hothers : Done rest others) (h : Interleaves first others acts) :
    Done (p :: rest) acts

theorem units_eq (p : PlannedUnit) : p.units = p :: unitsBelow p.children := by
  cases p
  rw [units]

theorem unitsBelow_eq (ps : List PlannedUnit) : unitsBelow ps = ps.flatMap units := by
  induction ps with
  | nil => rw [unitsBelow, List.flatMap_nil]
  | cons p rest ih => rw [unitsBelow, ih, List.flatMap_cons]

theorem done_of_merged {ps : List PlannedUnit} {acts : List Action}
    (h : Trails.Merged (ps.map fun p => Done [p]) acts) : Done ps acts := by
  induction ps generalizing acts with
  | nil =>
    cases h
    exact .nil
  | cons p rest ih =>
    obtain ⟨first, others, hfirst, hothers, hmerged⟩ := h
    exact .beside hfirst (ih hothers) hmerged

/-! ## What all trails have in common -/

section

variable {ps : List PlannedUnit} {v c : PlannedUnit} {acts : List Action} {a : Action}

theorem unitsBelow_cons (p : PlannedUnit) (rest : List PlannedUnit) :
    unitsBelow (p :: rest) = unitsBelow [p] ++ unitsBelow rest := by
  simp [unitsBelow]

theorem unitsBelow_singleton (p : PlannedUnit) : unitsBelow [p] = p :: unitsBelow p.children := by
  rw [unitsBelow, unitsBelow, List.append_nil, units_eq]

theorem written_actions (p : PlannedUnit) :
    (p.plan.actions p.id p.settings).filterMap Action.written? = p.plan.files := by
  have hfinish : (p.plan.finish.actions p.id p.settings).filterMap Action.written? = [] := by
    cases p.plan.finish <;> rfl
  simp [Plan.actions, hfinish, List.filterMap_append, List.filterMap_map, Function.comp_def,
    Action.written?]

/-- The files of the plans are written, each as often as it is planned. -/
theorem Done.written (h : Done ps acts) :
    (acts.filterMap Action.written?).Perm ((unitsBelow ps).flatMap (·.plan.files)) := by
  induction h with
  | nil => exact .nil
  | @unit p below _ ih =>
    rw [List.filterMap_append, written_actions, unitsBelow_singleton, List.flatMap_cons]
    exact (ih.append_right _).trans List.perm_append_comm
  | @beside p rest first others acts _ _ hmerged ihfirst ihothers =>
    rw [unitsBelow_cons, List.flatMap_append]
    exact (hmerged.filterMap _).perm.trans (ihfirst.append ihothers)

theorem commands_actions (p : PlannedUnit) (id : String) :
    (p.plan.actions p.id p.settings).filterMap (Action.commandFor? id) =
      if p.id = id then p.commands else [] := by
  have hfinish : (p.plan.finish.actions p.id p.settings).filterMap (Action.commandFor? id) =
      if p.id = id then (p.plan.finalCommand p.settings).toList else [] := by
    unfold Plan.finalCommand
    cases p.plan.finish with
    | relocate source target => simp [Finish.actions, Action.commandFor?]
    | program program =>
      by_cases hid : p.id = id <;> simp [Finish.actions, Action.commandFor?, hid]
  rw [Plan.actions, List.filterMap_append, List.filterMap_append, hfinish]
  by_cases hid : p.id = id <;>
    simp [List.filterMap_map, Function.comp_def, Action.commandFor?, hid, commands]

theorem commandFor?_of_ne {p : PlannedUnit} {id : String} (hid : p.id ≠ id)
    (ha : a ∈ p.plan.actions p.id p.settings) : a.commandFor? id = none := by
  have hnone := commands_actions p id
  rw [if_neg hid, List.filterMap_eq_nil_iff] at hnone
  exact hnone a ha

/-- Commands are started for the planned units only. -/
theorem Done.commandFor?_eq_none {id : String} (h : Done ps acts)
    (hid : id ∉ (unitsBelow ps).map (·.id)) (ha : a ∈ acts) : a.commandFor? id = none := by
  induction h with
  | nil => cases ha
  | @unit p below _ ih =>
    rw [unitsBelow_singleton, List.map_cons, List.mem_cons, not_or] at hid
    rcases List.mem_append.1 ha with ha | ha
    · exact ih hid.2 ha
    · exact commandFor?_of_ne (Ne.symm hid.1) ha
  | @beside p rest first others acts _ _ hmerged ihfirst ihothers =>
    rw [unitsBelow_cons, List.map_append, List.mem_append, not_or] at hid
    rcases List.mem_append.1 (hmerged.perm.mem_iff.1 ha) with ha | ha
    · exact ihfirst hid.1 ha
    · exact ihothers hid.2 ha

/-- Beside units with other names no commands are started for these. -/
theorem Done.commandFor?_of_disjoint {qs : List PlannedUnit} (h : Done qs acts)
    (hdisjoint : ((unitsBelow ps).map (·.id)).Disjoint ((unitsBelow qs).map (·.id)))
    (hv : v ∈ unitsBelow ps) (ha : a ∈ acts) : a.commandFor? v.id = none :=
  h.commandFor?_eq_none (hdisjoint (List.mem_map_of_mem hv)) ha

/-- Each unit's commands are those of its plan, in order. -/
theorem Done.commands (h : Done ps acts) (hnodup : ((unitsBelow ps).map (·.id)).Nodup)
    (hv : v ∈ unitsBelow ps) : acts.filterMap (Action.commandFor? v.id) = v.commands := by
  induction h with
  | nil =>
    rw [unitsBelow] at hv
    cases hv
  | @unit p below hbelow ih =>
    rw [unitsBelow_singleton, List.map_cons, List.nodup_cons] at hnodup
    rw [unitsBelow_singleton] at hv
    rw [List.filterMap_append, commands_actions]
    rcases List.mem_cons.1 hv with rfl | hv
    · have hnone : below.filterMap (Action.commandFor? v.id) = [] :=
        List.filterMap_eq_nil_iff.2 fun a ha => hbelow.commandFor?_eq_none hnodup.1 ha
      rw [hnone, if_pos rfl, List.nil_append]
    · have hid : p.id ≠ v.id := fun heq => hnodup.1 (heq ▸ List.mem_map_of_mem hv)
      rw [ih hnodup.2 hv, if_neg hid, List.append_nil]
  | @beside p rest first others acts hfirst hothers hmerged ihfirst ihothers =>
    rw [unitsBelow_cons, List.map_append, List.nodup_append'] at hnodup
    obtain ⟨hnodupfirst, hnodupothers, hdisjoint⟩ := hnodup
    have hfilter := hmerged.filterMap (Action.commandFor? v.id)
    rw [unitsBelow_cons] at hv
    rcases List.mem_append.1 hv with hv | hv
    · have hnone : others.filterMap (Action.commandFor? v.id) = [] :=
        List.filterMap_eq_nil_iff.2 fun a => hothers.commandFor?_of_disjoint hdisjoint hv
      rw [hnone] at hfilter
      rw [hfilter.eq_of_nil_right, ihfirst hnodupfirst hv]
    · have hnone : first.filterMap (Action.commandFor? v.id) = [] :=
        List.filterMap_eq_nil_iff.2 fun a =>
          hfirst.commandFor?_of_disjoint (List.disjoint_symm hdisjoint) hv
      rw [hnone] at hfilter
      rw [hfilter.eq_of_nil_left, ihothers hnodupothers hv]

mutual
theorem mem_unitsBelow_of_mem_units : (p : PlannedUnit) → v ∈ p.units →
    c ∈ unitsBelow v.children → c ∈ unitsBelow p.children
  | ⟨id, output, settings, plan, children⟩, hv, hc => by
    rw [units_eq] at hv
    rcases List.mem_cons.1 hv with rfl | hv
    · exact hc
    · exact mem_unitsBelow_of_mem_below children hv hc
/-- What is below one of the units is below them. -/
theorem mem_unitsBelow_of_mem_below : (ps : List PlannedUnit) → v ∈ unitsBelow ps →
    c ∈ unitsBelow v.children → c ∈ unitsBelow ps
  | [], hv, _ => by
    rw [unitsBelow] at hv
    cases hv
  | p :: rest, hv, hc => by
    rw [unitsBelow] at hv ⊢
    rcases List.mem_append.1 hv with hv | hv
    · refine List.mem_append_left _ ?_
      rw [units_eq]
      exact List.mem_cons_of_mem _ (mem_unitsBelow_of_mem_units p hv hc)
    · exact List.mem_append_right _ (mem_unitsBelow_of_mem_below rest hv hc)
end

/-- Once a unit has started a command, no unit below it starts one. -/
theorem Done.ordered (h : Done ps acts) (hnodup : ((unitsBelow ps).map (·.id)).Nodup)
    (hv : v ∈ unitsBelow ps) (hc : c ∈ unitsBelow v.children) :
    acts.Pairwise fun a b => a.commandFor? v.id = none ∨ b.commandFor? c.id = none := by
  induction h with
  | nil => exact .nil
  | @unit p below hbelow ih =>
    rw [unitsBelow_singleton, List.map_cons, List.nodup_cons] at hnodup
    rw [unitsBelow_singleton] at hv
    rw [List.pairwise_append]
    rcases List.mem_cons.1 hv with rfl | hv
    · have hid : v.id ≠ c.id := fun heq => hnodup.1 (heq ▸ List.mem_map_of_mem hc)
      have hsilent (a : Action) (ha : a ∈ below) : a.commandFor? v.id = none :=
        hbelow.commandFor?_eq_none hnodup.1 ha
      exact ⟨List.pairwise_of_forall_mem_list fun a ha _ _ => Or.inl (hsilent a ha),
        List.pairwise_of_forall_mem_list fun _ _ b hb => Or.inr (commandFor?_of_ne hid hb),
        fun a ha _ _ => Or.inl (hsilent a ha)⟩
    · have hbelowc := mem_unitsBelow_of_mem_below _ hv hc
      have hidv : p.id ≠ v.id := fun heq => hnodup.1 (heq ▸ List.mem_map_of_mem hv)
      have hidc : p.id ≠ c.id := fun heq => hnodup.1 (heq ▸ List.mem_map_of_mem hbelowc)
      exact ⟨ih hnodup.2 hv,
        List.pairwise_of_forall_mem_list fun a ha _ _ => Or.inl (commandFor?_of_ne hidv ha),
        fun _ _ b hb => Or.inr (commandFor?_of_ne hidc hb)⟩
  | @beside p rest first others acts hfirst hothers hmerged ihfirst ihothers =>
    rw [unitsBelow_cons, List.map_append, List.nodup_append'] at hnodup
    obtain ⟨hnodupfirst, hnodupothers, hdisjoint⟩ := hnodup
    rw [unitsBelow_cons] at hv
    rcases List.mem_append.1 hv with hv | hv
    · have hbelowc := mem_unitsBelow_of_mem_below _ hv hc
      exact hmerged.pairwise (ihfirst hnodupfirst hv) fun a ha _ _ =>
        ⟨Or.inl (hothers.commandFor?_of_disjoint hdisjoint hv ha),
          Or.inr (hothers.commandFor?_of_disjoint hdisjoint hbelowc ha)⟩
    · have hbelowc := mem_unitsBelow_of_mem_below _ hv hc
      exact hmerged.symm.pairwise (ihothers hnodupothers hv) fun a ha _ _ =>
        ⟨Or.inl (hfirst.commandFor?_of_disjoint (List.disjoint_symm hdisjoint) hv ha),
          Or.inr (hfirst.commandFor?_of_disjoint (List.disjoint_symm hdisjoint) hbelowc ha)⟩

end

end PlannedUnit

namespace RenderUnit

open Script

/-! ## Scripts of the work -/

theorem does_writeFiles (files : List TextFile) :
    Does (writeFiles files) (files.map fun f => .write f.path f.contents) () := by
  induction files with
  | nil => exact does_pure ()
  | cons f rest ih => exact (does_write f.path f.contents).bind (f := fun _ => writeFiles rest) ih

theorem does_reportFrames (p : Position) (frames : List Nat) :
    Does (reportFrames p frames) [] () := by
  induction frames with
  | nil => exact does_pure ()
  | cons frame rest ih =>
    have hask : Does (ask (.progress p.unit (p.fraction frame))) [] () :=
      does_ask (by simp) fun _ _ => rfl
    exact hask.then ih

/-- A run of the media tool that succeeds starts the one command. -/
theorem does_runTool (p : Position) (args : List String) :
    Does (runTool p args) [.start p.unit args] () := by
  intro refused next L path hnext
  refine ⟨by simp, fun run hgranted _ => ?_⟩
  obtain ⟨frames, ending⟩ := run
  obtain rfl : ending = .success := by simpa [Action.isGranted] using hgranted
  exact does_reportFrames p frames refused _ _ path (does_produce _ refused next _ path hnext)

theorem does_runScenes (settings : Settings) (p : Position) (programs : List Program) :
    ∃ q : Position, q.unit = p.unit ∧ Does (runScenes settings p programs)
      ((programs.map fun program => program.args settings).map (.start p.unit)) q := by
  induction programs generalizing p with
  | nil => exact ⟨p, rfl, does_pure p⟩
  | cons program rest ih =>
    obtain ⟨q, hq, hrest⟩ := ih (p.forward (sceneFrames program.duration settings.fps))
    exact ⟨q, hq, (does_runTool p (program.args settings)).bind hrest⟩

theorem does_runFinish (settings : Settings) (p : Position) (finish : Finish) :
    Does (runFinish settings p finish) (finish.actions p.unit settings) () := by
  cases finish with
  | relocate source target => exact does_move source target
  | program program => exact does_runTool p (program.args settings)

theorem does_runPlan (id : String) (settings : Settings) (plan : Plan) :
    Does (runPlan id settings plan) (plan.actions id settings) () := by
  obtain ⟨q, hq, hscenes⟩ :=
    does_runScenes settings ⟨id, 0, max plan.totalFrames 1⟩ plan.scenes
  have hfinish := does_runFinish settings q plan.finish
  rw [hq] at hfinish
  exact (does_writeFiles plan.files).bind (hscenes.bind hfinish)

theorem does_makeSite (site : Site) : Does (makeDirs site) [] () := by
  unfold makeDirs
  rcases Path.parent? site.output with _ | parent
  · exact (does_makeDirs site.cacheDir).then (does_pure ())
  · exact (does_makeDirs site.cacheDir).then (does_makeDirs parent)

/-! ## Tasks of units -/

variable {refused : Trouble → Prop} {u : RenderUnit} {p : PlannedUnit} {L : Trails}

/-- Closing leaves the outcome as it is, and what it does is not noted. -/
theorem performs_close {site : Site} {path : String} {outcome : Outcome}
    (h : Task.Performs refused (.done outcome) L path) (keep : Bool) :
    Task.Performs refused (close site keep outcome) L path := by
  unfold close
  split
  · exact h
  · refine ⟨by simp, fun _ _ _ => ?_⟩
    rcases outcome with e | path'
    · exact ⟨by simp, fun _ _ _ => h⟩
    · exact h

/-- Where its children do their duty, the work on a unit does what its plan says. -/
theorem performs_work {site : Site} {t : Timeline} {children : List (Child RenderUnit)}
    {tasks : List Task} {planned : List PlannedUnit} (hplan : plan ⟨site, t, children⟩ = .ok p)
    (hplanned : planAll children = .ok planned) (hsettled : t.Settled) {duties : List Task.Duty}
    (htasks : Task.PerformAll refused tasks duties)
    (htrails : duties.map (·.trails) = planned.map fun p => PlannedUnit.Done [p])
    (hpaths : duties.map (·.path) = children.map (·.unit.site.output)) :
    Task.Performs refused (work site t children tasks).toTask (PlannedUnit.Done [p])
      site.output := by
  obtain ⟨planned', t', plan, hplanned', hcompiled, rfl⟩ := of_plan_eq_ok hplan
  obtain rfl : planned' = planned := Except.ok.inj (hplanned'.symm.trans hplanned)
  have hregister : Does (ask (.register site.id)) [] () := does_ask (by simp) fun _ _ => rfl
  refine does_makeSite site _ _ _ _ (hregister _ _ _ _ ⟨duties, htasks, fun below hbelow => ?_⟩)
  rw [hpaths]
  have hattached := attachAll_zip_outputs ⟨site, t, children⟩
  dsimp only at hattached ⊢
  rw [hattached]
  have hready : (attachPlanned ⟨site, t, children⟩).timeline.Settled := hsettled.attachAll _
  refine Resolve.does_timeline site.cacheDir hready _ _ _ _ ?_
  change (attachPlanned ⟨site, t, children⟩).timeline.compile site.layout = .ok (t', plan)
    at hcompiled
  simp only [hcompiled]
  have hcomplete : Does (ask (.complete site.id)) [] () := does_ask (by simp) fun _ _ => rfl
  refine does_runPlan site.id t'.settings plan _ _ _ _ (hcomplete _ _ _ _ ⟨rfl, ?_⟩)
  rw [htrails] at hbelow
  have hdone : PlannedUnit.Done [⟨site.id, site.output, t'.settings, plan, planned'⟩]
      (below ++ plan.actions site.id t'.settings) := .unit (PlannedUnit.done_of_merged hbelow)
  simpa [Trails.after, Action.notes] using hdone

mutual
/-- A planned unit with nothing left to resolve does what the plans of its tree say. -/
theorem performs_task (keep : Bool) : (u : RenderUnit) → {p : PlannedUnit} → u.plan = .ok p →
    (∀ v ∈ u.units, v.timeline.Settled) →
    Task.Performs refused (u.task keep) (PlannedUnit.Done [p]) u.site.output
  | ⟨site, t, children⟩, p, hplan, hsettled => by
    obtain ⟨planned, -, -, hplanned, -⟩ := of_plan_eq_ok hplan
    rw [units_eq, List.forall_mem_cons] at hsettled
    obtain ⟨duties, htasks, htrails, hpaths⟩ :=
      performAll_tasksBelow keep children hplanned hsettled.2
    rw [task]
    refine ⟨_, _, performs_work hplan hplanned hsettled.1 htasks htrails hpaths,
      fun acts hacts => ?_, fun t L ht => ?_⟩
    · have hdone : Task.Performs refused (.done (.ok site.output))
          (Trails.after (PlannedUnit.Done [p]) acts) site.output :=
        ⟨rfl, by simpa [Trails.after] using hacts⟩
      exact performs_close hdone _
    · have hfailed : Task.Performs refused (.done (.error (.file t))) L site.output :=
        ⟨t, ht, rfl⟩
      exact performs_close hfailed _
/-- Planned children do what the plans of their trees say. -/
theorem performAll_tasksBelow (keep : Bool) : (children : List (Child RenderUnit)) →
    {planned : List PlannedUnit} → planAll children = .ok planned →
    (∀ v ∈ unitsBelow children, v.timeline.Settled) →
    ∃ duties : List Task.Duty, Task.PerformAll refused (tasksBelow keep children) duties ∧
      duties.map (·.trails) = planned.map (fun p => PlannedUnit.Done [p]) ∧
      duties.map (·.path) = children.map (·.unit.site.output)
  | [], planned, hplanned, _ => by
    obtain rfl : [] = planned := Except.ok.inj (by rw [← hplanned, planAll])
    rw [tasksBelow]
    exact ⟨[], trivial, rfl, rfl⟩
  | ⟨scene, node, unit⟩ :: rest, planned, hplanned, hsettled => by
    obtain ⟨p, others, hfirst, hrest, rfl⟩ := of_planAll_cons hplanned
    rw [unitsBelow, List.forall_mem_append] at hsettled
    obtain ⟨duties, htasks, htrails, hpaths⟩ :=
      performAll_tasksBelow keep rest hrest hsettled.2
    refine ⟨⟨PlannedUnit.Done [p], unit.site.output⟩ :: duties, ?_, ?_, ?_⟩
    · rw [tasksBelow]
      exact ⟨performs_task keep unit hfirst hsettled.1, htasks⟩
    · rw [List.map_cons, List.map_cons, htrails]
    · rw [List.map_cons, List.map_cons, hpaths]
end

mutual
/-- The plans are named as the units are. -/
theorem ids_of_plan : (u : RenderUnit) → {p : PlannedUnit} → u.plan = .ok p →
    p.units.map (·.id) = u.ids
  | ⟨site, t, children⟩, p, hplan => by
    obtain ⟨planned, -, -, hplanned, -, rfl⟩ := of_plan_eq_ok hplan
    rw [PlannedUnit.units_eq, List.map_cons, ids_of_planAll children hplanned, ids]
theorem ids_of_planAll : (children : List (Child RenderUnit)) → {planned : List PlannedUnit} →
    planAll children = .ok planned →
    (PlannedUnit.unitsBelow planned).map (·.id) = idsBelow children
  | [], planned, hplanned => by
    obtain rfl : [] = planned := Except.ok.inj (by rw [← hplanned, planAll])
    rw [PlannedUnit.unitsBelow, idsBelow, List.map_nil]
  | ⟨_, _, unit⟩ :: rest, planned, hplanned => by
    obtain ⟨p, others, hfirst, hrest, rfl⟩ := of_planAll_cons hplanned
    rw [PlannedUnit.unitsBelow, List.map_append, ids_of_plan unit hfirst,
      ids_of_planAll rest hrest, idsBelow]
end

/-! ## Runs -/

/-- Take a tree that is planned and in which nothing is left to resolve, where at the start nothing
is under way.  In whatever order its units are worked on, as long as nobody cancels, the files
looked for are there and the media tool succeeds, the render can go on until it ends.  It ends with
the unit's file, unless a change to the files was refused, and has then done what the plans say:
their files are written, each unit has run its commands in order, and once a unit had started one no
unit below it started another. -/
theorem rendered_as_planned (keep : Bool) {u : RenderUnit} {p : PlannedUnit}
    (hplan : u.plan = .ok p) (hsettled : ∀ v ∈ u.units, v.timeline.Settled) {w : World}
    (hlate : w.late = []) {y : Task × World} {deeds : List Task.Deed}
    (hruns : Task.Runs (u.task keep, w) deeds y) (hcancelled : y.2.cancelled = false)
    (hgranted : ∀ d ∈ deeds, d.isGranted = true) :
    (y.1.outcome? = none → ∀ tools, ∃ more z, Task.Step y more z ∧
      (∀ d ∈ more, d.tools = tools) ∧ z.2.cancelled = false) ∧
    ∀ outcome, y.1.outcome? = some outcome →
      (∃ t, (∃ d ∈ deeds, d.refusal? = some t) ∧ outcome = .error (.file t)) ∨
      outcome = .ok u.site.output ∧
        PlannedUnit.Done [p] (Task.trail deeds) ∧
        ((Task.trail deeds).filterMap Action.written?).Perm (p.units.flatMap (·.plan.files)) ∧
        (u.ids.Nodup →
          (∀ v ∈ p.units,
            (Task.trail deeds).filterMap (Action.commandFor? v.id) = v.commands) ∧
          ∀ v ∈ p.units, ∀ c ∈ PlannedUnit.unitsBelow v.children,
            (Task.trail deeds).Pairwise fun a b =>
              a.commandFor? v.id = none ∨ b.commandFor? c.id = none) := by
  have hduty : Task.Performs (fun t => ∃ d ∈ deeds, d.refusal? = some t) (u.task keep)
      (PlannedUnit.Done [p]) u.site.output := performs_task keep u hplan hsettled
  have hperforms := hduty.runs hlate hruns hcancelled hgranted fun d hd t ht => ⟨d, hd, ht⟩
  refine ⟨fun houtcome tools => ?_, fun outcome houtcome => ?_⟩
  · obtain ⟨more, z, hstep, htools, hsame⟩ := hperforms.exists_step tools y.2 houtcome
    exact ⟨more, z, hstep, htools, hsame.trans hcancelled⟩
  · rw [Task.eq_done_of_outcome? houtcome] at hperforms
    refine hperforms.done.imp_right fun ⟨hok, hdone⟩ => ?_
    have hall : PlannedUnit.Done [p] (Task.trail deeds) := by
      simpa [Trails.after] using hdone
    have hunits : PlannedUnit.unitsBelow [p] = p.units := by
      rw [PlannedUnit.unitsBelow_singleton, PlannedUnit.units_eq]
    have hids := ids_of_plan u hplan
    rw [← hunits, ← hids, ← hunits]
    exact ⟨hok, hall, hall.written, fun hnodup =>
      ⟨fun v hv => hall.commands hnodup hv, fun v hv c hc => hall.ordered hnodup hv hc⟩⟩

/-- A picture, then a scene that shows another timeline. -/
def picturedNest : Timeline where
  settings := { width := 640, height := 360 }
  scenes := [
    { duration := 1.0
      nodes := [{ kind := .image "logo.png", frame := ⟨0.0, 0.0, 64.0, 64.0⟩ }] },
    { duration := 2.0, nodes := [{ kind := .composition singleScene none }] }]

/-- Surroundings with the picture. -/
def picturedWorld : World :=
  { bareWorld with files := ⟨[(⟨false, 0, ["logo.png"]⟩, .file "")]⟩ }

theorem rendered_as_planned_picturedNest :
    ∃ p deeds y, (build jobSite picturedNest).plan = .ok p ∧
      (∀ v ∈ (build jobSite picturedNest).units, v.timeline.Settled) ∧
      picturedWorld.late = [] ∧
      Task.Runs ((build jobSite picturedNest).task false, picturedWorld) deeds y ∧
      y.2.cancelled = false ∧ (∀ d ∈ deeds, d.isGranted = true) ∧
      y.1.outcome? = some (.ok "out.mp4") ∧ PlannedUnit.Done [p] (Task.trail deeds) ∧
      ((Task.trail deeds).filterMap Action.written?).Perm (p.units.flatMap (·.plan.files)) ∧
      ∀ v ∈ p.units, (Task.trail deeds).filterMap (Action.commandFor? v.id) = v.commands := by
  let u := build jobSite picturedNest
  have hisOk : u.plan.isOk = true := by decide +kernel
  obtain ⟨p, hplan⟩ : ∃ p, u.plan = .ok p := by
    cases hresult : u.plan with
    | error e => rw [hresult] at hisOk; cases hisOk
    | ok p => exact ⟨p, rfl⟩
  have hsettled : ∀ v ∈ u.units, v.timeline.Settled := by decide +kernel
  have hruns := Task.runs_advance obligingTools (u.task false) picturedWorld
  have hcancelled : ((u.task false).advance obligingTools picturedWorld).2.cancelled = false := by
    decide +kernel
  have hgranted : ((u.task false).trace obligingTools picturedWorld).all (·.isGranted) = true := by
    decide +kernel
  have houtcome : ((u.task false).advance obligingTools picturedWorld).1.outcome? =
      some (.ok "out.mp4") := by decide +kernel
  rw [List.all_eq_true] at hgranted
  have hagree := rendered_as_planned false hplan hsettled rfl hruns hcancelled hgranted
  obtain ⟨t, -, hfailed⟩ | ⟨-, hdone, hwritten, hcommands⟩ := hagree.2 _ houtcome
  · cases hfailed
  · exact ⟨p, _, _, hplan, hsettled, rfl, hruns, hcancelled, hgranted, houtcome, hdone, hwritten,
      (hcommands (nodup_ids_build jobSite picturedNest)).1⟩

end RenderUnit

end Montage
