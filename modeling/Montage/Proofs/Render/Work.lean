import Montage.Proofs.Render.Commands
import Montage.Proofs.Render.Regions
import Montage.Proofs.Render.Resolving
import Montage.Proofs.Render.Upholding
import Montage.Render.Work

/-!
# The work on a unit

Each part of the work on a unit makes files that the next one needs: the children their outputs, the
plan its text files, the scenes' programs the files of the scenes.  So the task of a unit honours
the contract of its site (`RenderUnit.honours_build`), and in every run each command that is started
has all files of the render that it reads (`RenderUnit.commands_supplied`).
-/

namespace Montage

namespace RenderUnit

/-! ## Scripts that make files -/

section

open Script

variable {starts : Commands} {c : Contract} {m : Set Place} {I : Set Place → Prop}

theorem yields_write {path : String} (contents : String) (hpath : .ofPath path ∈ c.region) :
    Yields starts c (do checkFile (← ask (.write path contents))) m fun _ m' =>
      insert (.ofPath path) m ⊆ m' := by
  refine (yields_ask_makes (Action.onlyMakes_write path contents) hpath trivial).bind
    fun reply m' hmade => yields_checkFile fun x hx => hmade ?_
  rw [hx]
  rfl

theorem yields_produce {path : String} (hpath : .ofPath path ∈ c.region) :
    Yields starts c (do checkFile (← ask (.produce path))) m fun _ m' =>
      insert (.ofPath path) m ⊆ m' := by
  refine (yields_ask_makes (Action.onlyMakes_produce path) hpath trivial).bind
    fun reply m' hmade => yields_checkFile fun x hx => hmade ?_
  rw [hx]
  rfl

theorem yields_writeFiles {files : List TextFile} (h : ∀ f ∈ files, .ofPath f.path ∈ c.region) :
    Yields starts c (writeFiles files) m fun _ m' =>
      m ⊆ m' ∧ ∀ f ∈ files, .ofPath f.path ∈ m' := by
  induction files generalizing m with
  | nil => exact yields_pure ⟨Set.Subset.rfl, nofun⟩
  | cons f rest ih =>
    obtain ⟨hf, hrest⟩ := List.forall_mem_cons.1 h
    refine (yields_write f.contents hf).bind (f := fun _ => writeFiles rest) fun _ m₁ h₁ => ?_
    refine (ih hrest).mono fun _ m' hm' => ?_
    have hsub := h₁.trans hm'.1
    exact ⟨(Set.subset_insert _ _).trans hsub,
      List.forall_mem_cons.2 ⟨hsub (Set.mem_insert _ _), hm'.2⟩⟩

theorem keeps_reportFrames (p : Position) (frames : List Nat) :
    Keeps starts c I (reportFrames p frames) := by
  induction frames with
  | nil => exact keeps_pure ()
  | cons frame rest ih =>
    have hprogress : Keeps starts c I (ask (.progress p.unit (p.fraction frame))) :=
      keeps_ask_quiet ⟨fun _ _ => id, fun _ => id⟩ fun _ => trivial
    exact hprogress.bind fun _ => ih

/-- A run of the media tool that succeeds leaves the file of its last argument. -/
theorem yields_runTool {q : Position} {args : List String} {output : String}
    (hbacked : (Action.start q.unit args).Backed starts (m ∩ c.region))
    (hlast : args.getLast? = some output) (houtput : .ofPath output ∈ c.region) :
    Yields starts c (runTool q args) m fun _ m' => insert (.ofPath output) m ⊆ m' := by
  have hstart : Yields starts c (ask (.start q.unit args)) m fun _ m' => m' = m :=
    yields_ask_quiet ⟨fun _ _ => id, fun _ => id⟩ hbacked fun _ => rfl
  refine hstart.bind fun run m₁ h₁ => ?_
  refine (keeps_reportFrames (I := (· = m)) q run.frames m₁ h₁).bind fun _ m₂ h₂ => ?_
  subst h₂
  split
  · rw [hlast, Option.getD_some]
    exact yields_produce houtput
  · exact yields_fail _
  · have hawait : Keeps starts c (fun _ => True) (ask .await) :=
      keeps_ask_quiet ⟨fun _ _ => id, fun _ => id⟩ fun _ => trivial
    exact (hawait _ trivial).bind fun _ _ _ => yields_fail _

/-- The programs of the scenes make their files one after the other. -/
theorem yields_runScenes {settings : Settings} {q : Position} {programs : List Program}
    (hbacked : ∀ p ∈ programs,
      (Action.start q.unit (p.args settings)).Backed starts (m ∩ c.region))
    (houtput : ∀ p ∈ programs, .ofPath p.output ∈ c.region) :
    Yields starts c (runScenes settings q programs) m fun q' m' =>
      q'.unit = q.unit ∧ m ⊆ m' ∧ ∀ p ∈ programs, .ofPath p.output ∈ m' := by
  induction programs generalizing q m with
  | nil => exact yields_pure ⟨rfl, Set.Subset.rfl, nofun⟩
  | cons p rest ih =>
    obtain ⟨hfirst, hrest⟩ := List.forall_mem_cons.1 hbacked
    obtain ⟨hp, houtputs⟩ := List.forall_mem_cons.1 houtput
    refine (yields_runTool hfirst (p.getLast?_args settings) hp).bind fun _ m₁ h₁ => ?_
    have hmore : m ⊆ m₁ := (Set.subset_insert _ _).trans h₁
    have hrest' := ih (q := q.forward (sceneFrames p.duration settings.fps))
      (fun p' hp' => (hrest p' hp').mono (Set.inter_subset_inter_left _ hmore)) houtputs
    refine hrest'.mono fun q' m' ⟨hunit, hsub, hmade⟩ => ⟨hunit, hmore.trans hsub, ?_⟩
    exact List.forall_mem_cons.2 ⟨hsub (h₁ (Set.mem_insert _ _)), hmade⟩

theorem keeps_makeDirs (site : Site) : Keeps starts c I (makeDirs site) := by
  have hmake (path : String) :
      Keeps starts c I (do checkFile (← ask (.makeDirs path))) := by
    have hask : Keeps starts c I (ask (.makeDirs path)) :=
      keeps_ask_quiet ⟨fun _ _ => id, fun _ => id⟩ fun _ => trivial
    exact hask.bind keeps_checkFile
  unfold makeDirs
  rcases Path.parent? site.output with _ | parent
  · exact (hmake site.cacheDir).bind fun _ => keeps_pure ()
  · exact (hmake site.cacheDir).bind fun _ => hmake parent

end

/-! ## Tasks of units -/

open Script

variable {starts : Commands} {m : Set Place} {site : Site} {t t₀ : Timeline} {plan : Plan}

theorem output_mem_region_of_mem_children {c : Child RenderUnit}
    (hc : c ∈ (build site t₀).children) : .ofPath c.unit.site.output ∈ site.region := by
  have hshare : c.unit.site.contract ∈ shares (build site t₀).children := List.mem_map_of_mem hc
  exact Or.inl (region_of_mem_shares hshare (Site.output_mem_region c.unit.site))

/-- Where the files of its children are there, a plan runs as far as the unit's output. -/
theorem yields_runPlan (h : (build site t₀).HasPlan t plan)
    (hstarts : ∀ args reads, (build site t₀).Command args reads → starts site.id args reads)
    (hchildren : ∀ c ∈ (build site t₀).children, .ofPath c.unit.site.output ∈ m) :
    Yields starts site.contract (runPlan site.id t.settings plan) m fun _ m' =>
      .ofPath site.output ∈ m' := by
  have hregion {path : String} (hpath : (build site t₀).site.layout.Keeps path) :
      .ofPath path ∈ site.contract.region := by
    rw [site_build] at hpath
    exact Site.keeps_mem_region hpath
  refine (yields_writeFiles fun f hf => hregion (h.keeps_file f hf)).bind
    fun _ m₁ ⟨hsub₁, hfiles⟩ => ?_
  refine (yields_runScenes (fun p hp => ?_) fun p hp => hregion (h.keeps_output p hp)).bind
    fun q m₂ ⟨hunit, hsub₂, houtputs⟩ => ?_
  · obtain ⟨reads, hcommand, hreads⟩ := h.command_scene hp
    refine ⟨reads, hstarts _ _ hcommand, fun path hpath => ?_⟩
    rcases hreads path hpath with ⟨f, hf, rfl⟩ | ⟨c, hc, rfl⟩
    · exact ⟨hfiles f hf, hregion (h.keeps_file f hf)⟩
    · exact ⟨hsub₁ (hchildren c hc), output_mem_region_of_mem_children hc⟩
  · rcases hfinish : plan.finish with ⟨source, target⟩ | p
    · obtain ⟨hsource, rfl⟩ := h.of_relocate hfinish
      rw [site_build]
      refine (yields_ask (a := .move source site.output) ?_ trivial fun _ => rfl).bind
        fun reply m₃ h₃ => yields_checkFile ?_
      · rintro q (⟨reply, hmakes⟩ | hclears)
        · cases reply with
          | error => exact absurd hmakes id
          | ok => exact (show q = .ofPath site.output from hmakes) ▸ Site.output_mem_region site
        · exact (show q = .ofPath source from hclears) ▸ hregion hsource
      · intro x hx
        subst h₃ hx
        exact Or.inl rfl
    · obtain ⟨houtput, reads, hcommand, hreads⟩ := h.command_finish hfinish
      rw [site_build] at houtput
      have hbacked : (Action.start q.unit (p.args t.settings)).Backed starts
          (m₂ ∩ site.contract.region) := by
        refine ⟨reads, hunit ▸ hstarts _ _ hcommand, fun path hpath => ?_⟩
        rcases hreads path hpath with ⟨f, hf, rfl⟩ | ⟨p', hp', rfl⟩
        · exact ⟨hsub₂ (hfiles f hf), hregion (h.keeps_file f hf)⟩
        · exact ⟨houtputs p' hp', hregion (h.keeps_output p' hp')⟩
      refine (yields_runTool hbacked (p.getLast?_args _) ?_).mono fun _ m' hsub => ?_
      · rw [houtput]
        exact Site.output_mem_region site
      · rw [← houtput]
        exact hsub (Set.mem_insert _ _)

/-- Outputs that are those of the children are attached as planned. -/
theorem attachAll_zip_outputs (u : RenderUnit) :
    attachAll u.timeline ((u.children.zip (u.children.map (·.unit.site.output))).map
      fun (c, output) => { c with unit := output }) = u.attachPlanned.timeline := by
  rw [attachPlanned, plannedOutputs, List.zip_map_right, List.map_map]
  congr 1
  induction u.children with
  | nil => rfl
  | cons c rest ih => simpa using ih

/-- The work on a unit leads to its output, if its children keep their contracts. -/
theorem yields_work {tasks : List Task}
    (hstarts : ∀ args reads, (build site t₀).Command args reads → starts site.id args reads)
    (htasks : Task.HonourAll starts tasks (shares (build site t₀).children) m) :
    Yields starts site.contract
      (work site (build site t₀).timeline (build site t₀).children tasks) m
      site.contract.post := by
  have hregister : Keeps starts site.contract (· = m) (ask (.register site.id)) :=
    keeps_ask_quiet ⟨fun _ _ => id, fun _ => id⟩ fun _ => trivial
  refine (keeps_makeDirs (I := (· = m)) site m rfl).bind fun _ m₁ h₁ => ?_
  refine (hregister m₁ h₁).bind fun _ m₂ h₂ => ?_
  subst h₂
  refine (yields_join (c := site.contract) (pairwise_shares site t₀)
    (fun d hd q hq => Or.inl (region_of_mem_shares hd hq)) htasks
    fun paths m' hpost => of_post_shares hpost).bind fun outputs m₃ ⟨houtputs, hchildren⟩ => ?_
  subst houtputs
  rw [attachAll_zip_outputs]
  have hbeside : Resolve.Beside site.contract site.cacheDir
      {q | ∃ c ∈ (build site t₀).children, q = .ofPath c.unit.site.output} := by
    refine ⟨fun q hq => Or.inl hq, ?_⟩
    rintro q ⟨c, hc, rfl⟩
    rw [children_build] at hc
    obtain ⟨c, -, rfl⟩ := List.mem_map.1 hc
    rw [site_build]
    exact ⟨c.slot, Site.ofPath_output_child site c.slot⟩
  refine (hbeside.yields_timeline _ ?_).bind fun t m₄ ⟨hresolves, hsub⟩ => ?_
  · rintro q ⟨c, hc, rfl⟩
    exact hchildren c hc
  split
  · exact yields_fail _
  · next t' plan hcompile =>
    have hplan : (build site t₀).HasPlan t plan := ⟨hresolves, t', by rwa [site_build]⟩
    obtain ⟨rfl, -⟩ := Timeline.of_compile_eq_ok hcompile
    refine (yields_runPlan hplan hstarts fun c hc => hsub ⟨c, hc, rfl⟩).bind fun _ m₅ h₅ => ?_
    have hcomplete : Keeps starts site.contract (.ofPath site.output ∈ ·)
        (ask (.complete site.id)) :=
      keeps_ask_quiet ⟨fun _ _ => id, fun _ => id⟩ fun _ => trivial
    exact (hcomplete m₅ h₅).bind fun _ _ h => yields_pure ⟨rfl, h⟩

theorem confined_removeDir (site : Site) :
    (Action.removeDir site.cacheDir).Confined site.region := by
  rintro q (⟨_, hmakes⟩ | hclears)
  · exact absurd hmakes id
  · exact Or.inl hclears

theorem confined_removeFile (site : Site) :
    (Action.removeFile site.output).Confined site.region := by
  rintro q (⟨_, hmakes⟩ | hclears)
  · exact absurd hmakes id
  · exact Or.inr hclears

/-- After an end without error closing leaves the output. -/
theorem honours_close (hout : site.Outside) (keep : Bool) {path : String}
    (h : site.contract.post path m) :
    (close site keep (.ok path)).Honours starts site.contract m := by
  unfold close
  split
  · exact h
  · obtain ⟨hpath, hmade⟩ := h
    exact ⟨confined_removeDir site, trivial, fun _ => ⟨hpath, Or.inr ⟨hmade, hout⟩⟩⟩

/-- After an error closing removes files at the unit's places alone. -/
theorem retreats_close (keep : Bool) (e : RenderError) :
    (close site keep (.error e)).Retreats site.region := by
  unfold close
  split
  · exact ⟨e, rfl⟩
  · exact ⟨confined_removeDir site, nofun, fun _ =>
      ⟨confined_removeFile site, nofun, fun _ => ⟨e, rfl⟩⟩⟩

theorem honourAll_tasksBelow {keep : Bool} {children : List (Child RenderUnit)}
    (h : ∀ c ∈ children, (c.unit.task keep).Honours starts c.unit.site.contract m) :
    Task.HonourAll starts (tasksBelow keep children) (shares children) m := by
  induction children with
  | nil =>
    rw [tasksBelow]
    trivial
  | cons c rest ih =>
    obtain ⟨hfirst, hrest⟩ := List.forall_mem_cons.1 h
    rw [tasksBelow]
    exact ⟨hfirst, ih hrest⟩

/-- The task of a unit honours the contract of its site. -/
theorem honours_build (keep : Bool) (hout : site.Outside)
    (hstarts : ∀ v ∈ (build site t₀).units, ∀ args reads, v.Command args reads →
      starts v.site.id args reads) (m : Set Place) :
    ((build site t₀).task keep).Honours starts site.contract m := by
  -- The site is general because each child is rendered at a site of its own.
  induction t₀ using Timeline.induction generalizing site m with
  | step t₀ ih =>
    have hunits := units_eq (build site t₀)
    have htasks : Task.HonourAll starts (tasksBelow keep (build site t₀).children)
        (shares (build site t₀).children) m := by
      refine honourAll_tasksBelow fun c hc => ?_
      have hbelow : c.unit.units ⊆ (build site t₀).units := fun v hv => by
        rw [hunits, unitsBelow_eq]
        exact List.mem_cons_of_mem _ (List.mem_flatMap.2 ⟨c, hc, hv⟩)
      rw [children_build] at hc
      obtain ⟨c, hmem, rfl⟩ := List.mem_map.1 hc
      rw [site_build]
      exact ih c hmem (Site.outside_child site c.slot) (fun v hv => hstarts v (hbelow hv)) m
    have hself : ∀ args reads, (build site t₀).Command args reads → starts site.id args reads := by
      have hroot := hstarts (build site t₀) (by rw [hunits]; exact List.mem_cons_self)
      rwa [site_build] at hroot
    have hwork := yields_work hself htasks
    have htask : (build site t₀).task keep =
        .watch (work site (build site t₀).timeline (build site t₀).children
          (tasksBelow keep (build site t₀).children)).toTask
            (close site (keep || (build site t₀).timeline.settings.debug)) := by
      rw [build_eq, task]
    rw [htask]
    exact ⟨site.contract, rfl, hwork.toTask,
      fun _ _ hpost => honours_close hout _ hpost, fun e => retreats_close _ e⟩

/-! ## Runs -/

/-- Whatever order the units of a tree are worked on in, whatever the tools do, wherever the render
is cancelled and whatever dropped tasks have left under way: a command that is started is one of a
unit of the tree, and each file of the render that it reads was made before, was not taken away
since, and is there. -/
theorem commands_supplied (keep : Bool) (site : Site) (t : Timeline) (hout : site.Outside)
    {w before : World} (hlate : w.late = []) {y : Task × World} {tools : Tools} {id : String}
    {args : List String} {earlier later : List Task.Deed}
    (hruns : Task.Runs ((build site t).task keep, w)
      (earlier ++ ⟨before, tools, .start id args⟩ :: later) y) :
    ∃ v ∈ (build site t).units, v.site.id = id ∧ ∃ reads, v.Command args reads ∧
      ∀ path ∈ reads, Task.Supplied earlier (.ofPath path) ∧
        before.files.HasFile (.ofPath path) := by
  have hhonours : ((build site t).task keep).Honours (fun id args reads =>
      ∃ v ∈ (build site t).units, v.site.id = id ∧ v.Command args reads) site.contract ∅ :=
    honours_build keep hout (fun v hv args reads h => ⟨v, hv, rfl, h⟩) ∅
  obtain ⟨reads, ⟨v, hv, hid, hcommand⟩, hreads⟩ := Task.Honours.backed hhonours hlate hruns rfl
  obtain ⟨c₁, hearlier, hbefore, -⟩ := hruns.split rfl
  refine ⟨v, hv, hid, reads, hcommand, fun path hpath => ?_⟩
  have hmade := hreads path hpath
  have hfile := hearlier.hasFile _ hmade
  rw [← hbefore] at hfile
  exact ⟨Task.supplied_of_mem_made hmade, hfile⟩

/-- Tools of which every run of the media tool succeeds. -/
def obligingTools : Tools where
  run _ _ := ⟨[], .success⟩
  probe _ := .error .cancelled
  fetch _ := .error ""

def singleScene : Timeline where
  settings := { width := 640, height := 360 }
  scenes := [{ duration := 1.0 }]

/-- A scene with subtitles that shows another timeline. -/
def captionedNest : Timeline where
  settings := { width := 640, height := 360 }
  scenes := [{
    duration := 2.0
    nodes := [{ kind := .composition singleScene none }]
    subtitle := some { cues := [⟨500, 1500, "Hello"⟩] } }]

/-- Surroundings without files. -/
def bareWorld : World where
  files := {}
  board := Board.empty

/-- The deed starts a command of the unit. -/
def startsFor (unit : String) (d : Task.Deed) : Bool :=
  match d.action with
  | .start id _ => id == unit
  | _ => false

theorem commands_supplied_captionedNest :
    jobSite.Outside ∧ bareWorld.late = [] ∧ ∃ earlier before tools args later,
      ((build jobSite captionedNest).task false).trace obligingTools bareWorld =
        earlier ++ ⟨before, tools, .start "job" args⟩ :: later ∧
      ∃ v ∈ (build jobSite captionedNest).units, v.site.id = "job" ∧ ∃ reads, v.Command args reads ∧
        ∀ path ∈ reads, Task.Supplied earlier (.ofPath path) ∧
          before.files.HasFile (.ofPath path) := by
  have hout : jobSite.Outside := by decide
  have hstarts : (((build jobSite captionedNest).task false).trace obligingTools bareWorld).any
      (startsFor "job") = true := by decide +kernel
  obtain ⟨⟨before, tools, a⟩, hd, hstart⟩ := List.any_eq_true.1 hstarts
  obtain ⟨earlier, later, hdeeds⟩ := List.append_of_mem hd
  have hruns := Task.runs_advance obligingTools ((build jobSite captionedNest).task false) bareWorld
  cases a with
  | start id args =>
    obtain rfl := beq_iff_eq.1 hstart
    rw [hdeeds] at hruns
    exact ⟨hout, rfl, earlier, before, tools, args, later, hdeeds,
      commands_supplied false jobSite captionedNest hout rfl hruns⟩
  | _ => cases hstart

end RenderUnit

end Montage
