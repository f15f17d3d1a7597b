import Montage.Proofs.Files.Support
import Montage.Proofs.Render.Performing
import Montage.Proofs.Render.Work

/-!
# What a render leaves behind

The units below the root keep all their files in the root's directory, so what the root removes when
it closes covers them too, also those that were dropped before they could close.  If nothing that a
dropped task has begun is still under way when the root removes its directory, a render that has
ended leaves nothing there, and its output exactly if it ended well (`RenderUnit.render_cleans_up`).
But a directory that a dropped task has begun to make may come after that removal, and then it stays
(`RenderUnit.not_clear_late`).
-/

namespace Montage

namespace Site

/-- All directories of a tree lie in that of the root. -/
theorem isWithin_cacheDir_descend (s : Site) (address : List Slot) :
    (Place.ofPath (s.descend address).cacheDir).isWithin (.ofPath s.cacheDir) = true := by
  induction address using List.reverseRecOn with
  | nil => exact Place.isWithin_self _
  | append_singleton rest slot ih =>
    rw [descend_concat, ofPath_cacheDir_child]
    exact Place.isWithin_trans (Place.child_isWithin _ _) ih

theorem isWithin_output_descend (s : Site) (address : List Slot) (slot : Slot) :
    (Place.ofPath (s.descend (address ++ [slot])).output).isWithin (.ofPath s.cacheDir) = true := by
  rw [descend_concat, ofPath_output_child]
  exact Place.isWithin_trans (Place.child_isWithin _ _) (s.isWithin_cacheDir_descend address)

end Site

namespace World

/-- Whatever is asked, everything goes on standing in directories. -/
theorem supported_perform {w : World} (h : w.files.Supported) (tools : Tools) (a : Action) :
    (w.perform tools a).2.files.Supported := by
  cases a with
  | makeDirs path => exact h.makeDirs path
  | write path contents =>
    rw [perform]
    rcases hwrite : w.files.write path contents with e | t
    · exact h
    · exact h.write hwrite
  | move source target =>
    rw [perform]
    rcases hmove : w.files.move source target with e | t
    · exact h
    · exact h.move hmove
  | produce path =>
    rw [perform]
    rcases hwrite : w.files.write path produced with e | t
    · exact h
    · exact h.write hwrite
  | removeDir path => exact h.removeDir path
  | removeFile path => exact h.removeFile path
  | register | look | fetch | probe | start | progress | await | complete => exact h

end World

namespace Task

variable {c c' : Task × World} {deeds : List Deed}

theorem Runs.supported (h : Runs c deeds c') (hfiles : c.2.files.Supported) :
    c'.2.files.Supported :=
  h.files_induction (P := fun _ files => files.Supported) hfiles fun _ _ tools a hsupported =>
    World.supported_perform hsupported tools a

/-- If the deed removes something, that succeeds. -/
def Deed.succeeds (d : Deed) : Bool :=
  match d.action with
  | .removeDir path => d.before.files.removesDir path
  | .removeFile path => d.before.files.removesFile path
  | _ => true

end Task

namespace RenderUnit

variable {site : Site} {w w' : World} {outcome outcome' : Outcome}
  {deeds : List Task.Deed}

/-- Closing clears the unit's directory, and after an error the place of its output, if nothing is
under way any more when the directory is removed. -/
theorem clear_of_runs_close (hfiles : w.files.Supported)
    (hruns : Task.Runs (close site false outcome, w) deeds (.done outcome', w'))
    (hsucceeds : ∀ d ∈ deeds, d.succeeds = true)
    (hlanded : ∀ d ∈ deeds, d.action = .removeDir site.cacheDir → d.before.late = []) :
    outcome' = outcome ∧ w'.files.Clear (.ofPath site.cacheDir) ∧
      ∀ e, outcome = .error e → ¬ w'.files.HasFile (.ofPath site.output) := by
  rcases hruns.of_act with ⟨hwaits, -⟩ | ⟨w₁, tools, earlier, more, hdrifts, rfl, hruns₁⟩
  · cases hwaits
  have hsupported : w₁.files.Supported := (hdrifts.runs (.done outcome)).supported hfiles
  rw [List.forall_mem_append, List.forall_mem_cons] at hsucceeds hlanded
  obtain ⟨-, hremoves, hsucceeds⟩ := hsucceeds
  have hclear : (w₁.files.removeDir site.cacheDir).Clear (.ofPath site.cacheDir) :=
    hsupported.clear_removeDir hremoves
  -- From here on the task stands alone.
  have hnone : (w₁.perform tools (.removeDir site.cacheDir)).2.late = [] := hlanded.2.1 rfl
  rcases outcome with e | path
  · rcases hruns₁.of_act with ⟨hwaits, -⟩ | ⟨w₂, tools', earlier', more', hdrifts', rfl, hruns₂⟩
    · cases hwaits
    obtain ⟨rfl, hemptied, hnone'⟩ := hdrifts'.of_late_eq_nil hnone
    obtain ⟨htask, hdrifts₂⟩ := hruns₂.of_done
    have hnone₂ : (w₂.perform tools' (.removeFile site.output)).2.late = [] := hnone'
    have hend : w'.files = w₂.files.removeFile site.output :=
      (hdrifts₂.of_late_eq_nil hnone₂).2.1
    have hremoved : w₂.files.removesFile site.output = true := hsucceeds _ List.mem_cons_self
    cases htask
    refine ⟨rfl, ?_, fun _ _ => ?_⟩
    · rw [hend, hemptied]
      exact hclear.mono (FileTree.entries_removeFile_subset _ _)
    · rw [hend]
      exact FileTree.not_hasFile_removeFile hremoved
  · obtain ⟨htask, hdrifts₁⟩ := hruns₁.of_done
    have hend : w'.files = w₁.files.removeDir site.cacheDir :=
      (hdrifts₁.of_late_eq_nil hnone).2.1
    cases htask
    refine ⟨rfl, ?_, nofun⟩
    rw [hend]
    exact hclear

/-- What has ended has closed. -/
theorem exists_runs_close {keep : Bool} {t : Timeline}
    (hruns : Task.Runs ((build site t).task keep, w) deeds (.done outcome, w')) :
    ∃ outcome' w₁ earlier later, deeds = earlier ++ later ∧
      Task.Runs ((build site t).task keep, w) earlier
        (close site (keep || t.settings.debug) outcome', w₁) ∧
      Task.Runs (close site (keep || t.settings.debug) outcome', w₁) later (.done outcome, w') := by
  rw [build_eq, task] at hruns ⊢
  rcases hruns.of_watch with ⟨body, hopen⟩ | hclosed
  · cases hopen
  · exact hclosed

/-- A render that is not to keep its files and has ended, however that came about, leaves nothing in
the root's directory, whatever became of the units below, if all that dropped tasks have begun had
come to its end when the root's directory was removed.  Where it ended well its output is there, and
where it did not there is no output. -/
theorem render_cleans_up (site : Site) (t : Timeline) (hdebug : t.settings.debug = false)
    (hout : site.Outside) {w w' : World} (hfiles : w.files.Supported) (hlate : w.late = [])
    {deeds : List Task.Deed} {outcome : Outcome}
    (hruns : Task.Runs ((build site t).task false, w) deeds (.done outcome, w'))
    (hsucceeds : ∀ d ∈ deeds, d.succeeds = true)
    (hlanded : ∀ d ∈ deeds, d.action = .removeDir site.cacheDir → d.before.late = []) :
    w'.files.Clear (.ofPath site.cacheDir) ∧
      (∀ v ∈ unitsBelow (build site t).children,
        w'.files.Clear (.ofPath v.site.cacheDir) ∧ w'.files.Clear (.ofPath v.site.output)) ∧
      match outcome with
      | .ok path => path = site.output ∧ w'.files.HasFile (.ofPath path)
      | .error _ => ¬ w'.files.HasFile (.ofPath site.output) := by
  have hhonours : ((build site t).task false).Honours (fun _ _ _ => True) site.contract ∅ :=
    honours_build false hout (fun _ _ _ _ _ => trivial) ∅
  have hupheld := Task.Honours.runs hhonours hlate hruns
  obtain ⟨outcome', w₁, earlier, later, rfl, hearlier, hlater⟩ := exists_runs_close hruns
  rw [hdebug] at hlater
  obtain ⟨rfl, hclear, herror⟩ := clear_of_runs_close (hearlier.supported hfiles) hlater
    (fun d hd => hsucceeds d (List.mem_append_right _ hd))
    fun d hd => hlanded d (List.mem_append_right _ hd)
  refine ⟨hclear, fun v hv => ?_, ?_⟩
  · obtain ⟨a, slot, hsite⟩ := site_of_mem_below hv
    rw [hsite]
    exact ⟨hclear.of_isWithin (site.isWithin_cacheDir_descend _),
      hclear.of_isWithin (site.isWithin_output_descend a slot)⟩
  · rcases outcome with e | path
    · exact herror e rfl
    · obtain ⟨-, rfl, hmade⟩ := hupheld
      exact ⟨rfl, hruns.hasFile _ hmade⟩

/-- Tools of which the third run of the media tool fails. -/
def failingTools : Tools :=
  { obligingTools with
    run n _ := if n = 2 then ⟨[], .failure (.internal "no codec")⟩ else ⟨[], .success⟩ }

theorem render_cleans_up_captionedNest :
    captionedNest.settings.debug = false ∧ jobSite.Outside ∧ bareWorld.files.Supported ∧
      bareWorld.late = [] ∧
      ∃ deeds e w', Task.Runs ((build jobSite captionedNest).task false, bareWorld) deeds
        (.done (.error e), w') ∧ (∀ d ∈ deeds, d.succeeds = true) ∧
        (∀ d ∈ deeds, d.action = .removeDir jobSite.cacheDir → d.before.late = []) ∧
        w'.files.Clear (.ofPath jobSite.cacheDir) ∧
        (∀ v ∈ unitsBelow (build jobSite captionedNest).children,
          w'.files.Clear (.ofPath v.site.cacheDir) ∧ w'.files.Clear (.ofPath v.site.output)) ∧
        ¬ w'.files.HasFile (.ofPath jobSite.output) := by
  have hdebug : captionedNest.settings.debug = false := by decide
  have hout : jobSite.Outside := by decide
  have houtcome : (((build jobSite captionedNest).task false).advance failingTools
      bareWorld).1.outcome? = some (.error (.internal "no codec")) := by decide +kernel
  have hsucceeds : (((build jobSite captionedNest).task false).trace failingTools bareWorld).all
      Task.Deed.succeeds = true := by decide +kernel
  have hlanded : (((build jobSite captionedNest).task false).trace failingTools bareWorld).all
      (·.before.late.isEmpty) = true := by decide +kernel
  have hruns := Task.runs_advance failingTools ((build jobSite captionedNest).task false) bareWorld
  generalize ((build jobSite captionedNest).task false).advance failingTools bareWorld = reached
    at houtcome hruns
  obtain ⟨reached, w'⟩ := reached
  cases reached <;> cases houtcome
  have hall := List.all_eq_true.1 hsucceeds
  have hnone : ∀ d ∈ ((build jobSite captionedNest).task false).trace failingTools bareWorld,
      d.action = .removeDir jobSite.cacheDir → d.before.late = [] :=
    fun d hd _ => List.isEmpty_iff.1 (List.all_eq_true.1 hlanded d hd)
  exact ⟨hdebug, hout, FileTree.supported_empty, rfl, _, _, w', hruns, hall, hnone,
    render_cleans_up jobSite captionedNest hdebug hout FileTree.supported_empty rfl hruns hall
      hnone⟩

/-! ## What comes too late -/

/-- A unit makes its directories and then goes on. -/
theorem runs_makeDirs {parent : String} {tools : Tools} {w₁ w₂ : World}
    (hparent : Path.parent? site.output = some parent)
    (hcache : w.perform tools (.makeDirs site.cacheDir) = (.ok (), w₁))
    (hdir : w₁.perform tools (.makeDirs parent) = (.ok (), w₂)) (next : Unit → Task) :
    Task.Runs (makeDirs site next, w)
      [⟨w, tools, .makeDirs site.cacheDir⟩, ⟨w₁, tools, .makeDirs parent⟩] (next (), w₂) := by
  unfold makeDirs
  rw [hparent]
  have hfirst := @Task.Step.act (.makeDirs site.cacheDir) (fun reply => Script.checkFile reply
    fun _ => .act (.makeDirs parent) fun reply => Script.checkFile reply next) w tools nofun
  have hsecond := @Task.Step.act (.makeDirs parent) (fun reply => Script.checkFile reply next) w₁
    tools nofun
  rw [hcache] at hfirst
  rw [hdir] at hsecond
  exact hfirst.runs.step hsecond

/-- Surroundings in which the root of a render has done its first actions. -/
def begunWorld (actions : List Action) : World :=
  actions.foldl (fun w a => (w.perform obligingTools a).2) bareWorld

/-- The root waits for the unit below, which is about to make its directory. -/
theorem runs_captionedNest :
    ∃ body deeds, body.pending = [.makeDirs "cache/job/composition-0-0"] ∧
      Task.Runs ((build jobSite captionedNest).task false, bareWorld) deeds
        (.watch body (close jobSite false),
          begunWorld [.makeDirs "cache/job", .makeDirs "", .register "job"]) ∧
      ∀ d ∈ deeds, d.succeeds = true ∧ d.refusal? = none := by
  have hparent : Path.parent? jobSite.output = some "" := by decide +kernel
  have hcache : bareWorld.perform obligingTools (.makeDirs "cache/job") =
      (.ok (), begunWorld [.makeDirs "cache/job"]) := Prod.ext (by decide +kernel) rfl
  have hdir : (begunWorld [.makeDirs "cache/job"]).perform obligingTools (.makeDirs "") =
      (.ok (), begunWorld [.makeDirs "cache/job", .makeDirs ""]) :=
    Prod.ext (by decide +kernel) rfl
  have hpending : Task.pendingAll (tasksBelow false (build jobSite captionedNest).children) =
      [.makeDirs "cache/job/composition-0-0"] := by decide +kernel
  have hruns (next : List String → Task) := (runs_makeDirs hparent hcache hdir
    fun _ => .act (.register "job") fun _ =>
      .join (tasksBelow false (build jobSite captionedNest).children) next).step
        (.act obligingTools nofun)
  exact ⟨.join _ _, _, hpending, (hruns _).body (close jobSite false), by decide +kernel⟩

/-- A render is cancelled while the directory of a unit below is being made.  That comes to its end
after the root's directory was removed, so the root's directory is there again when the render has
ended, although nothing has failed. -/
theorem not_clear_late :
    captionedNest.settings.debug = false ∧ jobSite.Outside ∧ bareWorld.files.Supported ∧
      bareWorld.late = [] ∧
      ∃ deeds w', Task.Runs ((build jobSite captionedNest).task false, bareWorld) deeds
        (.done (.error .cancelled), w') ∧
        (∀ d ∈ deeds, d.succeeds = true ∧ d.refusal? = none) ∧ w'.late = [] ∧
        ¬ w'.files.Clear (.ofPath jobSite.cacheDir) := by
  obtain ⟨body, deeds, hbody, hruns, hdeeds⟩ := runs_captionedNest
  have hlost : [Action.makeDirs "cache/job/composition-0-0"].Sublist body.pending := by rw [hbody]
  have hdropped := (hruns.drift .cancel).step (.dropped rfl hlost)
  have hremoved := hdropped.step (.act obligingTools nofun)
  have hlanded := hremoved.drift (@Task.Drift.land _ obligingTools [] [] _ rfl)
  have hended := hlanded.step (.act obligingTools nofun)
  refine ⟨by decide, by decide, FileTree.supported_empty, rfl, _, _, hended, ?_,
    by decide +kernel, ?_⟩
  · simp only [List.forall_mem_append]
    refine ⟨⟨⟨⟨⟨hdeeds, ?_⟩, ?_⟩, ?_⟩, ?_⟩, ?_⟩
    all_goals decide +kernel
  · unfold FileTree.Clear
    decide +kernel

end RenderUnit

end Montage
