import Montage.Proofs.Render.Runs
import Montage.Timeline.Assets

/-!
# What tasks do when nothing goes wrong

A task performs a set of trails if, when the files it looks for are there, the media tool succeeds
and nobody cancels it, it ends with a path and what it has then done is one of the trails, or it
ends because a file could not be used (`Task.Performs`).  A trail lists what matters to others:
files that were written or moved and commands that were started; tasks beside each other have their
trails interleaved.

Each step uses up the beginning of a trail (`Task.Performs.step`).  Where a task drops others
because one of them has failed, operations that those have begun still come to their end; but the
task fails then as well, and performs any trails.  So a run that has come to a good end has done a
whole trail, and one that has not ended is never stuck (`Task.Performs.runs`,
`Task.Performs.exists_step`).
-/

namespace Montage

/-! ## Interleaving -/

/-- The third list holds the items of the first two, each in its order. -/
inductive Interleaves {α : Type} : List α → List α → List α → Prop
  | nil : Interleaves [] [] []
  | left {x : α} {xs ys zs : List α} : Interleaves xs ys zs → Interleaves (x :: xs) ys (x :: zs)
  | right {y : α} {xs ys zs : List α} : Interleaves xs ys zs → Interleaves xs (y :: ys) (y :: zs)

namespace Interleaves

variable {α β : Type} {xs ys zs : List α}

theorem append_left (h : Interleaves xs ys zs) (before : List α) :
    Interleaves (before ++ xs) ys (before ++ zs) := by
  induction before with
  | nil => exact h
  | cons _ _ ih => exact ih.left

theorem append_right (h : Interleaves xs ys zs) (before : List α) :
    Interleaves xs (before ++ ys) (before ++ zs) := by
  induction before with
  | nil => exact h
  | cons _ _ ih => exact ih.right

theorem perm (h : Interleaves xs ys zs) : zs.Perm (xs ++ ys) := by
  induction h with
  | nil => exact .nil
  | left _ ih => exact ih.cons _
  | right _ ih => exact (ih.cons _).trans List.perm_middle.symm

theorem filterMap (h : Interleaves xs ys zs) (f : α → Option β) :
    Interleaves (xs.filterMap f) (ys.filterMap f) (zs.filterMap f) := by
  induction h with
  | nil => exact .nil
  | @left x _ _ _ _ ih =>
    cases hx : f x with
    | none => simpa only [List.filterMap_cons_none hx] using ih
    | some b => simpa only [List.filterMap_cons_some hx] using ih.left
  | @right y _ _ _ _ ih =>
    cases hy : f y with
    | none => simpa only [List.filterMap_cons_none hy] using ih
    | some b => simpa only [List.filterMap_cons_some hy] using ih.right

theorem eq_of_nil_right (h : Interleaves xs [] zs) : zs = xs := by
  generalize hys : [] = ys at h
  induction h with
  | nil => rfl
  | left _ ih => rw [ih hys]
  | right => cases hys

theorem eq_of_nil_left (h : Interleaves [] ys zs) : zs = ys := by
  generalize hxs : [] = xs at h
  induction h with
  | nil => rfl
  | left => cases hxs
  | right _ ih => rw [ih hxs]

/-- An order that holds along one list and puts no bounds on the other one holds along both. -/
theorem pairwise {R : α → α → Prop} (h : Interleaves xs ys zs) (hxs : xs.Pairwise R)
    (hys : ∀ y ∈ ys, ∀ z ∈ zs, R y z ∧ R z y) : zs.Pairwise R := by
  induction h with
  | nil => exact .nil
  | @left x xs ys zs hrest ih =>
    obtain ⟨hx, hxs⟩ := List.pairwise_cons.1 hxs
    refine List.pairwise_cons.2 ⟨fun z hz => ?_, ih hxs fun y hy z hz =>
      hys y hy z (List.mem_cons_of_mem _ hz)⟩
    rcases List.mem_append.1 (hrest.perm.mem_iff.1 hz) with hz | hz
    · exact hx z hz
    · exact (hys z hz x List.mem_cons_self).2
  | @right y xs ys zs _ ih =>
    refine List.pairwise_cons.2 ⟨fun z hz => ?_, ih hxs fun y' hy' z hz =>
      hys y' (List.mem_cons_of_mem _ hy') z (List.mem_cons_of_mem _ hz)⟩
    exact (hys y List.mem_cons_self z (List.mem_cons_of_mem _ hz)).1

theorem symm (h : Interleaves xs ys zs) : Interleaves ys xs zs := by
  induction h with
  | nil => exact .nil
  | left _ ih => exact ih.right
  | right _ ih => exact ih.left

end Interleaves

/-! ## Trails -/

/-- Sets of trails. -/
abbrev Trails := List Action → Prop

namespace Trails

/-- What is left of the trails that begin with these actions. -/
def after (L : Trails) (acts : List Action) : Trails := fun more => L (acts ++ more)

@[simp] theorem after_nil (L : Trails) : L.after [] = L := rfl

/-- Any trails are what is left of some. -/
theorem exists_after (L : Trails) (acts : List Action) : ∃ L' : Trails, L'.after acts = L :=
  ⟨fun more => L (more.drop acts.length), funext fun _ => congrArg L List.drop_left⟩

/-- No trail at all. -/
def none : Trails := fun _ => False

theorem after_append (L : Trails) (acts more : List Action) :
    L.after (acts ++ more) = (L.after acts).after more := by
  funext rest
  exact congrArg L (List.append_assoc ..)

/-- The trails of tasks beside each other, one trail from each set. -/
def Merged : List Trails → Trails
  | [], acts => acts = []
  | L :: rest, acts => ∃ first others, L first ∧ Merged rest others ∧ Interleaves first others acts

/-- What one of the tasks does first stands first in all. -/
theorem Merged.prepend {before later : List Trails} {L : Trails} {first acts : List Action}
    (h : Merged (before ++ L.after first :: later) acts) :
    Merged (before ++ L :: later) (first ++ acts) := by
  induction before generalizing acts with
  | nil =>
    obtain ⟨mine, others, hmine, hothers, hmerged⟩ := h
    exact ⟨first ++ mine, others, hmine, hothers, hmerged.append_left first⟩
  | cons M before ih =>
    obtain ⟨mine, others, hmine, hothers, hmerged⟩ := h
    exact ⟨mine, first ++ others, hmine, ih hothers, hmerged.append_right first⟩

theorem not_merged {before later : List Trails} {acts : List Action} :
    ¬ Merged (before ++ none :: later) acts := by
  induction before generalizing acts with
  | nil =>
    rintro ⟨first, others, hfirst, -⟩
    exact hfirst
  | cons _ _ ih =>
    rintro ⟨first, others, -, hothers, -⟩
    exact ih hothers

end Trails

/-! ## Actions -/

namespace Action

/-- What is noted of an action and its answer: a command that was started, a file that was written
or moved. -/
def notes : (a : Action) → a.Reply → List Action
  | .start unit args, _ => [.start unit args]
  | .write path contents, .ok _ => [.write path contents]
  | .move source target, .ok _ => [.move source target]
  | _, _ => []

/-- The answer grants what was asked: what is looked for is there, the media tool succeeds.  A
change to the files may still be refused. -/
def isGranted : (a : Action) → a.Reply → Bool
  | .look _, reply => reply.toOption == some true
  | .start .., run => run.ending == .success
  | _, _ => true

/-- Why a change to the files is refused. -/
def refusal? : (a : Action) → a.Reply → Option Trouble
  | .makeDirs _, .error t | .write .., .error t | .move .., .error t | .produce _, .error t => some t
  | _, _ => none

end Action

namespace Task

/-- What was answered. -/
def Deed.reply (d : Deed) : d.action.Reply := (d.before.perform d.tools d.action).1

/-- The surroundings granted what was asked. -/
def Deed.isGranted (d : Deed) : Bool := d.action.isGranted d.reply

/-- Why a change to the files was refused. -/
def Deed.refusal? (d : Deed) : Option Trouble := d.action.refusal? d.reply

/-- The trail of what was done. -/
def trail (deeds : List Deed) : List Action := deeds.flatMap fun d => d.action.notes d.reply

theorem trail_append (deeds more : List Deed) : trail (deeds ++ more) = trail deeds ++ trail more :=
  List.flatMap_append ..

@[simp] theorem trail_nil : trail [] = [] := rfl

/-- What a task is to do, and the path that it ends with. -/
structure Duty where
  trails : Trails
  path : String

section

variable (refused : Trouble → Prop)

mutual
/-- As long as everything is granted and nobody cancels the task, it does its duty, or it ends
because a change to the files was refused. -/
def Performs : Task → Trails → String → Prop
  | .done (.ok path'), L, path => path' = path ∧ L []
  | .done (.error e), _, _ => ∃ t, refused t ∧ e = .file t
  | .act a next, L, path =>
    a ≠ .await ∧ ∀ reply, a.isGranted reply = true → (∀ t, a.refusal? reply = some t → refused t) →
      Performs (next reply) (L.after (a.notes reply)) path
  | .join parts next, L, path =>
    ∃ duties : List Duty, PerformAll parts duties ∧
      ∀ acts, Trails.Merged (duties.map (·.trails)) acts →
        Performs (next (duties.map (·.path))) (L.after acts) path
  | .watch body close, L, path =>
    ∃ M path', Performs body M path' ∧
      (∀ acts, M acts → Performs (close (.ok path')) (L.after acts) path) ∧
        ∀ t L', refused t → Performs (close (.error (.file t))) L' path
/-- Each task does its own duty. -/
def PerformAll : List Task → List Duty → Prop
  | [], [] => True
  | task :: rest, d :: others => Performs task d.trails d.path ∧ PerformAll rest others
  | _, _ => False
end

end

/-! ## Steps -/

variable {refused : Trouble → Prop} {parts : List Task} {duties : List Duty} {L : Trails}
  {path : String}

theorem performAll_iff_forall₂ :
    PerformAll refused parts duties ↔
      List.Forall₂ (fun task (d : Duty) => Performs refused task d.trails d.path) parts duties := by
  induction parts generalizing duties with
  | nil => cases duties <;> simp [PerformAll]
  | cons task rest ih => cases duties <;> simp [PerformAll, ih]

theorem performAll_append_iff {before after : List Task} {task : Task} :
    PerformAll refused (before ++ task :: after) duties ↔
      ∃ first d rest, duties = first ++ d :: rest ∧ PerformAll refused before first ∧
        Performs refused task d.trails d.path ∧ PerformAll refused after rest := by
  simp only [performAll_iff_forall₂]
  exact forall₂_append_cons_iff

/-- A task waits for one that has failed, so it is going to fail as well and performs any
trails. -/
theorem Performs.of_mem_failed {parts : List Task} {next : List String → Task} {L : Trails}
    {path : String} {e : RenderError} (h : Performs refused (.join parts next) L path)
    (hfailed : .done (.error e) ∈ parts) (L' : Trails) :
    Performs refused (.done (.error e)) L' path := by
  obtain ⟨duties, hparts, -⟩ := h
  obtain ⟨before, after, rfl⟩ := List.append_of_mem hfailed
  obtain ⟨-, d, -, -, -, hfail, -⟩ := performAll_append_iff.1 hparts
  exact hfail

/-- Tasks that have all ended have nothing left of their trails. -/
theorem of_performAll_done {paths : List String}
    (h : PerformAll refused (paths.map fun path => .done (.ok path)) duties) :
    duties.map (·.path) = paths ∧ Trails.Merged (duties.map (·.trails)) [] := by
  rw [performAll_iff_forall₂, List.forall₂_map_left_iff] at h
  induction h with
  | nil => exact ⟨rfl, rfl⟩
  | cons hdone _ ih =>
    obtain ⟨hpath, hnil⟩ := hdone
    obtain ⟨hpaths, hmerged⟩ := ih
    exact ⟨by rw [List.map_cons, ← hpath, hpaths], [], [], hnil, hmerged, .nil⟩

variable {x y : Task × World} {deeds : List Deed}

/-- Cancelling cannot be taken back. -/
theorem Step.cancelled (h : Step x deeds y) (hcancelled : x.2.cancelled = true) :
    y.2.cancelled = true := by
  induction h with
  | act => exact (cancelled_perform ..).trans hcancelled
  | part _ ih | body _ ih => exact ih hcancelled
  | finished | failed | closed | dropped => exact hcancelled

theorem Drift.cancelled {w w' : World} (h : Drift w deeds w') (hcancelled : w.cancelled = true) :
    w'.cancelled = true := by
  cases h with
  | cancel => rfl
  | land => exact (cancelled_perform ..).trans hcancelled

/-- A step that is granted takes a task further along its trails, unless the task is cancelled. -/
theorem Performs.step (hstep : Step x deeds y) (hcancelled : y.2.cancelled = false)
    (hgranted : ∀ d ∈ deeds, d.isGranted = true)
    (hrefused : ∀ d ∈ deeds, ∀ t, d.refusal? = some t → refused t) {L : Trails} {path : String}
    (h : Performs refused x.1 L path) : Performs refused y.1 (L.after (trail deeds)) path := by
  induction hstep generalizing L path with
  | @act a next w tools hready =>
    have hmem : (⟨w, tools, a⟩ : Deed) ∈ [(⟨w, tools, a⟩ : Deed)] := List.mem_singleton_self _
    have htrail : trail [⟨w, tools, a⟩] = a.notes (w.perform tools a).1 := List.append_nil _
    rw [htrail]
    exact h.2 _ (hgranted _ hmem) (hrefused _ hmem)
  | @part before after task task' next w w' deeds hstep ih =>
    obtain ⟨duties, hparts, hnext⟩ := h
    obtain ⟨first, d, rest, rfl, hfirst, htask, hrest⟩ := performAll_append_iff.1 hparts
    have htask' := ih hcancelled hgranted hrefused htask
    refine ⟨first ++ ⟨d.trails.after (trail deeds), d.path⟩ :: rest, performAll_append_iff.2
      ⟨first, _, rest, rfl, hfirst, htask', hrest⟩, fun acts hacts => ?_⟩
    -- What this task has just done comes before all that is still to be done.
    have hmerged : Trails.Merged ((first ++ d :: rest).map (·.trails)) (trail deeds ++ acts) := by
      rw [List.map_append, List.map_cons] at hacts ⊢
      exact hacts.prepend
    have hpaths : (first ++ (⟨d.trails.after (trail deeds), d.path⟩ : Duty) :: rest).map (·.path) =
        (first ++ d :: rest).map (·.path) := by simp
    rw [hpaths, ← Trails.after_append]
    exact hnext _ hmerged
  | finished =>
    obtain ⟨duties, hparts, hnext⟩ := h
    obtain ⟨rfl, hmerged⟩ := of_performAll_done hparts
    exact hnext [] hmerged
  | failed hfailed => exact h.of_mem_failed hfailed _
  | body hstep ih =>
    obtain ⟨M, path', hbody, hclose, hfail⟩ := h
    have hbody' := ih hcancelled hgranted hrefused hbody
    refine ⟨M.after (trail _), path', hbody', fun acts hacts => ?_, hfail⟩
    rw [← Trails.after_append]
    exact hclose _ hacts
  | @closed outcome close w =>
    obtain ⟨M, path', hbody, hclose, hfail⟩ := h
    rcases outcome with e | path''
    · obtain ⟨t, ht, rfl⟩ := hbody
      exact hfail t _ ht
    · obtain ⟨rfl, hnil⟩ := hbody
      exact hclose [] hnil
  | dropped hdropped => exact absurd hdropped (Bool.eq_false_iff.1 hcancelled)

/-- A step that is granted leaves nothing under way, or the task is going to fail and performs any
trails, unless it is cancelled. -/
theorem Performs.late (hstep : Step x deeds y) (hcancelled : y.2.cancelled = false)
    {L : Trails} {path : String} (h : Performs refused x.1 L path) :
    y.2.late = x.2.late ∨ ∀ L', Performs refused y.1 L' path := by
  induction hstep generalizing L path with
  | act => exact Or.inl (late_perform ..)
  | part _ ih =>
    obtain ⟨duties, hparts, hnext⟩ := h
    obtain ⟨first, d, rest, rfl, hfirst, htask, hrest⟩ := performAll_append_iff.1 hparts
    refine (ih hcancelled htask).imp_right fun hfails L' => ?_
    refine ⟨first ++ ⟨Trails.none, d.path⟩ :: rest, performAll_append_iff.2
      ⟨first, _, rest, rfl, hfirst, hfails Trails.none, hrest⟩, fun acts hacts => ?_⟩
    rw [List.map_append, List.map_cons] at hacts
    exact absurd hacts Trails.not_merged
  | finished | closed => exact Or.inl rfl
  | failed hfailed => exact Or.inr (h.of_mem_failed hfailed)
  | body _ ih =>
    obtain ⟨M, path', hbody, -, hfail⟩ := h
    exact (ih hcancelled hbody).imp_right fun hfails _ =>
      ⟨Trails.none, path', hfails Trails.none, fun _ => False.elim, hfail⟩
  | dropped hdropped => exact absurd hdropped (Bool.eq_false_iff.1 hcancelled)

theorem eq_done_of_outcome? {task : Task} {outcome : Outcome} (h : task.outcome? = some outcome) :
    task = .done outcome := by
  cases task <;> cases h
  rfl

/-- The tools answer, and nobody cancels. -/
def GoesOn (tools : Tools) (w : World) (deeds : List Deed) (w' : World) : Prop :=
  (∀ d ∈ deeds, d.tools = tools) ∧ w'.cancelled = w.cancelled

theorem GoesOn.refl (tools : Tools) (w : World) : GoesOn tools w [] w :=
  ⟨fun _ hd => absurd hd List.not_mem_nil, rfl⟩

mutual
/-- A task with a duty has ended or can go on, whatever the tools do. -/
theorem Performs.exists_step : {task : Task} → {L : Trails} → {path : String} →
    Performs refused task L path → (tools : Tools) → (w : World) → task.outcome? = none →
    ∃ deeds y, Step (task, w) deeds y ∧ GoesOn tools w deeds y.2
  | .act a next, _, _, h, tools, w, _ =>
    ⟨_, _, .act tools fun ha => absurd ha h.1, by simp, cancelled_perform ..⟩
  | .join parts next, _, _, ⟨_, hparts, _⟩, tools, w, _ => by
    rcases PerformAll.exists_step hparts tools w with ⟨paths, rfl⟩ | ⟨e, hfailed⟩ | hstep
    · exact ⟨[], _, .finished, .refl tools w⟩
    · exact ⟨[], _, .failed hfailed (List.nil_sublist _), .refl tools w⟩
    · obtain ⟨before, task, after, rfl, deeds, y, hstep, hon⟩ := hstep
      exact ⟨deeds, (_, y.2), .part hstep, hon⟩
  | .watch body close, _, _, ⟨_, _, hbody, _⟩, tools, w, _ => by
    cases houtcome : body.outcome? with
    | some outcome =>
      rw [eq_done_of_outcome? houtcome]
      exact ⟨[], _, .closed, .refl tools w⟩
    | none =>
      obtain ⟨deeds, y, hstep, hon⟩ := Performs.exists_step hbody tools w houtcome
      exact ⟨deeds, (.watch y.1 close, y.2), .body hstep, hon⟩
/-- Tasks with duties have all ended well, or one of them has failed or can go on. -/
theorem PerformAll.exists_step : {parts : List Task} → {duties : List Duty} →
    PerformAll refused parts duties → (tools : Tools) → (w : World) →
    (∃ paths : List String, parts = paths.map fun path => .done (.ok path)) ∨
      (∃ e, .done (.error e) ∈ parts) ∨ ∃ before task after, parts = before ++ task :: after ∧
        ∃ deeds y, Step (task, w) deeds y ∧ GoesOn tools w deeds y.2
  | [], _, _, _, _ => Or.inl ⟨[], rfl⟩
  | task :: rest, d :: _, ⟨htask, hrest⟩, tools, w => by
    cases houtcome : task.outcome? with
    | none => exact Or.inr (Or.inr ⟨[], task, rest, rfl, htask.exists_step tools w houtcome⟩)
    | some outcome =>
      rw [eq_done_of_outcome? houtcome] at htask ⊢
      rcases outcome with e | path
      · exact Or.inr (Or.inl ⟨e, List.mem_cons_self⟩)
      · rcases PerformAll.exists_step hrest tools w with ⟨paths, rfl⟩ | ⟨e, hfailed⟩ | hstep
        · exact Or.inl ⟨path :: paths, rfl⟩
        · exact Or.inr (Or.inl ⟨e, List.mem_cons_of_mem _ hfailed⟩)
        · obtain ⟨before, task', after, rfl, hstep⟩ := hstep
          exact Or.inr (Or.inr ⟨_ :: before, task', after, rfl, hstep⟩)
end

/-! ## Runs -/

theorem Runs.cancelled (h : Runs x deeds y) (hcancelled : x.2.cancelled = true) :
    y.2.cancelled = true := by
  induction h with
  | refl => exact hcancelled
  | step _ hstep ih => exact hstep.cancelled ih
  | drift _ hdrift ih => exact hdrift.cancelled ih

/-- Along a run in which everything is granted nothing is ever under way, and the task does its
duty, or it is going to fail and performs any trails. -/
theorem Performs.runs_cases {L : Trails} {path : String} (h : Performs refused x.1 L path)
    (hlate : x.2.late = []) (hruns : Runs x deeds y) (hcancelled : y.2.cancelled = false)
    (hgranted : ∀ d ∈ deeds, d.isGranted = true)
    (hrefused : ∀ d ∈ deeds, ∀ t, d.refusal? = some t → refused t) :
    (y.2.late = [] ∧ Performs refused y.1 (L.after (trail deeds)) path) ∨
      ∀ L', Performs refused y.1 L' path := by
  induction hruns with
  | refl => exact Or.inl ⟨hlate, h⟩
  | @step c c' deeds more _ hstep ih =>
    rw [List.forall_mem_append] at hgranted hrefused
    have hbefore : c.2.cancelled = false :=
      Bool.eq_false_iff.2 fun hc => Bool.eq_false_iff.1 hcancelled (hstep.cancelled hc)
    rcases ih hbefore hgranted.1 hrefused.1 with ⟨hnone, hperforms⟩ | hfails
    · refine (hperforms.late hstep hcancelled).imp_left fun hsame => ⟨hsame.trans hnone, ?_⟩
      rw [trail_append, Trails.after_append]
      exact hperforms.step hstep hcancelled hgranted.2 hrefused.2
    · refine Or.inr fun L' => ?_
      obtain ⟨L, rfl⟩ := L'.exists_after (trail more)
      exact (hfails L).step hstep hcancelled hgranted.2 hrefused.2
  | drift _ hdrift ih =>
    rw [List.forall_mem_append] at hgranted hrefused
    cases hdrift with
    | cancel => cases hcancelled
    | land tools hunder =>
      have hbefore := (cancelled_perform ..).symm.trans hcancelled
      rcases ih hbefore hgranted.1 hrefused.1 with ⟨hnone, -⟩ | hfails
      · have hempty := hunder.symm.trans hnone
        simp at hempty
      · exact Or.inr hfails

/-- Along a run in which everything is granted a task does its duty. -/
theorem Performs.runs {L : Trails} {path : String} (h : Performs refused x.1 L path)
    (hlate : x.2.late = []) (hruns : Runs x deeds y) (hcancelled : y.2.cancelled = false)
    (hgranted : ∀ d ∈ deeds, d.isGranted = true)
    (hrefused : ∀ d ∈ deeds, ∀ t, d.refusal? = some t → refused t) :
    Performs refused y.1 (L.after (trail deeds)) path := by
  rcases h.runs_cases hlate hruns hcancelled hgranted hrefused with ⟨-, hperforms⟩ | hfails
  · exact hperforms
  · exact hfails _

theorem Performs.done {L : Trails} {path : String} {outcome : Outcome}
    (h : Performs refused (.done outcome) L path) :
    (∃ t, refused t ∧ outcome = .error (.file t)) ∨ outcome = .ok path ∧ L [] := by
  rcases outcome with e | path'
  · obtain ⟨t, ht, rfl⟩ := h
    exact Or.inl ⟨t, ht, rfl⟩
  · exact Or.inr ⟨congrArg Except.ok h.1, h.2⟩

end Task

/-! ## Scripts -/

open Script

/-- When everything is granted, the script does this and yields the value. -/
def Script.Does {α : Type} (s : Script α) (acts : List Action) (x : α) : Prop :=
  ∀ (refused : Trouble → Prop) (next : α → Task) (L : Trails) (path : String),
    Task.Performs refused (next x) (L.after acts) path → Task.Performs refused (s next) L path

namespace Script

variable {α β : Type} {s : Script α} {acts more : List Action} {x : α} {y : β}

theorem does_pure (x : α) : Does (pure x) [] x := fun _ _ _ _ h => h

theorem Does.bind {f : α → Script β} (h : Does s acts x) (hf : Does (f x) more y) :
    Does (s >>= f) (acts ++ more) y := fun refused next L path hnext =>
  h refused _ L path (hf refused next _ path (by rwa [← Trails.after_append]))

/-- A script that does nothing notable comes before another one. -/
theorem Does.then {f : α → Script β} (h : Does s [] x) (hf : Does (f x) more y) :
    Does (s >>= f) more y := h.bind hf

/-- What is answered is determined once it is granted. -/
theorem does_ask {a : Action} {reply : a.Reply} (hawait : a ≠ .await)
    (h : ∀ reply', a.isGranted reply' = true → reply' = reply) :
    Does (ask a) (a.notes reply) reply :=
  fun _ _ _ _ hnext => ⟨hawait, fun reply' hgranted _ => h reply' hgranted ▸ hnext⟩

/-- What is refused ends the task; otherwise it goes on. -/
theorem performs_checkFile {refused : Trouble → Prop} {r : Except Trouble Unit}
    {next : Unit → Task} {L : Trails} {path : String} (hrefused : ∀ t, r = .error t → refused t)
    (h : r = .ok () → Task.Performs refused (next ()) L path) :
    Task.Performs refused (checkFile r next) L path := by
  rcases r with t | u
  · exact ⟨t, hrefused t rfl, rfl⟩
  · exact h rfl

theorem does_makeDirs (path : String) : Does (do checkFile (← ask (.makeDirs path))) [] () :=
  fun _ _ _ _ hnext => ⟨by simp, fun _ _ hrefused =>
    performs_checkFile (fun t ht => hrefused t (by rw [ht]; rfl)) fun _ => hnext⟩

theorem does_write (path contents : String) :
    Does (do checkFile (← ask (.write path contents))) [.write path contents] () :=
  fun _ _ _ _ hnext => ⟨by simp, fun _ _ hrefused =>
    performs_checkFile (fun t ht => hrefused t (by rw [ht]; rfl)) fun hreply => hreply ▸ hnext⟩

theorem does_move (source target : String) :
    Does (do checkFile (← ask (.move source target))) [.move source target] () :=
  fun _ _ _ _ hnext => ⟨by simp, fun _ _ hrefused =>
    performs_checkFile (fun t ht => hrefused t (by rw [ht]; rfl)) fun hreply => hreply ▸ hnext⟩

theorem does_produce (path : String) : Does (do checkFile (← ask (.produce path))) [] () :=
  fun _ _ _ _ hnext => ⟨by simp, fun _ _ hrefused =>
    performs_checkFile (fun t ht => hrefused t (by rw [ht]; rfl)) fun _ => hnext⟩

theorem does_look (path : String) : Does (ask (.look path)) [] (.ok true) := by
  refine does_ask (by simp) fun reply hgranted => ?_
  rcases reply with e | found
  · cases hgranted
  · simpa [Action.isGranted, Except.toOption] using hgranted

/-- Scripts that yield the items of a list and do nothing notable leave the list as it is. -/
theorem does_mapList {f : α → Script α} {xs : List α} (h : ∀ x ∈ xs, Does (f x) [] x) :
    Does (mapList f xs) [] xs := by
  induction xs with
  | nil => exact does_pure []
  | cons x rest ih =>
    obtain ⟨hx, hrest⟩ := List.forall_mem_cons.1 h
    exact hx.then ((ih hrest).then (does_pure _))

theorem does_mapOption {f : α → Script α} {o : Option α} (h : ∀ x ∈ o, Does (f x) [] x) :
    Does (mapOption f o) [] o := by
  cases o with
  | none => exact does_pure none
  | some x => exact (h x rfl).then (does_pure _)

end Script

end Montage
