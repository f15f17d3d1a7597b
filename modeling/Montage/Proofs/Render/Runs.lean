import Mathlib.Data.List.Forall2
import Mathlib.Data.Set.Basic
import Montage.Proofs.Files.Changes
import Montage.Render.World

/-!
# Runs of tasks

A step of a task asks at most one thing of its surroundings, so a run can be cut at everything that
was asked (`Task.Runs.split`).  While a task stands still its surroundings may drift
(`Task.Drifts`).  Running a task as far as it goes is one of its runs (`Task.runs_advance`).
-/

namespace Montage

/-- What stands beside a list is cut where the list is. -/
theorem forall₂_append_cons_iff {α β : Type} {R : α → β → Prop} {before after : List α} {x : α}
    {ys : List β} :
    List.Forall₂ R (before ++ x :: after) ys ↔
      ∃ first y rest, ys = first ++ y :: rest ∧ List.Forall₂ R before first ∧ R x y ∧
        List.Forall₂ R after rest := by
  constructor
  · intro h
    induction before generalizing ys with
    | nil =>
      cases h with
      | cons hx hafter => exact ⟨[], _, _, rfl, .nil, hx, hafter⟩
    | cons x' before ih =>
      cases h with
      | cons hx' h =>
        obtain ⟨first, y, rest, rfl, hbefore, hx, hafter⟩ := ih h
        exact ⟨_ :: first, y, rest, rfl, .cons hx' hbefore, hx, hafter⟩
  · rintro ⟨first, y, rest, rfl, hbefore, hx, hafter⟩
    induction hbefore with
    | nil => exact .cons hx hafter
    | cons hx' _ ih => exact .cons hx' ih

end Montage

namespace Montage.Task

variable {c c' c'' : Task × World} {task task' : Task} {w w' : World}
  {deeds more : List Deed} {parts : List Task} {a : Action}

/-! ## Single steps -/

/-- Nothing but the files, the board and the log changes when something is asked. -/
theorem perform_untouched {α : Type} (f : World → α)
    (hf : ∀ (w : World) (files : FileTree) (board : Board Float) (log : List Event),
      f { w with files, board, log } = f w) (tools : Tools) (w : World) (a : Action) :
    f (w.perform tools a).2 = f w := by
  have hchange (r : Except Trouble FileTree) : f (w.change r).2 = f w := by
    rcases r with t | files
    · rfl
    · exact hf w files w.board w.log
  cases a with
  | write path contents => exact hchange _
  | move source target => exact hchange _
  | produce path => exact hchange _
  | _ => exact hf w _ _ _

theorem late_perform (tools : Tools) (w : World) (a : Action) :
    (w.perform tools a).2.late = w.late :=
  perform_untouched World.late (fun _ _ _ _ => rfl) tools w a

theorem cancelled_perform (tools : Tools) (w : World) (a : Action) :
    (w.perform tools a).2.cancelled = w.cancelled :=
  perform_untouched World.cancelled (fun _ _ _ _ => rfl) tools w a

/-- What comes of the files in a step or a drift, in which at most one thing is asked. -/
def Changes (w : World) (deeds : List Deed) (w' : World) : Prop :=
  deeds = [] ∧ w'.files = w.files ∨
    ∃ tools a, deeds = [⟨w, tools, a⟩] ∧ w'.files = (w.perform tools a).2.files

theorem Step.changes (h : Step c deeds c') : Changes c.2 deeds c'.2 := by
  induction h with
  | act => exact Or.inr ⟨_, _, rfl, rfl⟩
  | part _ ih | body _ ih => exact ih
  | finished | failed | closed | dropped => exact Or.inl ⟨rfl, rfl⟩

theorem Drift.changes (h : Drift w deeds w') : Changes w deeds w' := by
  cases h with
  | cancel => exact Or.inl ⟨rfl, rfl⟩
  | land => exact Or.inr ⟨_, _, rfl, rfl⟩

/-! ## Drifting -/

/-- What happens one after the other while a task stands still. -/
inductive Drifts : World → List Deed → World → Prop where
  | refl {w : World} : Drifts w [] w
  | drift {w w' w'' : World} {deeds more : List Deed} (h : Drifts w deeds w')
      (hdrift : Drift w' more w'') : Drifts w (deeds ++ more) w''

theorem Drifts.runs (h : Drifts w deeds w') (task : Task) : Runs (task, w) deeds (task, w') := by
  induction h with
  | refl => exact .refl
  | drift _ hdrift ih => exact ih.drift hdrift

/-- Where nothing is under way, nothing but the cancellation can come. -/
theorem Drifts.of_late_eq_nil (h : Drifts w deeds w') (hlate : w.late = []) :
    deeds = [] ∧ w'.files = w.files ∧ w'.late = [] := by
  induction h with
  | refl => exact ⟨rfl, rfl, hlate⟩
  | drift _ hdrift ih =>
    obtain ⟨rfl, hfiles, hnone⟩ := ih
    cases hdrift with
    | cancel => exact ⟨rfl, hfiles, hnone⟩
    | land tools hlate => simp [hnone] at hlate

/-! ## Runs -/

theorem Runs.trans (h : Runs c deeds c') (h' : Runs c' more c'') :
    Runs c (deeds ++ more) c'' := by
  induction h' with
  | refl => rwa [List.append_nil]
  | step _ hstep ih =>
    rw [← List.append_assoc]
    exact ih.step hstep
  | drift _ hdrift ih =>
    rw [← List.append_assoc]
    exact ih.drift hdrift

/-- What holds of all that was asked and of the files behind it holds behind a run, if it does at
the start and whatever else is asked. -/
theorem Runs.files_induction {P : List Deed → FileTree → Prop} (h : Runs c deeds c')
    (hstart : P [] c.2.files)
    (hask : ∀ (deeds : List Deed) (w : World) (tools : Tools) (a : Action), P deeds w.files →
      P (deeds ++ [⟨w, tools, a⟩]) (w.perform tools a).2.files) : P deeds c'.2.files := by
  have hchange {deeds more : List Deed} {w w' : World} (hP : P deeds w.files)
      (h : Changes w more w') : P (deeds ++ more) w'.files := by
    rcases h with ⟨rfl, hfiles⟩ | ⟨tools, a, rfl, hfiles⟩
    · rwa [List.append_nil, hfiles]
    · rw [hfiles]
      exact hask deeds w tools a hP
  induction h with
  | refl => exact hstart
  | step _ hstep ih => exact hchange ih hstep.changes
  | drift _ hdrift ih => exact hchange ih hdrift.changes

theorem Step.runs (h : Step c deeds c') : Runs c deeds c' := Runs.refl.step h

/-- Where a task stands in another one and that one takes its steps, it has its runs as well. -/
theorem Runs.within (h : Runs (task, w) deeds (task', w')) (f : Task → Task)
    (hstep : ∀ {task task' : Task} {w w' : World} {deeds : List Deed},
      Step (task, w) deeds (task', w') → Step (f task, w) deeds (f task', w')) :
    Runs (f task, w) deeds (f task', w') := by
  generalize hc' : (task', w') = c' at h
  induction h generalizing task' w' with
  | refl =>
    cases hc'
    exact .refl
  | @step c' _ _ _ _ hlast ih =>
    cases hc'
    obtain ⟨task₁, w₁⟩ := c'
    exact (ih rfl).step (hstep hlast)
  | drift _ hdrift ih =>
    cases hc'
    exact (ih rfl).drift hdrift

/-- What happens to a part happens to the tasks beside it as well. -/
theorem Runs.part (h : Runs (task, w) deeds (task', w')) (before after : List Task)
    (next : List String → Task) :
    Runs (.join (before ++ task :: after) next, w) deeds
      (.join (before ++ task' :: after) next, w') :=
  h.within (fun task => .join (before ++ task :: after) next) .part

theorem Runs.body (h : Runs (task, w) deeds (task', w')) (close : Outcome → Task) :
    Runs (.watch task close, w) deeds (.watch task' close, w') :=
  h.within (fun task => .watch task close) .body

/-- A list that ends in at most one more item is cut where that item stands or before. -/
theorem eq_append_cons_cases {α : Type} {xs ys before after : List α} {x : α}
    (h : xs ++ ys = before ++ x :: after) (hys : ys = [] ∨ ∃ y, ys = [y]) :
    (∃ rest, xs = before ++ x :: rest) ∨ xs = before ∧ ys = [x] := by
  rcases hys with rfl | ⟨y, rfl⟩
  · exact Or.inl ⟨after, by rwa [List.append_nil] at h⟩
  · rcases List.eq_nil_or_concat after with rfl | ⟨rest, z, rfl⟩
    · exact Or.inr (List.append_inj' h rfl)
    · rw [List.concat_eq_append, ← List.cons_append, ← List.append_assoc] at h
      exact Or.inl ⟨rest, (List.append_inj' h rfl).1⟩

theorem Changes.singleton (h : Changes w more w') : more = [] ∨ ∃ d, more = [d] := by
  rcases h with ⟨rfl, -⟩ | ⟨tools, a, rfl, -⟩
  · exact Or.inl rfl
  · exact Or.inr ⟨_, rfl⟩

/-- A run stands still wherever something is asked, by the task or by what it left behind. -/
theorem Runs.split (h : Runs c deeds c') {earlier later : List Deed} {d : Deed}
    (hdeeds : deeds = earlier ++ d :: later) :
    ∃ c₁, Runs c earlier c₁ ∧ d.before = c₁.2 ∧
      ((∃ c₂, Step c₁ [d] c₂) ∨ d.action ∈ c₁.2.late) := by
  induction h generalizing later with
  | refl => simp at hdeeds
  | @step c₁ c₂ deeds more hruns hstep ih =>
    rcases eq_append_cons_cases hdeeds hstep.changes.singleton with ⟨rest, hrest⟩ | ⟨rfl, rfl⟩
    · exact ih hrest
    · rcases hstep.changes with ⟨hnil, -⟩ | ⟨tools, a, hone, -⟩
      · cases hnil
      · cases hone
        exact ⟨c₁, hruns, rfl, Or.inl ⟨c₂, hstep⟩⟩
  | @drift task₁ w₁ w₂ deeds more hruns hdrift ih =>
    rcases eq_append_cons_cases hdeeds hdrift.changes.singleton with ⟨rest, hrest⟩ | ⟨rfl, rfl⟩
    · exact ih hrest
    · cases hdrift with
      | land tools hlate => exact ⟨_, hruns, rfl, Or.inr (by simp [hlate])⟩

/-! ## From the first step on -/

theorem Runs.of_done {outcome : Outcome} (h : Runs (.done outcome, w) deeds c') :
    c'.1 = .done outcome ∧ Drifts w deeds c'.2 := by
  induction h with
  | refl => exact ⟨rfl, .refl⟩
  | @step c₁ _ _ _ _ hstep ih =>
    obtain ⟨htask, -⟩ := ih
    obtain ⟨task₁, w₁⟩ := c₁
    obtain rfl : task₁ = .done outcome := htask
    cases hstep
  | drift _ hdrift ih =>
    obtain ⟨htask, hdrifts⟩ := ih
    exact ⟨htask, hdrifts.drift hdrift⟩

/-- A task that asks for something waits, or has waited and asked, and goes on with the answer. -/
theorem Runs.of_act {next : a.Reply → Task} (h : Runs (.act a next, w) deeds c') :
    (c'.1 = .act a next ∧ Drifts w deeds c'.2) ∨
      ∃ w₁ tools earlier more, Drifts w earlier w₁ ∧ deeds = earlier ++ ⟨w₁, tools, a⟩ :: more ∧
        Runs (next (w₁.perform tools a).1, (w₁.perform tools a).2) more c' := by
  induction h with
  | refl => exact Or.inl ⟨rfl, .refl⟩
  | @step c₁ _ deeds _ _ hstep ih =>
    obtain ⟨task₁, w₁⟩ := c₁
    rcases ih with ⟨htask, hdrifts⟩ | ⟨w₂, tools, earlier, more, hdrifts, rfl, hruns⟩
    · obtain rfl : task₁ = .act a next := htask
      cases hstep with
      | act tools => exact Or.inr ⟨w₁, tools, deeds, [], hdrifts, rfl, .refl⟩
    · exact Or.inr ⟨w₂, tools, earlier, _, hdrifts, by simp, hruns.step hstep⟩
  | drift _ hdrift ih =>
    rcases ih with ⟨htask, hdrifts⟩ | ⟨w₂, tools, earlier, more, hdrifts, rfl, hruns⟩
    · exact Or.inl ⟨htask, hdrifts.drift hdrift⟩
    · exact Or.inr ⟨w₂, tools, earlier, _, hdrifts, by simp, hruns.drift hdrift⟩

/-- A task that watches over a body still does so, or it has closed. -/
theorem Runs.of_watch {body : Task} {close : Outcome → Task}
    (h : Runs (.watch body close, w) deeds c') :
    (∃ body', c'.1 = .watch body' close) ∨
      ∃ outcome w₁ earlier later, deeds = earlier ++ later ∧
        Runs (.watch body close, w) earlier (close outcome, w₁) ∧
        Runs (close outcome, w₁) later c' := by
  induction h with
  | refl => exact Or.inl ⟨body, rfl⟩
  | @step c₁ _ deeds _ hruns hstep ih =>
    obtain ⟨task₁, w₁⟩ := c₁
    rcases ih with ⟨body', htask⟩ | ⟨outcome, w₂, earlier, later, rfl, hearlier, hlater⟩
    · obtain rfl : task₁ = .watch body' close := htask
      cases hstep with
      | body => exact Or.inl ⟨_, rfl⟩
      | @closed outcome => exact Or.inr ⟨outcome, w₁, deeds, [], rfl, by
          simpa using hruns.step .closed, .refl⟩
      | dropped hcancelled hlost => exact Or.inr ⟨.error .cancelled, _, deeds, [], rfl, by
          simpa using hruns.step (.dropped hcancelled hlost), .refl⟩
    · exact Or.inr ⟨outcome, w₂, earlier, _, List.append_assoc .., hearlier, hlater.step hstep⟩
  | drift _ hdrift ih =>
    rcases ih with ⟨body', htask⟩ | ⟨outcome, w₂, earlier, later, rfl, hearlier, hlater⟩
    · exact Or.inl ⟨body', htask⟩
    · exact Or.inr ⟨outcome, w₂, earlier, _, List.append_assoc .., hearlier, hlater.drift hdrift⟩

/-! ## As far as a task goes -/

theorem mem_of_standing_failed {e : RenderError} (h : standing parts = .failed e) :
    .done (.error e) ∈ parts := by
  induction parts with
  | nil => cases h
  | cons task rest ih =>
    rcases hrest : standing rest with e' | _ | paths
    all_goals rcases task with (e'' | path) | _ | _ | _ <;> simp [standing, hrest] at h
    all_goals subst h
    all_goals first
      | exact List.mem_cons_self
      | exact List.mem_cons_of_mem _ (ih hrest)

theorem eq_of_standing_finished {paths : List String} (h : standing parts = .finished paths) :
    parts = paths.map fun path => .done (.ok path) := by
  induction parts generalizing paths with
  | nil =>
    cases h
    rfl
  | cons task rest ih =>
    rcases hrest : standing rest with e' | _ | paths'
    all_goals rcases task with (e'' | path) | _ | _ | _ <;> simp [standing, hrest] at h
    subst h
    rw [List.map_cons, ih hrest]

mutual
/-- What is asked when a task is run as far as it goes. -/
def trace (tools : Tools) : Task → World → List Deed
  | .done _, _ => []
  | .act a next, w =>
    if a = .await ∧ ¬w.cancelled then []
    else
      let (reply, w') := w.perform tools a
      ⟨w, tools, a⟩ :: trace tools (next reply) w'
  | .join parts next, w =>
    let (parts', w') := advanceAll tools parts w
    traceAll tools parts w ++
      match standing parts' with
      | .finished paths => trace tools (next paths) w'
      | _ => []
  | .watch body close, w =>
    if w.cancelled then trace tools (close (.error .cancelled)) w
    else
      let (body', w') := advance tools body w
      trace tools body w ++
        match body'.outcome? with
        | some outcome => trace tools (close outcome) w'
        | none => []
/-- What is asked when tasks are run one after the other, up to the first that fails. -/
def traceAll (tools : Tools) : List Task → World → List Deed
  | [], _ => []
  | task :: rest, w =>
    let (task', w') := advance tools task w
    trace tools task w ++
      match task'.outcome? with
      | some (.error _) => []
      | _ => traceAll tools rest w'
end

mutual
/-- Running a task as far as it goes is one of its runs. -/
theorem runs_advance (tools : Tools) : (task : Task) → (w : World) →
    Runs (task, w) (task.trace tools w) (task.advance tools w)
  | .done outcome, w => by
    rw [advance, trace]
    exact .refl
  | .act a next, w => by
    rw [advance, trace]
    split
    · exact .refl
    · next hready =>
      have hstep : Step (.act a next, w) _ _ := .act tools fun ha => by
        by_contra hcancelled
        exact hready ⟨ha, hcancelled⟩
      exact hstep.runs.trans (runs_advance tools (next (w.perform tools a).1) (w.perform tools a).2)
  | .join parts next, w => by
    have hparts := runs_advanceAll tools parts [] next w
    rw [advance, trace]
    generalize advanceAll tools parts w = reached at hparts ⊢
    obtain ⟨parts', w'⟩ := reached
    dsimp only at hparts ⊢
    rw [List.nil_append, List.nil_append] at hparts
    rcases hstanding : standing parts' with e | _ | paths
    · exact hparts.trans
        (Step.runs (.failed (mem_of_standing_failed hstanding) (List.nil_sublist _)))
    · rwa [List.append_nil]
    · rw [eq_of_standing_finished hstanding] at hparts
      exact hparts.trans ((Step.runs .finished).trans (runs_advance tools (next paths) w'))
  | .watch body close, w => by
    rw [advance, trace]
    split
    · next hcancelled =>
      exact (Step.runs (.dropped hcancelled (List.nil_sublist _))).trans
        (runs_advance tools (close (.error .cancelled)) w)
    · have hbody := runs_advance tools body w
      generalize advance tools body w = reached at hbody ⊢
      obtain ⟨body', w'⟩ := reached
      dsimp only
      rcases houtcome : body'.outcome? with _ | outcome
      · rw [List.append_nil]
        exact hbody.body close
      · cases body' <;> cases houtcome
        exact (hbody.body close).trans
          ((Step.runs .closed).trans (runs_advance tools (close outcome) w'))
/-- Running tasks one after the other is one of the runs that they can have beside each other. -/
theorem runs_advanceAll (tools : Tools) : (parts before : List Task) →
    (next : List String → Task) → (w : World) →
    Runs (.join (before ++ parts) next, w) (traceAll tools parts w)
      (.join (before ++ (advanceAll tools parts w).1) next, (advanceAll tools parts w).2)
  | [], before, next, w => by
    rw [advanceAll, traceAll]
    exact .refl
  | task :: rest, before, next, w => by
    have hfirst := runs_advance tools task w
    rw [advanceAll, traceAll]
    generalize advance tools task w = reached at hfirst ⊢
    obtain ⟨task', w'⟩ := reached
    dsimp only
    have hrest := runs_advanceAll tools rest (before ++ [task']) next w'
    rw [List.append_assoc, List.append_assoc] at hrest
    rcases houtcome : task'.outcome? with _ | e | path
    · exact (hfirst.part before rest next).trans hrest
    · cases task' <;> cases houtcome
      rw [List.append_nil]
      exact hfirst.part before rest next
    · exact (hfirst.part before rest next).trans hrest
end

end Montage.Task
