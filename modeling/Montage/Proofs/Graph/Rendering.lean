import Montage.Graph.Basic
import Montage.Proofs.Filter.Reading

/-!
# Graphs as text

A graph is written step after step.  Where a step stands in the text does not depend on the steps
behind it (`exists_render_eq`), so it can be told for every graph that goes on from there how a
reader takes the arguments of the step's filter (`ArgumentsRead`).
-/

namespace Montage.Graph

/-- The text in front of a step, given the steps before it. -/
def lead (steps : List Step) : String := String.join (steps.map fun s => s.render ++ ";")

theorem lead_cons (s : Step) (steps : List Step) :
    (lead (s :: steps)).toList = s.render.toList ++ ';' :: (lead steps).toList := by
  simp only [lead, String.toList_join, List.map_cons, List.flatMap_cons, String.toList_append,
    List.append_assoc]
  rfl

/-- In front of a step the text of the graph is that of the steps before it. -/
theorem exists_render_eq {g : Graph} {steps : List Step} {s : Step}
    (h : steps ++ [s] <+: g.steps) :
    ∃ more, g.render.toList = (lead steps).toList ++ (s.render.toList ++ more) := by
  obtain ⟨later, hsteps⟩ := h
  rw [render, ← hsteps, String.toList_intercalate, List.append_assoc]
  clear hsteps
  induction steps with
  | nil =>
    cases later with
    | nil => exact ⟨[], by simp [lead]⟩
    | cons s' later => exact ⟨_, by simp [lead, List.intercalate_cons_cons]; rfl⟩
  | cons s' steps ih =>
    obtain ⟨more, hmore⟩ := ih
    refine ⟨more, ?_⟩
    have hne : ((steps ++ ([s] ++ later)).map Step.render).map String.toList ≠ [] := by simp
    rw [List.cons_append, List.map_cons, List.map_cons, List.intercalate_cons_of_ne_nil hne, hmore,
      lead_cons, List.append_assoc, List.append_assoc]
    rfl

/-- In the text of the graph, behind `steps`, stands a filter of the given name; a reader that
starts at its arguments reads `args` and stops right where the output of the filter is named. -/
def ArgumentsRead (g : Graph) (steps : List Step) (input : Label) (name arguments : String)
    (output : Label) (args : List Char) : Prop :=
  ∃ more, g.render.toList = (lead steps ++ bracketed input ++ name ++ "=" ++ arguments).toList ++
      ((bracketed output).toList ++ more) ∧
    Filter.token Filter.filterEnds (arguments.toList ++ ((bracketed output).toList ++ more)) =
      (args, (bracketed output).toList ++ more)

/-- The same, wherever the reader stops. -/
def ArgumentsTaken (g : Graph) (steps : List Step) (input : Label) (name arguments : String)
    (output : Label) (args : List Char) : Prop :=
  ∃ more, g.render.toList = (lead steps ++ bracketed input ++ name ++ "=" ++ arguments).toList ++
      ((bracketed output).toList ++ more) ∧
    (Filter.token Filter.filterEnds (arguments.toList ++ ((bracketed output).toList ++ more))).1 =
      args

variable {g : Graph} {steps : List Step} {input output : Label} {name arguments : String}
  {args : List Char}

theorem toList_bracketed (label : Label) :
    (bracketed label).toList = '[' :: (label.toList ++ [']']) := by
  rw [bracketed, String.toList_append, String.toList_append]
  rfl

/-- Where the arguments of the step's filter stand in the text of the graph. -/
theorem exists_toList_render_iff
    (h : steps ++ [⟨[input], name ++ "=" ++ arguments, [output]⟩] <+: g.steps) :
    ∃ more, (bracketed output).toList ++ more = '[' :: (output.toList ++ ']' :: more) ∧
      ∀ more', g.render.toList =
        (lead steps ++ bracketed input ++ name ++ "=" ++ arguments).toList ++
          ((bracketed output).toList ++ more') ↔ more' = more := by
  obtain ⟨more, hmore⟩ := exists_render_eq h
  have htext : g.render.toList =
      (lead steps ++ bracketed input ++ name ++ "=" ++ arguments).toList ++
        ((bracketed output).toList ++ more) := by
    rw [hmore]
    simp [Step.render]
  refine ⟨more, by simp [toList_bracketed], fun more' => ⟨fun htext' => ?_, fun e => e ▸ htext⟩⟩
  rw [htext, List.append_cancel_left_eq, List.append_cancel_left_eq] at htext'
  exact htext'.symm

/-- The reader's result does not depend on what stands behind the step. -/
theorem exists_argumentsRead_iff
    (h : steps ++ [⟨[input], name ++ "=" ++ arguments, [output]⟩] <+: g.steps) :
    ∃ more, ∀ args, ArgumentsRead g steps input name arguments output args ↔
      Filter.token Filter.filterEnds (arguments.toList ++ '[' :: more) = (args, '[' :: more) := by
  obtain ⟨more, hlabel, hmore⟩ := exists_toList_render_iff h
  refine ⟨output.toList ++ ']' :: more, fun args => ?_⟩
  simp only [ArgumentsRead, hmore, exists_eq_left, hlabel]

theorem exists_argumentsTaken
    (h : steps ++ [⟨[input], name ++ "=" ++ arguments, [output]⟩] <+: g.steps) :
    ∃ more, ArgumentsTaken g steps input name arguments output
      (Filter.token Filter.filterEnds (arguments.toList ++ '[' :: more)).1 := by
  obtain ⟨more, hlabel, hmore⟩ := exists_toList_render_iff h
  refine ⟨output.toList ++ ']' :: more, more, (hmore more).2 rfl, ?_⟩
  rw [hlabel]

/-- Arguments that pass through the reader of filters are read as what they pass to. -/
theorem argumentsRead_of_passes
    (h : steps ++ [⟨[input], name ++ "=" ++ arguments, [output]⟩] <+: g.steps)
    (hpasses : Filter.Passes Filter.filterEnds arguments.toList args)
    (hfirst : Filter.StartsFirm arguments.toList) (hlast : Filter.EndsFirm args) :
    ArgumentsRead g steps input name arguments output args := by
  obtain ⟨more, hread⟩ := exists_argumentsRead_iff h
  exact (hread args).2
    (Filter.token_of_passes hpasses (by decide) (by decide) hfirst hlast)

end Montage.Graph
