import Mathlib.Data.Set.Function
import Montage.Proofs.Graph.Validity

/-!
# Renamed labels

Two lists of steps differ in their labels only if one becomes the other when its labels get other
names, one to one; labels of inputs keep theirs (`Renames`).  Renamings can be undone
(`Renames.symm`) and composed (`Renames.trans`).
-/

namespace Montage.Graph

/-! ## Labels -/

/-- All labels of the steps, in the order in which they are written. -/
def labelsOf (steps : List Step) : List Label := steps.flatMap fun s => s.inputs ++ s.outputs

/-- The labels of the steps that name no input. -/
def innerOf (steps : List Step) : Set Label :=
  {label | label ∈ labelsOf steps ∧ isInput label = false}

/-- The step with each of its labels replaced. -/
def Step.mapLabels (h : Label → Label) (s : Step) : Step :=
  ⟨s.inputs.map h, s.filter, s.outputs.map h⟩

@[simp] theorem labelsOf_cons (s : Step) (steps : List Step) :
    labelsOf (s :: steps) = s.inputs ++ s.outputs ++ labelsOf steps := rfl

theorem labelsOf_map (h : Label → Label) (steps : List Step) :
    labelsOf (steps.map (Step.mapLabels h)) = (labelsOf steps).map h := by
  induction steps with
  | nil => rfl
  | cons s rest ih =>
    simp only [List.map_cons, labelsOf_cons, ih, Step.mapLabels, List.map_append]

theorem Step.mapLabels_congr {s : Step} {h h' : Label → Label}
    (e : ∀ label ∈ s.inputs ++ s.outputs, h label = h' label) : s.mapLabels h = s.mapLabels h' := by
  rw [List.forall_mem_append] at e
  rw [mapLabels, mapLabels, List.map_congr_left e.1, List.map_congr_left e.2]

theorem map_mapLabels_congr {steps : List Step} {h h' : Label → Label}
    (e : ∀ label ∈ labelsOf steps, h label = h' label) :
    steps.map (Step.mapLabels h) = steps.map (Step.mapLabels h') :=
  List.map_congr_left fun s hs => Step.mapLabels_congr fun label hlabel =>
    e label (List.mem_flatMap.2 ⟨s, hs, hlabel⟩)

theorem map_mapLabels_comp (h h' : Label → Label) (steps : List Step) :
    (steps.map (Step.mapLabels h)).map (Step.mapLabels h') =
      steps.map (Step.mapLabels (h' ∘ h)) := by
  simp [Step.mapLabels]

theorem map_mapLabels_eq_self {steps : List Step} {h : Label → Label}
    (e : ∀ label ∈ labelsOf steps, h label = label) : steps.map (Step.mapLabels h) = steps := by
  have hid : Step.mapLabels id = id := by
    funext s
    simp [Step.mapLabels]
  have hsame : steps.map (Step.mapLabels h) = steps.map (Step.mapLabels id) :=
    map_mapLabels_congr e
  rw [hsame, hid, List.map_id]

/-! ## Renaming -/

/-- The new name of a label; a label of an input has no other. -/
def renamed (f : Label → Label) (label : Label) : Label := if isInput label then label else f label

theorem renamed_of_input {f : Label → Label} {label : Label} (h : isInput label = true) :
    renamed f label = label := if_pos h

theorem renamed_of_inner {f : Label → Label} {label : Label} (h : isInput label = false) :
    renamed f label = f label := if_neg (by simp [h])

/-- The steps become the others when labels that name no inputs get other names, one to one. -/
structure Renames (f : Label → Label) (steps steps' : List Step) : Prop where
  bijOn : Set.BijOn f (innerOf steps) (innerOf steps')
  steps_eq : steps' = steps.map (Step.mapLabels (renamed f))

namespace Renames

variable {f f' : Label → Label} {steps steps' steps'' : List Step}

theorem isInput_eq (h : Renames f steps steps') {label : Label} (hlabel : label ∈ innerOf steps) :
    isInput (f label) = false := (h.bijOn.mapsTo hlabel).2

theorem symm (h : Renames f steps steps') :
    Renames (Function.invFunOn f (innerOf steps)) steps' steps := by
  have hinv := h.bijOn.invOn_invFunOn
  refine ⟨h.bijOn.symm hinv.symm, ?_⟩
  rw [h.steps_eq, map_mapLabels_comp, map_mapLabels_eq_self]
  intro label hlabel
  rcases hinput : isInput label with _ | _
  · rw [Function.comp_apply, renamed_of_inner hinput,
      renamed_of_inner (h.isInput_eq ⟨hlabel, hinput⟩)]
    exact hinv.1 ⟨hlabel, hinput⟩
  · rw [Function.comp_apply, renamed_of_input hinput, renamed_of_input hinput]

theorem trans (h : Renames f steps steps') (h' : Renames f' steps' steps'') :
    Renames (f' ∘ f) steps steps'' := by
  refine ⟨h'.bijOn.comp h.bijOn, ?_⟩
  rw [h'.steps_eq, h.steps_eq, map_mapLabels_comp]
  refine map_mapLabels_congr fun label hlabel => ?_
  rcases hinput : isInput label with _ | _
  · rw [Function.comp_apply, renamed_of_inner hinput, renamed_of_inner hinput,
      renamed_of_inner (h.isInput_eq ⟨hlabel, hinput⟩)]
    rfl
  · rw [Function.comp_apply, renamed_of_input hinput, renamed_of_input hinput,
      renamed_of_input hinput]

/-- Any names that differ and name no input will do. -/
theorem of_injOn (hinj : Set.InjOn f (innerOf steps))
    (hinner : ∀ label ∈ innerOf steps, isInput (f label) = false) :
    Renames f steps (steps.map (Step.mapLabels (renamed f))) := by
  refine ⟨?_, rfl⟩
  have himage : innerOf (steps.map (Step.mapLabels (renamed f))) = f '' innerOf steps := by
    ext label
    simp only [innerOf, labelsOf_map, List.mem_map, Set.mem_ofPred_eq, Set.mem_image]
    constructor
    · rintro ⟨⟨old, hold, rfl⟩, hlabel⟩
      rcases hinput : isInput old with _ | _
      · exact ⟨old, ⟨hold, hinput⟩, (renamed_of_inner hinput).symm⟩
      · rw [renamed_of_input hinput, hinput] at hlabel
        cases hlabel
    · rintro ⟨old, hold, rfl⟩
      exact ⟨⟨old, hold.1, renamed_of_inner hold.2⟩, hinner old hold⟩
  rw [himage]
  exact hinj.bijOn_image

end Renames

/-- The graphs differ in the names of their labels only: they have as many steps, and each step of
one is the step of the other with the new names. -/
def SameUpToNames (g g' : Graph) : Prop := ∃ f, Renames f g.steps g'.steps

end Montage.Graph
