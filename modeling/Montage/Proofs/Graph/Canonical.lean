import Mathlib.Data.List.Basic
import Montage.Graph.Canonical
import Montage.Proofs.Graph.Labels
import Montage.Proofs.Graph.Renaming
import Montage.Proofs.Graph.Rendering

/-!
# What the canonical form decides

The canonical form writes a graph down with other names, the numbers of its labels by their first
appearance (`canonical_eq`).  A renaming takes the labels met in one graph to those met in the other
in the same order (`Renames.metIn_eq`), so graphs that differ in names only get the same numbers.
On the other hand a step can be told from its text if its filter is there and opens no bracket
(`Step.render_inj`), so graphs with the same form have the same numbered steps, and each is a
renaming of these.
-/

namespace Montage.Graph

/-! ## The labels met -/

namespace Met

/-- The labels met once this one is. -/
def meet (met : Met) (label : Label) : Met := (met.rename label).2

def meetAll (met : Met) (labels : List Label) : Met := labels.foldl meet met

theorem findIdx?_eq_none {met : Met} {label : Label} (h : label ∉ met) :
    met.findIdx? (· == label) = none := by
  simp only [List.findIdx?_eq_none_iff, beq_eq_false_iff_ne]
  rintro other hother rfl
  exact h hother

theorem meet_eq (met : Met) (label : Label) :
    met.meet label = if isInput label = true ∨ label ∈ met then met else met ++ [label] := by
  unfold meet rename
  by_cases hinput : isInput label = true
  · simp [hinput]
  · by_cases hmem : label ∈ met
    · have hfind : (met.findIdx? (· == label)).isSome = true := by simp [hmem]
      obtain ⟨index, hindex⟩ := Option.isSome_iff_exists.1 hfind
      simp [hinput, hmem, hindex]
    · simp [hinput, hmem, findIdx?_eq_none hmem]

theorem meet_of_input {label : Label} (h : isInput label = true) (met : Met) :
    met.meet label = met := by
  rw [meet_eq, if_pos (Or.inl h)]

theorem prefix_meet (met : Met) (label : Label) : met <+: met.meet label := by
  rw [meet_eq]
  split
  · exact List.prefix_rfl
  · exact List.prefix_append ..

theorem prefix_meetAll (met : Met) (labels : List Label) : met <+: met.meetAll labels := by
  induction labels generalizing met with
  | nil => exact List.prefix_rfl
  | cons label rest ih => exact (met.prefix_meet label).trans (ih _)

theorem mem_meet {met : Met} {label : Label} (h : isInput label = false) :
    label ∈ met.meet label := by
  rw [meet_eq]
  split
  · next hmet => simpa [h] using hmet
  · simp

theorem forall_mem_meet {met : Met} {label : Label} {P : Label → Prop}
    (h : ∀ other ∈ met, P other) (hlabel : isInput label = false → P label) :
    ∀ other ∈ met.meet label, P other := by
  rw [meet_eq]
  split
  · exact h
  · next hnew =>
    rw [not_or, Bool.not_eq_true] at hnew
    exact List.forall_mem_append.2 ⟨h, List.forall_mem_singleton.2 (hlabel hnew.1)⟩

theorem mem_meetAll {met : Met} {labels : List Label} {label : Label} (hlabel : label ∈ labels)
    (h : isInput label = false) : label ∈ met.meetAll labels := by
  induction labels generalizing met with
  | nil => cases hlabel
  | cons first rest ih =>
    rcases List.mem_cons.1 hlabel with rfl | hlabel
    · exact (prefix_meetAll (met.meet label) rest).subset (mem_meet h)
    · exact ih hlabel

theorem forall_mem_meetAll {met : Met} {labels : List Label} {P : Label → Prop}
    (h : ∀ other ∈ met, P other) (hlabels : ∀ label ∈ labels, isInput label = false → P label) :
    ∀ other ∈ met.meetAll labels, P other := by
  induction labels generalizing met with
  | nil => exact h
  | cons label rest ih =>
    rw [List.forall_mem_cons] at hlabels
    exact ih (forall_mem_meet h hlabels.1) hlabels.2

end Met

/-- The labels of the steps in the order of their first appearance. -/
def metIn (steps : List Step) : Met := Met.meetAll [] (labelsOf steps)

theorem mem_innerOf_of_mem_metIn {steps : List Step} :
    ∀ label ∈ metIn steps, label ∈ innerOf steps :=
  Met.forall_mem_meetAll (by simp) fun _ hlabel hinner => ⟨hlabel, hinner⟩

/-- The name of a label by its first appearance. -/
def numberName (met : Met) (label : Label) : Label := "l" ++ toString (met.idxOf label)

theorem isInput_numberName (met : Met) (label : Label) :
    isInput (numberName met label) = false :=
  isInput_eq_false_iff.2 (inputIndex?_tagged (by decide) _)

theorem numberName_injOn (steps : List Step) :
    Set.InjOn (numberName (metIn steps)) (innerOf steps) := by
  intro label hlabel other hother e
  have hnumber := tagged_inj (by decide) (by decide) e
  exact (List.idxOf_inj (Met.mem_meetAll hlabel.1 hlabel.2)).1 hnumber

/-- The steps with the numbers of their labels for names. -/
def numbered (steps : List Step) : List Step :=
  steps.map (Step.mapLabels (renamed (numberName (metIn steps))))

theorem renames_numbered (steps : List Step) :
    Renames (numberName (metIn steps)) steps (numbered steps) :=
  .of_injOn (numberName_injOn steps) fun _ _ => isInput_numberName ..

/-! ## The canonical form is a renaming -/

namespace Met

variable {met all : Met}

/-- A label is written with the number that it has among all labels met in the end. -/
theorem rename_eq {label : Label} (h : met.meet label <+: all) :
    met.rename label = (bracketed (renamed (numberName all) label), met.meet label) := by
  refine Prod.ext ?_ rfl
  unfold rename
  by_cases hinput : isInput label = true
  · rw [if_pos hinput, renamed_of_input hinput]
  · have hinner : isInput label = false := by simpa using hinput
    obtain ⟨later, rfl⟩ := h
    rw [if_neg hinput, renamed_of_inner hinner, numberName,
      List.idxOf_append_of_mem (mem_meet hinner), meet_eq]
    by_cases hmem : label ∈ met
    · have hfind : met.findIdx? (· == label) = some (met.idxOf label) := by
        rw [List.findIdx?_eq_some_iff_findIdx_eq]
        exact ⟨List.idxOf_lt_length_of_mem hmem, rfl⟩
      rw [hfind, if_pos (Or.inr hmem)]
    · have hlength : (met ++ [label]).idxOf label = met.length := by
        rw [List.idxOf_append_of_notMem hmem]
        simp
      rw [findIdx?_eq_none hmem, if_neg (by simp [hinput, hmem]), hlength]

theorem renameAll_eq {labels : List Label} (h : met.meetAll labels <+: all) :
    met.renameAll labels =
      (String.join ((labels.map (renamed (numberName all))).map bracketed),
        met.meetAll labels) := by
  induction labels generalizing met with
  | nil => rfl
  | cons label rest ih =>
    have hfirst : met.meet label <+: all := (prefix_meetAll _ rest).trans h
    have hrest : (met.meet label).renameAll rest = _ := ih h
    rw [renameAll, rename_eq hfirst, List.map_cons, List.map_cons, String.join_cons]
    dsimp only
    rw [hrest]
    rfl

theorem renameStep_eq {s : Step} (h : met.meetAll (s.inputs ++ s.outputs) <+: all) :
    met.renameStep s =
      ((s.mapLabels (renamed (numberName all))).render, met.meetAll (s.inputs ++ s.outputs)) := by
  have happend : met.meetAll (s.inputs ++ s.outputs) =
      (met.meetAll s.inputs).meetAll s.outputs := List.foldl_append
  rw [happend] at h ⊢
  have hinputs : met.meetAll s.inputs <+: all := (prefix_meetAll _ s.outputs).trans h
  rw [renameStep, renameAll_eq hinputs]
  dsimp only
  rw [renameAll_eq h]
  rfl

theorem renameSteps_eq {steps : List Step} (h : met.meetAll (labelsOf steps) <+: all) :
    met.renameSteps steps =
      (steps.map (Step.mapLabels (renamed (numberName all)))).map Step.render := by
  induction steps generalizing met with
  | nil => rfl
  | cons s rest ih =>
    have happend : met.meetAll (labelsOf (s :: rest)) =
        (met.meetAll (s.inputs ++ s.outputs)).meetAll (labelsOf rest) := List.foldl_append
    rw [happend] at h
    rw [renameSteps, renameStep_eq ((prefix_meetAll _ _).trans h)]
    exact congrArg _ (ih h)

end Met

/-- The canonical form is the text of the numbered steps. -/
theorem canonical_eq (g : Graph) : g.canonical = (numbered g.steps).map Step.render :=
  Met.renameSteps_eq List.prefix_rfl

/-! ## Renamed graphs have the same form -/

namespace Renames

variable {f : Label → Label} {steps steps' : List Step} {met : Met}

theorem meet_map (h : Renames f steps steps') (hmet : ∀ label ∈ met, label ∈ innerOf steps)
    {label : Label} (hlabel : label ∈ labelsOf steps) :
    Met.meet (met.map f) (renamed f label) = (met.meet label).map f := by
  rcases hinput : isInput label with _ | _
  · have hinner : label ∈ innerOf steps := ⟨hlabel, hinput⟩
    rw [renamed_of_inner hinput, Met.meet_eq, Met.meet_eq, h.isInput_eq hinner, hinput]
    by_cases hmem : label ∈ met
    · have hmem' : f label ∈ met.map f := List.mem_map_of_mem hmem
      rw [if_pos (Or.inr hmem), if_pos (Or.inr hmem')]
    · have hmem' : f label ∉ met.map f := by
        intro hmem'
        obtain ⟨other, hother, e⟩ := List.mem_map.1 hmem'
        rw [h.bijOn.injOn (hmet other hother) hinner e] at hother
        exact hmem hother
      simp only [hmem, hmem', or_false, if_false, List.map_append, List.map_singleton,
        Bool.false_eq_true]
  · rw [renamed_of_input hinput, Met.meet_of_input hinput, Met.meet_of_input hinput]

theorem meetAll_map (h : Renames f steps steps') (hmet : ∀ label ∈ met, label ∈ innerOf steps)
    {labels : List Label} (hlabels : ∀ label ∈ labels, label ∈ labelsOf steps) :
    Met.meetAll (met.map f) (labels.map (renamed f)) = (met.meetAll labels).map f := by
  induction labels generalizing met with
  | nil => rfl
  | cons label rest ih =>
    rw [List.forall_mem_cons] at hlabels
    have hmeet : ∀ other ∈ met.meet label, other ∈ innerOf steps :=
      Met.forall_mem_meet hmet fun hinner => ⟨hlabels.1, hinner⟩
    show Met.meetAll (Met.meet (met.map f) (renamed f label)) (rest.map (renamed f)) = _
    rw [h.meet_map hmet hlabels.1]
    exact ih hmeet hlabels.2

/-- The labels of the renamed steps are met in the same order. -/
theorem metIn_eq (h : Renames f steps steps') : metIn steps' = (metIn steps).map f := by
  rw [metIn, h.steps_eq, labelsOf_map]
  have hnone : ∀ label ∈ ([] : Met), label ∈ innerOf steps := by simp
  exact h.meetAll_map hnone fun label hlabel => hlabel

theorem idxOf_map (h : Renames f steps steps') (hmet : ∀ label ∈ met, label ∈ innerOf steps)
    {label : Label} (hlabel : label ∈ innerOf steps) :
    (met.map f).idxOf (f label) = met.idxOf label := by
  induction met with
  | nil => rfl
  | cons first rest ih =>
    rw [List.forall_mem_cons] at hmet
    rw [List.map_cons]
    by_cases hsame : first = label
    · rw [hsame, List.idxOf_cons_self, List.idxOf_cons_self]
    · have hsame' : f first ≠ f label := fun e => hsame (h.bijOn.injOn hmet.1 hlabel e)
      rw [List.idxOf_cons_ne _ hsame, List.idxOf_cons_ne _ hsame', ih hmet.2]

theorem numbered_eq (h : Renames f steps steps') : numbered steps' = numbered steps := by
  unfold numbered
  rw [h.metIn_eq, h.steps_eq, map_mapLabels_comp]
  refine map_mapLabels_congr fun label hlabel => ?_
  rw [Function.comp_apply]
  rcases hinput : isInput label with _ | _
  · have hinner : label ∈ innerOf steps := ⟨hlabel, hinput⟩
    rw [renamed_of_inner hinput, renamed_of_inner (h.isInput_eq hinner), renamed_of_inner hinput,
      numberName, numberName, h.idxOf_map mem_innerOf_of_mem_metIn hinner]
  · rw [renamed_of_input hinput, renamed_of_input hinput, renamed_of_input hinput]

end Renames

/-! ## Reading the form back -/

/-- Labels as they are written next to each other. -/
def bracketedAll (labels : List Label) : List Char :=
  labels.flatMap fun label => '[' :: (label.toList ++ [']'])

theorem toList_render (s : Step) :
    s.render.toList = bracketedAll s.inputs ++ (s.filter.toList ++ bracketedAll s.outputs) := by
  simp [Step.render, bracketedAll, String.toList_join, List.flatMap_map, toList_bracketed,
    List.append_assoc]

/-- Labels in front of something else are told from it. -/
theorem bracketedAll_append_inj {labels labels' : List Label} {rest rest' : List Char}
    (hlabels : ∀ label ∈ labels, ']' ∉ label.toList)
    (hlabels' : ∀ label ∈ labels', ']' ∉ label.toList)
    (hrest : rest.head? ≠ some '[') (hrest' : rest'.head? ≠ some '[')
    (e : bracketedAll labels ++ rest = bracketedAll labels' ++ rest') :
    labels = labels' ∧ rest = rest' := by
  induction labels generalizing labels' with
  | nil =>
    cases labels' with
    | nil => exact ⟨rfl, e⟩
    | cons label' labels' =>
      have hhead : rest = '[' :: _ := e
      simp [hhead] at hrest
  | cons label labels ih =>
    cases labels' with
    | nil =>
      have hhead : rest' = '[' :: _ := e.symm
      simp [hhead] at hrest'
    | cons label' labels' =>
      rw [List.forall_mem_cons] at hlabels hlabels'
      simp only [bracketedAll, List.flatMap_cons, List.cons_append, List.append_assoc,
        List.nil_append, List.cons.injEq, true_and] at e
      have hcut := congrArg (Text.cut ']') e
      rw [Text.cut_append hlabels.1, Text.cut_append hlabels'.1, Option.some.injEq,
        Prod.mk.injEq, String.toList_inj] at hcut
      obtain ⟨rfl, hsame⟩ := ih hlabels.2 hlabels'.2 hcut.2
      exact ⟨by rw [hcut.1], hsame⟩

/-- A filter is there and opens no bracket, so it is told from the labels around it. -/
def Delimited (filter : String) : Prop := filter ≠ "" ∧ '[' ∉ filter.toList

instance (filter : String) : Decidable (Delimited filter) := inferInstanceAs (Decidable (_ ∧ _))

theorem Delimited.head?_ne {filter : String} (h : Delimited filter) (more : List Char) :
    (filter.toList ++ more).head? ≠ some '[' := by
  rcases hfilter : filter.toList with _ | ⟨c, cs⟩
  · exact absurd (String.toList_eq_nil_iff.1 hfilter) h.1
  · have hc : '[' ∉ c :: cs := hfilter ▸ h.2
    rintro e
    rw [List.cons_append, List.head?_cons, Option.some.injEq] at e
    exact hc (e ▸ List.mem_cons_self)

theorem Delimited.takeWhile_eq {filter : String} (h : Delimited filter) (labels : List Label) :
    (filter.toList ++ bracketedAll labels).takeWhile (· != '[') = filter.toList := by
  have hall : ∀ c ∈ filter.toList, (c != '[') = true := fun c hc => by
    rw [bne_iff_ne]
    rintro rfl
    exact h.2 hc
  rw [List.takeWhile_append_of_pos hall]
  cases labels <;> simp [bracketedAll]

/-- A step is told from its text if its filter is delimited and no label closes a bracket. -/
theorem Step.render_inj {s s' : Step} (hs : ∀ label ∈ s.inputs ++ s.outputs, ']' ∉ label.toList)
    (hs' : ∀ label ∈ s'.inputs ++ s'.outputs, ']' ∉ label.toList) (hfilter : Delimited s.filter)
    (hfilter' : Delimited s'.filter) (e : s.render = s'.render) : s = s' := by
  rw [List.forall_mem_append] at hs hs'
  have htext := congrArg String.toList e
  rw [toList_render, toList_render] at htext
  obtain ⟨hinputs, hrest⟩ := bracketedAll_append_inj hs.1 hs'.1 (hfilter.head?_ne _)
    (hfilter'.head?_ne _) htext
  have hsame : s.filter.toList = s'.filter.toList := by
    rw [← hfilter.takeWhile_eq s.outputs, hrest, hfilter'.takeWhile_eq]
  rw [hsame, List.append_cancel_left_eq] at hrest
  have hnil : ([] : List Char).head? ≠ some '[' := by simp
  obtain ⟨houtputs, -⟩ := bracketedAll_append_inj hs.2 hs'.2 hnil hnil
    (by rw [List.append_nil, List.append_nil]; exact hrest)
  rcases s with ⟨inputs, filter, outputs⟩
  rcases s' with ⟨inputs', filter', outputs'⟩
  rw [Step.mk.injEq]
  exact ⟨hinputs, String.toList_inj.1 hsame, houtputs⟩

theorem not_mem_of_indexOf? {digits : List Char} (h : (indexOf? digits).isSome = true) {c : Char}
    (hc : c.isDigit = false) : c ∉ digits := by
  intro hmem
  rw [indexOf?, Text.natOfDigits?_eq_none hmem hc] at h
  cases h

/-- No label of an input closes a bracket. -/
theorem not_mem_of_isInput {label : Label} (h : isInput label = true) : ']' ∉ label.toList := by
  have hdigit : ']'.isDigit = false := by decide
  rw [isInput, inputIndex?] at h
  split at h
  · exact not_mem_of_indexOf? h hdigit
  · next index stream hcut =>
    obtain ⟨happend, -⟩ := Text.append_of_cut hcut
    rw [happend]
    split at h
    · next hstream =>
      have hindex := not_mem_of_indexOf? h hdigit
      rcases hstream with rfl | rfl <;> simp [hindex]
    · cases h

theorem not_mem_renamed (met : Met) (label : Label) :
    ']' ∉ (renamed (numberName met) label).toList := by
  rcases hinput : isInput label with _ | _
  · rw [renamed_of_inner hinput, numberName, String.toList_append, List.mem_append, not_or]
    refine ⟨by decide, fun hmem => ?_⟩
    exact absurd (Text.isDigit_of_mem_toString hmem) (by decide)
  · rw [renamed_of_input hinput]
    exact not_mem_of_isInput hinput

/-- Graphs with the same form have the same numbered steps. -/
theorem numbered_eq_of_canonical {g g' : Graph} (hg : ∀ s ∈ g.steps, Delimited s.filter)
    (hg' : ∀ s ∈ g'.steps, Delimited s.filter) (e : g.canonical = g'.canonical) :
    numbered g.steps = numbered g'.steps := by
  have hlabels (steps : List Step) : ∀ s ∈ numbered steps,
      ∀ label ∈ s.inputs ++ s.outputs, ']' ∉ label.toList := by
    refine List.forall_mem_map.2 fun s _ => ?_
    simp only [Step.mapLabels, ← List.map_append, List.forall_mem_map]
    exact fun label _ => not_mem_renamed _ label
  have hdelimited {steps : List Step} (h : ∀ s ∈ steps, Delimited s.filter) :
      ∀ s ∈ numbered steps, Delimited s.filter := List.forall_mem_map.2 h
  rw [canonical_eq, canonical_eq] at e
  refine List.ext_getElem (by simpa using congrArg List.length e) fun i hi hi' => ?_
  have htext : (numbered g.steps)[i].render = (numbered g'.steps)[i].render := by
    have := List.getElem_of_eq e (by simpa using hi)
    rwa [List.getElem_map, List.getElem_map] at this
  have hs := List.getElem_mem hi
  have hs' := List.getElem_mem hi'
  exact Step.render_inj (hlabels _ _ hs) (hlabels _ _ hs') (hdelimited hg _ hs)
    (hdelimited hg' _ hs') htext

/-- Graphs that differ in the names of their labels only have the same canonical form; and as long
as every filter is there and opens no bracket, no other graphs have. -/
theorem canonical_eq_iff (g g' : Graph) :
    (g.SameUpToNames g' → g.canonical = g'.canonical) ∧
      ((∀ s ∈ g.steps, Delimited s.filter) → (∀ s ∈ g'.steps, Delimited s.filter) →
        (g.canonical = g'.canonical ↔ g.SameUpToNames g')) := by
  have hsame : g.SameUpToNames g' → g.canonical = g'.canonical := by
    rintro ⟨f, h⟩
    rw [canonical_eq, canonical_eq, h.numbered_eq]
  refine ⟨hsame, fun hg hg' => ⟨fun e => ?_, hsame⟩⟩
  have h := renames_numbered g.steps
  have h' := renames_numbered g'.steps
  rw [← numbered_eq_of_canonical hg hg' e] at h'
  exact ⟨_, h.trans h'.symm⟩

/-- A clip is split and laid over itself; behind the labels stand numbers of a longer graph. -/
def overlaid : Graph where
  steps := [⟨["0:v"], "split", ["split7", "split8"]⟩, ⟨["split8"], "hflip", ["v9"]⟩,
    ⟨["split7", "v9"], "overlay", ["ov10"]⟩]

/-- The same with labels of its own, one of which is the number of an input that no machine word
holds. -/
def relabelled : Graph where
  steps := [⟨["0:v"], "split", ["v9", "18446744073709551616"]⟩,
    ⟨["18446744073709551616"], "hflip", ["l0"]⟩, ⟨["v9", "l0"], "overlay", ["out"]⟩]

theorem canonical_eq_iff_overlaid :
    (∀ s ∈ overlaid.steps, Delimited s.filter) ∧ (∀ s ∈ relabelled.steps, Delimited s.filter) ∧
      overlaid.canonical = ["[0:v]split[l0][l1]", "[l1]hflip[l2]", "[l0][l2]overlay[l3]"] ∧
      overlaid.canonical = relabelled.canonical ∧ overlaid.SameUpToNames relabelled := by
  have hg : ∀ s ∈ overlaid.steps, Delimited s.filter := by decide
  have hg' : ∀ s ∈ relabelled.steps, Delimited s.filter := by decide
  have hform : overlaid.canonical = relabelled.canonical := by decide +kernel
  exact ⟨hg, hg', by decide +kernel, hform, ((canonical_eq_iff _ _).2 hg hg').1 hform⟩

end Montage.Graph
