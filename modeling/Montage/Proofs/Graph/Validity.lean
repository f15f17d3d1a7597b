import Montage.Graph.Validity

/-!
# What the check of a graph decides

`Graph.Valid` says in one place what a valid graph is; `check_eq_ok_iff` shows that `Graph.check`
accepts exactly the valid graphs.  The two passes of the check have an exact result each: the first
one the table `producersFrom` of all outputs (`addSteps_eq_ok_iff`), the second one none
(`checkSteps_eq_ok_iff`).  `check_pushed_eq_ok_iff` spells validity out for a graph made of any
steps.
-/

namespace Montage

namespace Graph

/-! ## Valid graphs -/

/-- The labels that steps produce, in order. -/
def outputsOf (steps : List Step) : List Label := steps.flatMap (·.outputs)

/-- The labels that steps read, in order. -/
def readsOf (steps : List Step) : List Label := steps.flatMap (·.inputs)

/-- The labels that a graph produces. -/
def outputs (g : Graph) : List Label := outputsOf g.steps

/-- The labels that a graph reads. -/
def reads (g : Graph) : List Label := readsOf g.steps

/-- The labels that name no input. -/
def inner (labels : List Label) : List Label := labels.filter fun label => !isInput label

/-- A label is read correctly behind the steps `before`: an input exists, another label was produced
by one of these steps. -/
def ReadBehind (before : List Step) (inputs : Nat) (label : Label) : Prop :=
  (∀ index, inputIndex? label = some index → index < inputs) ∧
    (inputIndex? label = none → label ∈ outputsOf before)

/-- Every label is produced once, and none that names an input; what is read exists already; and no
label is read twice. -/
structure Valid (g : Graph) (inputs : Nat) : Prop where
  inner_of_output : ∀ label ∈ g.outputs, inputIndex? label = none
  nodup_outputs : g.outputs.Nodup
  readBehind : ∀ i (h : i < g.steps.length), ∀ label ∈ g.steps[i].inputs,
    ReadBehind (g.steps.take i) inputs label
  nodup_reads : (inner g.reads).Nodup

@[simp] theorem outputsOf_nil : outputsOf [] = [] := rfl

@[simp] theorem outputsOf_cons (s : Step) (steps : List Step) :
    outputsOf (s :: steps) = s.outputs ++ outputsOf steps := rfl

@[simp] theorem outputsOf_append (steps steps' : List Step) :
    outputsOf (steps ++ steps') = outputsOf steps ++ outputsOf steps' := List.flatMap_append

@[simp] theorem readsOf_nil : readsOf [] = [] := rfl

@[simp] theorem readsOf_cons (s : Step) (steps : List Step) :
    readsOf (s :: steps) = s.inputs ++ readsOf steps := rfl

@[simp] theorem readsOf_append (steps steps' : List Step) :
    readsOf (steps ++ steps') = readsOf steps ++ readsOf steps' := List.flatMap_append

theorem mem_outputsOf_take_iff {steps : List Step} {i : Nat} (hi : i < steps.length)
    {label : Label} :
    label ∈ outputsOf (steps.take i) ↔ ∃ j, ∃ hj : j < i, label ∈ steps[j].outputs := by
  rw [outputsOf, List.mem_flatMap]
  constructor
  · rintro ⟨s, hs, hlabel⟩
    obtain ⟨j, hj, rfl⟩ := List.mem_take_iff_getElem.1 hs
    exact ⟨j, by omega, hlabel⟩
  · rintro ⟨j, hj, hlabel⟩
    exact ⟨steps[j], List.mem_take_iff_getElem.2 ⟨j, by omega, rfl⟩, hlabel⟩

theorem isInput_eq_false_iff {label : Label} : isInput label = false ↔ inputIndex? label = none := by
  rw [isInput, Option.isSome_eq_false_iff, Option.isNone_iff_eq_none]

theorem inner_append (labels labels' : List Label) :
    inner (labels ++ labels') = inner labels ++ inner labels' := List.filter_append ..

theorem inner_cons_of_none {label : Label} (h : inputIndex? label = none) (rest : List Label) :
    inner (label :: rest) = label :: inner rest :=
  List.filter_cons_of_pos (by simp [isInput, h])

theorem inner_cons_of_some {label : Label} {index : Nat} (h : inputIndex? label = some index)
    (rest : List Label) : inner (label :: rest) = inner rest :=
  List.filter_cons_of_neg (by simp [isInput, h])

/-! ## The table of producers -/

/-- Outputs with the number of their step, the last one first. -/
def producersOf (step : Nat) (labels : List Label) : Producers :=
  (labels.map fun label => (label, step)).reverse

/-- All outputs with the numbers of their steps, the last one first. -/
def producersFrom (step : Nat) : List Step → Producers
  | [] => []
  | s :: rest => producersFrom (step + 1) rest ++ producersOf step s.outputs

theorem find?_cons (label : Label) (step : Nat) (producers : Producers) (other : Label) :
    Producers.find? ((label, step) :: producers) other =
      if other = label then some step else Producers.find? producers other := by
  by_cases h : other = label
  · rw [if_pos h, h]
    exact List.lookup_cons_self
  · rw [if_neg h, Producers.find?, List.lookup_cons, beq_false_of_ne h]
    rfl

theorem find?_append (producers producers' : Producers) (label : Label) :
    Producers.find? (producers ++ producers') label =
      (Producers.find? producers label).or (Producers.find? producers' label) :=
  List.lookup_append

theorem find?_producersOf (step : Nat) (labels : List Label) (label : Label) :
    Producers.find? (producersOf step labels) label = if label ∈ labels then some step else none := by
  induction labels with
  | nil => rfl
  | cons first rest ih =>
    have hcons : producersOf step (first :: rest) = producersOf step rest ++ [(first, step)] := by
      simp [producersOf]
    rw [hcons, find?_append, ih, find?_cons]
    by_cases h' : label = first
    · subst h'
      by_cases h : label ∈ rest <;> simp [h]
    · by_cases h : label ∈ rest <;> simp [h, h', Producers.find?]

theorem find?_producersFrom_eq_none_iff {steps : List Step} {step : Nat} {label : Label} :
    Producers.find? (producersFrom step steps) label = none ↔ label ∉ outputsOf steps := by
  induction steps generalizing step with
  | nil => simp [producersFrom, Producers.find?]
  | cons s rest ih =>
    rw [producersFrom, find?_append, Option.or_eq_none_iff, ih, find?_producersOf, outputsOf_cons,
      List.mem_append, not_or, ite_eq_right_iff]
    simp only [reduceCtorEq, imp_false]
    exact and_comm

/-- As long as no label is produced twice, the table gives the step that produces a label. -/
theorem find?_producersFrom_eq_some_iff {steps : List Step} {step : Nat}
    (hnodup : (outputsOf steps).Nodup) {label : Label} {producer : Nat} :
    Producers.find? (producersFrom step steps) label = some producer ↔
      ∃ i, ∃ h : i < steps.length, producer = step + i ∧ label ∈ steps[i].outputs := by
  induction steps generalizing step with
  | nil => simp [producersFrom, Producers.find?]
  | cons s rest ih =>
    rw [outputsOf_cons, List.nodup_append] at hnodup
    obtain ⟨-, hrest, hdisjoint⟩ := hnodup
    rw [producersFrom, find?_append, find?_producersOf]
    by_cases hlabel : label ∈ s.outputs
    · have hnone : Producers.find? (producersFrom (step + 1) rest) label = none :=
        find?_producersFrom_eq_none_iff.2 fun h => hdisjoint label hlabel label h rfl
      rw [hnone, Option.none_or, if_pos hlabel, Option.some.injEq]
      constructor
      · rintro rfl
        exact ⟨0, by simp, rfl, hlabel⟩
      · rintro ⟨i, hi, rfl, hmem⟩
        cases i with
        | zero => rfl
        | succ i =>
          have hi' : i < rest.length := by simpa using hi
          have : label ∈ outputsOf rest :=
            List.mem_flatMap.2 ⟨rest[i], List.getElem_mem hi', by simpa using hmem⟩
          exact absurd rfl (hdisjoint label hlabel label this)
    · rw [if_neg hlabel, Option.or_none, ih hrest]
      constructor
      · rintro ⟨i, hi, rfl, hmem⟩
        exact ⟨i + 1, by simpa using hi, by omega, by simpa using hmem⟩
      · rintro ⟨i, hi, rfl, hmem⟩
        cases i with
        | zero => exact absurd (by simpa using hmem) hlabel
        | succ i => exact ⟨i, by simpa using hi, by omega, by simpa using hmem⟩

/-! ## The first pass -/

/-- The outputs of a step are taken in exactly if they are new, name no input and differ. -/
theorem addOutputs_eq_ok_iff {labels : List Label} {step : Nat} {producers producers' : Producers} :
    producers.addOutputs step labels = .ok producers' ↔
      (∀ label ∈ labels, inputIndex? label = none ∧ producers.find? label = none) ∧ labels.Nodup ∧
        producers' = producersOf step labels ++ producers := by
  induction labels generalizing producers with
  | nil => simp [Producers.addOutputs, producersOf, eq_comm]
  | cons label rest ih =>
    rw [Producers.addOutputs]
    have hfind : ∀ other, Producers.find? ((label, step) :: producers) other = none ↔
        other ≠ label ∧ producers.find? other = none := by
      intro other
      rw [find?_cons]
      by_cases h : other = label <;> simp [h]
    have happend : producersOf step (label :: rest) ++ producers =
        producersOf step rest ++ (label, step) :: producers := by simp [producersOf]
    by_cases hinput : isInput label = true
    · rw [if_pos hinput]
      simp only [reduceCtorEq, false_iff, not_and]
      intro h
      rw [isInput_eq_false_iff.2 (h label List.mem_cons_self).1] at hinput
      cases hinput
    rw [if_neg hinput]
    rw [Bool.not_eq_true, isInput_eq_false_iff] at hinput
    by_cases hknown : (producers.find? label).isSome = true
    · rw [if_pos hknown]
      simp only [reduceCtorEq, false_iff, not_and]
      intro h
      rw [(h label List.mem_cons_self).2] at hknown
      cases hknown
    rw [if_neg hknown, ih, happend, List.forall_mem_cons, List.nodup_cons]
    rw [Bool.not_eq_true, Option.isSome_eq_false_iff, Option.isNone_iff_eq_none] at hknown
    simp only [hfind, hinput, hknown, true_and]
    constructor
    · rintro ⟨h, hnodup, hproducers⟩
      exact ⟨fun other hother => ⟨(h other hother).1, (h other hother).2.2⟩,
        ⟨fun hmem => (h label hmem).2.1 rfl, hnodup⟩, hproducers⟩
    · rintro ⟨h, ⟨hnew, hnodup⟩, hproducers⟩
      refine ⟨fun other hother => ⟨(h other hother).1, ?_, (h other hother).2⟩, hnodup, hproducers⟩
      rintro rfl
      exact hnew hother

/-- The outputs of all steps are taken in exactly if they are new, name no input and differ. -/
theorem addSteps_eq_ok_iff {steps : List Step} {step : Nat} {producers producers' : Producers} :
    producers.addSteps step steps = .ok producers' ↔
      (∀ label ∈ outputsOf steps, inputIndex? label = none ∧ producers.find? label = none) ∧
        (outputsOf steps).Nodup ∧ producers' = producersFrom step steps ++ producers := by
  induction steps generalizing step producers with
  | nil => simp [Producers.addSteps, producersFrom, eq_comm]
  | cons s rest ih =>
    rw [Producers.addSteps]
    rcases hadd : producers.addOutputs step s.outputs with defect | table
    · -- The outputs of this step have a defect of their own.
      simp only [reduceCtorEq, false_iff]
      rintro ⟨hnew, hnodup, -⟩
      rw [outputsOf_cons] at hnew hnodup
      have haccept : producers.addOutputs step s.outputs =
          .ok (producersOf step s.outputs ++ producers) :=
        addOutputs_eq_ok_iff.2 ⟨fun label h => hnew label (List.mem_append_left _ h),
          (List.nodup_append.1 hnodup).1, rfl⟩
      rw [hadd] at haccept
      cases haccept
    · obtain ⟨hnew, hnodup, rfl⟩ := addOutputs_eq_ok_iff.1 hadd
      simp only [ih, find?_append, find?_producersOf, Option.or_eq_none_iff, ite_eq_right_iff,
        reduceCtorEq, imp_false, outputsOf_cons, List.nodup_append, producersFrom,
        List.append_assoc]
      constructor
      · rintro ⟨hrest, hnodup', hproducers⟩
        refine ⟨fun label h => ?_, ⟨hnodup, hnodup', ?_⟩, hproducers⟩
        · rcases List.mem_append.1 h with h | h
          · exact hnew label h
          · exact ⟨(hrest label h).1, (hrest label h).2.2⟩
        · rintro label h _ h' rfl
          exact (hrest label h').2.1 h
      · rintro ⟨hall, ⟨-, hnodup', hdisjoint⟩, hproducers⟩
        refine ⟨fun label h => ?_, hnodup', hproducers⟩
        obtain ⟨hinput, hfind⟩ := hall label (List.mem_append_right _ h)
        exact ⟨hinput, fun h' => hdisjoint label h' label h rfl, hfind⟩

/-! ## The second pass -/

/-- What one read has to satisfy in the second pass. -/
def Readable (producers : Producers) (inputs step : Nat) (label : Label) : Prop :=
  (∀ index, inputIndex? label = some index → index < inputs) ∧
    (inputIndex? label = none → ∃ producer, producers.find? label = some producer ∧ producer < step)

/-- The reads of a step pass exactly if each is readable and no label is read again. -/
theorem checkReads_eq_ok_iff {producers : Producers} {inputs step : Nat} {labels : List Label}
    {read read' : List Label} :
    checkReads producers inputs step read labels = .ok read' ↔
      (∀ label ∈ labels, Readable producers inputs step label) ∧ (inner labels).Nodup ∧
        (∀ label ∈ inner labels, label ∉ read) ∧ read' = (inner labels).reverse ++ read := by
  induction labels generalizing read with
  | nil => simp [checkReads, inner, eq_comm]
  | cons label rest ih =>
    rw [checkReads]
    rcases hindex : inputIndex? label with _ | index
    · rw [inner_cons_of_none hindex, List.forall_mem_cons, List.forall_mem_cons]
      have hread : Readable producers inputs step label ↔
          ∃ producer, producers.find? label = some producer ∧ producer < step := by
        simp [Readable, hindex]
      rcases hfind : producers.find? label with _ | producer
      · simp [hread, hfind]
      by_cases hlt : producer < step
      · by_cases hmem : label ∈ read
        · simp [hlt, hmem]
        · simp only [if_pos hlt, if_neg hmem, ih, hread, hfind, List.nodup_cons, List.mem_cons,
            not_or, List.reverse_cons, List.append_assoc, List.singleton_append]
          constructor
          · rintro ⟨hall, hnodup, hfresh, hread'⟩
            exact ⟨⟨⟨producer, rfl, hlt⟩, hall⟩, ⟨fun h => (hfresh label h).1 rfl, hnodup⟩,
              ⟨hmem, fun other h => (hfresh other h).2⟩, hread'⟩
          · rintro ⟨⟨-, hall⟩, ⟨hnew, hnodup⟩, ⟨-, hfresh⟩, hread'⟩
            refine ⟨hall, hnodup, fun other h => ⟨?_, hfresh other h⟩, hread'⟩
            rintro rfl
            exact hnew h
      · simp [hlt, hread, hfind]
    · rw [inner_cons_of_some hindex, List.forall_mem_cons]
      have hread : Readable producers inputs step label ↔ index < inputs := by
        simp [Readable, hindex]
      by_cases hlt : index < inputs
      · simp only [hlt, if_true, ih, hread, true_and]
      · simp [hlt, hread]

/-- The reads of all steps pass exactly if each is readable and no label is read again. -/
theorem checkSteps_eq_ok_iff {producers : Producers} {inputs step : Nat} {steps : List Step}
    {read : List Label} :
    checkSteps producers inputs step read steps = .ok () ↔
      (∀ i (h : i < steps.length), ∀ label ∈ steps[i].inputs,
          Readable producers inputs (step + i) label) ∧
        (inner (readsOf steps)).Nodup ∧ ∀ label ∈ inner (readsOf steps), label ∉ read := by
  induction steps generalizing step read with
  | nil => simp [checkSteps, inner]
  | cons s rest ih =>
    have hsteps : (∀ i (h : i < (s :: rest).length), ∀ label ∈ (s :: rest)[i].inputs,
          Readable producers inputs (step + i) label) ↔
        (∀ label ∈ s.inputs, Readable producers inputs step label) ∧
          ∀ i (h : i < rest.length), ∀ label ∈ rest[i].inputs,
            Readable producers inputs (step + 1 + i) label := by
      constructor
      · intro h
        refine ⟨h 0 (by simp), fun i hi label hlabel => ?_⟩
        have := h (i + 1) (by simpa using hi) label (by simpa using hlabel)
        rwa [show step + (i + 1) = step + 1 + i by omega] at this
      · rintro ⟨hs, hrest⟩ i hi label hlabel
        cases i with
        | zero => exact hs label hlabel
        | succ i =>
          rw [show step + (i + 1) = step + 1 + i by omega]
          exact hrest i (by simpa using hi) label (by simpa using hlabel)
    rw [checkSteps, hsteps, readsOf_cons, inner_append, List.nodup_append]
    rcases hcheck : checkReads producers inputs step read s.inputs with defect | read'
    · simp only [reduceCtorEq, false_iff]
      rintro ⟨⟨hs, -⟩, ⟨hnodup, -, -⟩, hfresh⟩
      have haccept : checkReads producers inputs step read s.inputs =
          .ok ((inner s.inputs).reverse ++ read) :=
        checkReads_eq_ok_iff.2
          ⟨hs, hnodup, fun label h => hfresh label (List.mem_append_left _ h), rfl⟩
      rw [hcheck] at haccept
      cases haccept
    · obtain ⟨hs, hnodup, hfresh, rfl⟩ := checkReads_eq_ok_iff.1 hcheck
      simp only [ih, List.mem_append, List.mem_reverse, not_or]
      constructor
      · rintro ⟨hrest, hnodup', hfresh'⟩
        refine ⟨⟨hs, hrest⟩, ⟨hnodup, hnodup', ?_⟩, ?_⟩
        · rintro label h _ h' rfl
          exact (hfresh' label h').1 h
        · rintro label (h | h)
          · exact hfresh label h
          · exact (hfresh' label h).2
      · rintro ⟨⟨-, hrest⟩, ⟨-, hnodup', hdisjoint⟩, hall⟩
        exact ⟨hrest, hnodup', fun label h =>
          ⟨fun h' => hdisjoint label h' label h rfl, hall label (Or.inr h)⟩⟩

/-! ## The check -/

theorem readable_producersFrom_iff {steps : List Step} (hnodup : (outputsOf steps).Nodup)
    {inputs i : Nat} (hi : i < steps.length) {label : Label} :
    Readable (producersFrom 0 steps) inputs i label ↔ ReadBehind (steps.take i) inputs label := by
  refine and_congr_right fun _ => imp_congr_right fun _ => ?_
  simp only [find?_producersFrom_eq_some_iff hnodup, Nat.zero_add]
  rw [mem_outputsOf_take_iff hi]
  constructor
  · rintro ⟨producer, ⟨j, hj, heq, hmem⟩, hlt⟩
    exact ⟨j, by omega, hmem⟩
  · rintro ⟨j, hj, hmem⟩
    exact ⟨j, ⟨j, by omega, rfl, hmem⟩, hj⟩

/-- The check accepts exactly the valid graphs. -/
theorem check_eq_ok_iff {g : Graph} {inputs : Nat} : g.check inputs = .ok () ↔ g.Valid inputs := by
  rw [check]
  rcases hadd : Producers.addSteps [] 0 g.steps with defect | producers
  · simp only [reduceCtorEq, false_iff]
    intro h
    have haccept : Producers.addSteps [] 0 g.steps = .ok (producersFrom 0 g.steps ++ []) :=
      addSteps_eq_ok_iff.2
        ⟨fun label hlabel => ⟨h.inner_of_output label hlabel, rfl⟩, h.nodup_outputs, rfl⟩
    rw [hadd] at haccept
    cases haccept
  · obtain ⟨houtputs, hnodup, rfl⟩ := addSteps_eq_ok_iff.1 hadd
    simp only [checkSteps_eq_ok_iff, List.append_nil, Nat.zero_add, List.not_mem_nil,
      not_false_eq_true, implies_true, and_true]
    constructor
    · rintro ⟨hreads, hnodup'⟩
      exact ⟨fun label h => (houtputs label h).1, hnodup, fun i hi label hlabel =>
        (readable_producersFrom_iff hnodup hi).1 (hreads i hi label hlabel), hnodup'⟩
    · intro h
      exact ⟨fun i hi label hlabel =>
        (readable_producersFrom_iff hnodup hi).2 (h.readBehind i hi label hlabel), h.nodup_reads⟩

/-! ## Graphs made of any steps -/

theorem steps_foldl_push (g : Graph) (steps : List Step) :
    (steps.foldl push g).steps = g.steps ++ steps := by
  induction steps generalizing g with
  | nil => exact (List.append_nil _).symm
  | cons s rest ih => rw [List.foldl_cons, ih, push, List.append_assoc, List.singleton_append]

/-- Labels that name no input differ exactly if none of them is there twice. -/
theorem nodup_inner_iff {labels : List Label} :
    (inner labels).Nodup ↔ ∀ label, isInput label = false → labels.count label ≤ 1 := by
  rw [List.nodup_iff_count]
  refine forall_congr' fun label => ?_
  rcases hlabel : isInput label with _ | _
  · rw [inner, List.count_filter (by simp [hlabel])]
    simp
  · have hmem : label ∉ inner labels := fun h => by
      simp [inner, hlabel] at h
    simp [List.count_eq_zero_of_not_mem hmem]

/-- A graph made of any steps passes its check exactly if no output names an input, no label is
produced twice, by two steps or by one, the inputs that are read exist, every other label that is
read is an output of an earlier step, and none of these is read twice. -/
theorem check_pushed_eq_ok_iff (steps : List Step) (inputs : Nat) :
    (steps.foldl push empty).check inputs = .ok () ↔
      (∀ s ∈ steps, ∀ label ∈ s.outputs, isInput label = false) ∧
      (∀ label, (steps.flatMap (·.outputs)).count label ≤ 1) ∧
      (∀ s ∈ steps, ∀ label ∈ s.inputs, ∀ index, inputIndex? label = some index →
        index < inputs) ∧
      (∀ i (hi : i < steps.length), ∀ label ∈ steps[i].inputs, isInput label = false →
        ∃ j, ∃ hj : j < i, label ∈ steps[j].outputs) ∧
      ∀ label, isInput label = false → (steps.flatMap (·.inputs)).count label ≤ 1 := by
  have hsteps : (steps.foldl push empty).steps = steps := steps_foldl_push empty steps
  have houtputs : (steps.foldl push empty).outputs = steps.flatMap (·.outputs) :=
    congrArg outputsOf hsteps
  have hreads : (steps.foldl push empty).reads = steps.flatMap (·.inputs) :=
    congrArg readsOf hsteps
  rw [check_eq_ok_iff]
  constructor
  · rintro ⟨hinner, hproduced, hbehind, hread⟩
    simp only [hsteps] at hbehind
    rw [houtputs] at hinner hproduced
    rw [hreads] at hread
    refine ⟨fun s hs label hlabel => ?_, List.nodup_iff_count.1 hproduced, fun s hs label hlabel => ?_,
      fun i hi label hlabel hnone => ?_, nodup_inner_iff.1 hread⟩
    · exact isInput_eq_false_iff.2 (hinner label (List.mem_flatMap.2 ⟨s, hs, hlabel⟩))
    · obtain ⟨i, hi, rfl⟩ := List.getElem_of_mem hs
      exact (hbehind i hi label hlabel).1
    · exact (mem_outputsOf_take_iff hi).1
        ((hbehind i hi label hlabel).2 (isInput_eq_false_iff.1 hnone))
  · rintro ⟨hinner, hproduced, hexists, hearlier, hread⟩
    refine ⟨fun label hlabel => ?_, ?_, ?_, ?_⟩
    · rw [houtputs] at hlabel
      obtain ⟨s, hs, hlabel⟩ := List.mem_flatMap.1 hlabel
      exact isInput_eq_false_iff.1 (hinner s hs label hlabel)
    · rw [houtputs]
      exact List.nodup_iff_count.2 hproduced
    · simp only [hsteps]
      intro i hi label hlabel
      exact ⟨hexists _ (List.getElem_mem hi) label hlabel, fun hnone =>
        (mem_outputsOf_take_iff hi).2 (hearlier i hi label hlabel (isInput_eq_false_iff.2 hnone))⟩
    · rw [hreads]
      exact nodup_inner_iff.2 hread

-- Digits that no machine word holds name no input, so a step may produce them.
example : (push empty ⟨["0:v"], "null", ["18446744073709551616"]⟩).check 1 = .ok () := rfl

end Graph

end Montage
