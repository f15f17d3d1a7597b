import Mathlib.Data.List.Basic
import Montage.Program.Basic
import Montage.Proofs.Graph.Labels
import Montage.Proofs.Graph.Validity

/-!
# Wired graphs

`Graph.Wired media g waiting` says how a graph comes about when its builders are careful: inputs are
added, each to be read as one kind of stream, and steps are added that read labels waiting to be
read and hand out fresh ones.  `waiting` are the labels that exist and that nobody has read.

By rule induction the labels of a wired graph are balanced (`Wired.balance`): what is read or waits
is what is produced or comes from an input, label for label.  With the order of the steps
(`Wired.known_of_read`) this makes the graph valid (`Wired.valid`), as long as the inputs can be
counted in a machine word; conversely a valid graph has no more inputs than that
(`Wired.length_le`).
-/

namespace Montage

namespace Graph

/-! ## Fresh labels -/

/-- The label may have been handed out by the graph: a tag and a number that was used up. -/
def HandedOut (g : Graph) (label : Label) : Prop :=
  ∃ tag number, isTag tag = true ∧ number < g.nextId ∧ label = tag ++ toString number

theorem HandedOut.inputIndex?_eq_none {g : Graph} {label : Label} (h : g.HandedOut label) :
    inputIndex? label = none := by
  obtain ⟨tag, number, htag, -, rfl⟩ := h
  exact inputIndex?_tagged htag number

theorem HandedOut.ne_inputLabel {g : Graph} {label : Label} (h : g.HandedOut label) (index : Nat)
    (media : Media) : label ≠ inputLabel index media := by
  obtain ⟨tag, number, -, -, rfl⟩ := h
  exact tagged_ne_inputLabel tag number index media

theorem HandedOut.mono {g g' : Graph} {label : Label} (h : g.HandedOut label)
    (hle : g.nextId ≤ g'.nextId) : g'.HandedOut label := by
  obtain ⟨tag, number, htag, hlt, rfl⟩ := h
  exact ⟨tag, number, htag, by omega, rfl⟩

theorem steps_freshAll (g : Graph) (tags : List String) : (g.freshAll tags).2.steps = g.steps := by
  induction tags generalizing g with
  | nil => rfl
  | cons tag tags ih => exact ih _

theorem nextId_freshAll (g : Graph) (tags : List String) :
    (g.freshAll tags).2.nextId = g.nextId + tags.length := by
  induction tags generalizing g with
  | nil => rfl
  | cons tag tags ih =>
    refine (ih _).trans ?_
    show g.nextId + 1 + tags.length = g.nextId + (tag :: tags).length
    rw [List.length_cons]
    omega

/-- A fresh label has a number that was not used up before. -/
theorem exists_of_mem_freshAll {g : Graph} {tags : List String}
    (htags : ∀ tag ∈ tags, isTag tag = true) {label : Label} (h : label ∈ (g.freshAll tags).1) :
    ∃ tag number, isTag tag = true ∧ g.nextId ≤ number ∧ number < g.nextId + tags.length ∧
      label = tag ++ toString number := by
  induction tags generalizing g with
  | nil => simp [freshAll] at h
  | cons tag tags ih =>
    rw [List.forall_mem_cons] at htags
    rcases List.mem_cons.1 h with rfl | h
    · exact ⟨tag, g.nextId, htags.1, Nat.le_refl _, by simp, rfl⟩
    · obtain ⟨tag', number, htag', hle, hlt, rfl⟩ := ih htags.2 h
      change g.nextId + 1 ≤ number at hle
      change number < g.nextId + 1 + tags.length at hlt
      exact ⟨tag', number, htag', by omega, by rw [List.length_cons]; omega, rfl⟩

theorem nodup_freshAll (g : Graph) {tags : List String} (htags : ∀ tag ∈ tags, isTag tag = true) :
    (g.freshAll tags).1.Nodup := by
  induction tags generalizing g with
  | nil => exact List.nodup_nil
  | cons tag tags ih =>
    rw [List.forall_mem_cons] at htags
    refine List.nodup_cons.2 ⟨fun h => ?_, ih _ htags.2⟩
    obtain ⟨tag', number, htag', hle, -, e⟩ := exists_of_mem_freshAll htags.2 h
    have := tagged_inj htags.1 htag' e
    change g.nextId + 1 ≤ number at hle
    omega

/-- A fresh label was not handed out before. -/
theorem not_handedOut_of_mem_freshAll {g : Graph} {tags : List String}
    (htags : ∀ tag ∈ tags, isTag tag = true) {label : Label} (h : label ∈ (g.freshAll tags).1) :
    ¬ g.HandedOut label := by
  rintro ⟨tag, number, htag, hlt, e⟩
  obtain ⟨tag', number', htag', hle, -, rfl⟩ := exists_of_mem_freshAll htags h
  have := tagged_inj htag' htag e
  omega

/-! ## Building -/

/-- The labels of inputs, each read as one kind of stream. -/
def sources (media : List Media) : List Label := media.mapIdx inputLabel

theorem sources_concat (media : List Media) (kind : Media) :
    sources (media ++ [kind]) = sources media ++ [inputLabel media.length kind] :=
  List.mapIdx_concat

theorem mem_sources_iff {media : List Media} {label : Label} :
    label ∈ sources media ↔ ∃ index, ∃ h : index < media.length,
      label = inputLabel index media[index] := by
  simp only [sources, List.mem_mapIdx, eq_comm]

/-- The graph was built over inputs of the given kinds, and these labels wait to be read. -/
inductive Wired : List Media → Graph → List Label → Prop
  | empty : Wired [] .empty []
  | input {media : List Media} {g : Graph} {waiting : List Label} (kind : Media) :
      Wired media g waiting →
        Wired (media ++ [kind]) g (inputLabel media.length kind :: waiting)
  | step {media : List Media} {g : Graph} {read waiting : List Label} (filter : String)
      (tags : List String) (htags : ∀ tag ∈ tags, isTag tag = true) :
      Wired media g (read ++ waiting) →
        Wired media ((g.freshAll tags).2.push ⟨read, filter, (g.freshAll tags).1⟩)
          ((g.freshAll tags).1 ++ waiting)
  | perm {media : List Media} {g : Graph} {waiting waiting' : List Label} :
      waiting.Perm waiting' → Wired media g waiting → Wired media g waiting'

theorem mem_outputs_of_take {g : Graph} {i : Nat} {label : Label}
    (h : label ∈ outputsOf (g.steps.take i)) : label ∈ g.outputs := by
  obtain ⟨s, hs, hlabel⟩ := List.mem_flatMap.1 h
  exact List.mem_flatMap.2 ⟨s, List.mem_of_mem_take hs, hlabel⟩

theorem steps_push (g : Graph) (tags : List String) (s : Step) :
    ((g.freshAll tags).2.push s).steps = g.steps ++ [s] := by
  rw [push, steps_freshAll]

theorem outputs_push (g : Graph) (tags : List String) (s : Step) :
    ((g.freshAll tags).2.push s).outputs = g.outputs ++ s.outputs := by
  rw [outputs, steps_push, outputsOf_append]
  simp [outputs]

theorem reads_push (g : Graph) (tags : List String) (s : Step) :
    ((g.freshAll tags).2.push s).reads = g.reads ++ s.inputs := by
  rw [reads, steps_push, readsOf_append]
  simp [reads]

namespace Wired

variable {media : List Media} {g : Graph} {waiting : List Label}

/-- A step with one output takes what it reads and hands its output back. -/
theorem combine (ctxs : List Context) (h : Wired media g (ctxs.map (·.label) ++ waiting))
    (filter : String) {tag : String} (htag : isTag tag = true) :
    Wired media (g.combine ctxs filter tag).2 ((g.combine ctxs filter tag).1.label :: waiting) :=
  .step filter [tag] (List.forall_mem_singleton.2 htag) h

/-! ## What holds of wired graphs -/

theorem handedOut (h : Wired media g waiting) : ∀ label ∈ g.outputs, g.HandedOut label := by
  induction h with
  | empty => simp [outputs, Graph.empty]
  | input _ _ ih => exact ih
  | perm _ _ ih => exact ih
  | @step media g read waiting filter tags htags _ ih =>
    intro label hlabel
    rw [outputs_push] at hlabel
    rcases List.mem_append.1 hlabel with hlabel | hlabel
    · refine (ih label hlabel).mono ?_
      rw [push, nextId_freshAll]
      omega
    · obtain ⟨tag, number, htag, -, hlt, rfl⟩ := exists_of_mem_freshAll htags hlabel
      exact ⟨tag, number, htag, by rwa [push, nextId_freshAll], rfl⟩

theorem nodup_outputs (h : Wired media g waiting) : g.outputs.Nodup := by
  induction h with
  | empty => exact List.nodup_nil
  | input _ _ ih => exact ih
  | perm _ _ ih => exact ih
  | @step media g read waiting filter tags htags hwired ih =>
    rw [outputs_push, List.nodup_append]
    refine ⟨ih, nodup_freshAll g htags, ?_⟩
    rintro label hold _ hnew rfl
    exact not_handedOut_of_mem_freshAll htags hnew (hwired.handedOut label hold)

/-- What is read or waits is what is produced or comes from an input. -/
theorem balance (h : Wired media g waiting) :
    (g.reads ++ waiting).Perm (g.outputs ++ sources media) := by
  induction h with
  | empty => exact .nil
  | @input media g waiting kind _ ih =>
    rw [sources_concat, ← List.append_assoc]
    exact List.perm_middle.trans ((ih.cons _).trans (List.perm_append_singleton _ _).symm)
  | perm hperm _ ih => exact (hperm.symm.append_left _).trans ih
  | @step media g read waiting filter tags htags _ ih =>
    rw [outputs_push, reads_push, List.append_assoc, List.append_assoc]
    calc (g.reads ++ (read ++ ((g.freshAll tags).1 ++ waiting))).Perm
          (g.reads ++ ((g.freshAll tags).1 ++ (read ++ waiting))) :=
          (List.perm_append_comm_assoc ..).append_left _
      _ |>.Perm ((g.freshAll tags).1 ++ (g.reads ++ (read ++ waiting))) :=
          List.perm_append_comm_assoc ..
      _ |>.Perm ((g.freshAll tags).1 ++ (g.outputs ++ sources media)) := ih.append_left _
      _ |>.Perm (g.outputs ++ ((g.freshAll tags).1 ++ sources media)) :=
          List.perm_append_comm_assoc ..

/-- A step reads what an earlier step produced or what comes from an input. -/
theorem known_of_read (h : Wired media g waiting) : ∀ i (hi : i < g.steps.length),
    ∀ label ∈ g.steps[i].inputs, label ∈ outputsOf (g.steps.take i) ∨ label ∈ sources media := by
  induction h with
  | empty =>
    intro i hi
    exact absurd hi (Nat.not_lt_zero i)
  | input kind _ ih =>
    intro i hi label hlabel
    rw [sources_concat]
    exact (ih i hi label hlabel).imp_right (List.mem_append_left _)
  | perm _ _ ih => exact ih
  | @step media g read waiting filter tags htags hwired ih =>
    intro i hi label hlabel
    simp only [steps_push] at hi hlabel ⊢
    by_cases hlast : i < g.steps.length
    · rw [List.getElem_append_left hlast] at hlabel
      rw [List.take_append_of_le_length (Nat.le_of_lt hlast)]
      exact ih i hlast label hlabel
    · -- The new step reads what was waiting, and the balance says where that is from.
      obtain rfl : i = g.steps.length := by
        rw [List.length_append, List.length_singleton] at hi
        omega
      rw [List.getElem_append_right (Nat.le_refl _)] at hlabel
      simp only [Nat.sub_self, List.getElem_cons_zero] at hlabel
      rw [List.take_left]
      refine List.mem_append.1 (hwired.balance.mem_iff.1 ?_)
      exact List.mem_append_right _ (List.mem_append_left _ hlabel)

/-! ## Validity -/

theorem inputIndex?_of_mem_sources (hsize : media.length ≤ UInt64.size) {label : Label}
    (h : label ∈ sources media) :
    ∃ index, index < media.length ∧ inputIndex? label = some index := by
  obtain ⟨index, hindex, rfl⟩ := mem_sources_iff.1 h
  exact ⟨index, hindex, by rw [inputIndex?_inputLabel, if_pos (Nat.lt_of_lt_of_le hindex hsize)]⟩

theorem inner_outputs (h : Wired media g waiting) : inner g.outputs = g.outputs :=
  List.filter_eq_self.2 fun label hlabel => by
    simp [isInput, (h.handedOut label hlabel).inputIndex?_eq_none]

theorem inner_sources (hsize : media.length ≤ UInt64.size) : inner (sources media) = [] :=
  List.filter_eq_nil_iff.2 fun label hlabel => by
    obtain ⟨index, -, hindex⟩ := inputIndex?_of_mem_sources hsize hlabel
    simp [isInput, hindex]

/-- A wired graph is valid over its inputs if a machine word can count them. -/
theorem valid (h : Wired media g waiting) (hsize : media.length ≤ UInt64.size) :
    g.Valid media.length where
  inner_of_output label hlabel := (h.handedOut label hlabel).inputIndex?_eq_none
  nodup_outputs := h.nodup_outputs
  readBehind i hi label hlabel := by
    rcases h.known_of_read i hi label hlabel with hknown | hknown
    · have hnone := (h.handedOut label (mem_outputs_of_take hknown)).inputIndex?_eq_none
      exact ⟨fun index e => by simp [hnone] at e, fun _ => hknown⟩
    · obtain ⟨index, hlt, hindex⟩ := inputIndex?_of_mem_sources hsize hknown
      refine ⟨fun index' e => ?_, fun e => by simp [hindex] at e⟩
      rw [hindex, Option.some.injEq] at e
      exact e ▸ hlt
  nodup_reads := by
    have hperm := h.balance.filter fun label => !isInput label
    change (inner (g.reads ++ waiting)).Perm (inner (g.outputs ++ sources media)) at hperm
    rw [inner_append, inner_append, h.inner_outputs, inner_sources hsize, List.append_nil] at hperm
    exact (List.nodup_append.1 (hperm.nodup_iff.2 h.nodup_outputs)).1

/-- A wired graph that is valid has no more inputs than a machine word can count, as long as such
an input does not wait to be read. -/
theorem length_le (h : Wired media g waiting) (hvalid : g.Valid media.length)
    (hwaiting : ∀ kind, inputLabel UInt64.size kind ∉ waiting) : media.length ≤ UInt64.size := by
  by_contra hlt
  rw [Nat.not_le] at hlt
  have hmem : inputLabel UInt64.size media[UInt64.size] ∈ g.reads ++ waiting :=
    h.balance.mem_iff.2 (List.mem_append_right _ (mem_sources_iff.2 ⟨_, hlt, rfl⟩))
  rcases List.mem_append.1 hmem with hread | hwait
  · obtain ⟨s, hs, hlabel⟩ := List.mem_flatMap.1 hread
    obtain ⟨i, hi, rfl⟩ := List.getElem_of_mem hs
    have hnone : inputIndex? (inputLabel UInt64.size media[UInt64.size]) = none := by
      rw [inputIndex?_inputLabel, if_neg (Nat.lt_irrefl _)]
    have hproduced := (hvalid.readBehind i hi _ hlabel).2 hnone
    exact (h.handedOut _ (mem_outputs_of_take hproduced)).ne_inputLabel _ _ rfl
  · exact hwaiting _ hwait

end Wired

end Graph

end Montage
