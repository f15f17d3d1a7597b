import Mathlib.Data.List.Induction
import Mathlib.Data.List.Nodup
import Montage.Proofs.Graph.Wiring

/-!
# Linear programs

A program is linear if each of its streams is used exactly once: what a step produces and what an
input holds is read by one step or written out, and by nothing else.  `Program.Wired` carries the
wiring of graphs over to programs under construction; `Wired.linear` shows that a finished program
whose waiting labels are the ones that it writes out is linear.
-/

namespace Montage

open Montage.Graph

namespace Program

/-! ## Uses -/

/-- The labels that are written out. -/
def mapped (p : Program) : List Label := p.video.toList ++ p.audio.toList

/-- The uses of labels: what the steps read, then what is written out. -/
def uses (p : Program) : List Label := p.graph.reads ++ p.mapped

/-- Each output of a step and each input is used exactly once, and whatever a step reads was there
before it. -/
structure Linear (p : Program) : Prop where
  /-- No label is produced by two steps, nor twice by one step. -/
  produced_once : p.graph.outputs.Nodup
  inner_of_produced : ∀ label ∈ p.graph.outputs, isInput label = false
  produced_earlier : ∀ i (hi : i < p.graph.steps.length), ∀ label ∈ p.graph.steps[i].inputs,
    isInput label = false → ∃ j, ∃ hj : j < i, label ∈ p.graph.steps[j].outputs
  produced_of_mapped : ∀ label ∈ p.mapped, isInput label = false → label ∈ p.graph.outputs
  used_once : ∀ label ∈ p.graph.outputs, p.uses.count label = 1
  input_used_once : ∀ index < p.inputs.length,
    p.uses.countP (fun label => inputIndex? label = some index) = 1
  input_exists : ∀ label ∈ p.uses, ∀ index, inputIndex? label = some index →
    index < p.inputs.length

end Program

/-! ## Counting in balanced lists -/

namespace Graph

theorem countP_sources {media : List Media} (hsize : media.length ≤ UInt64.size) (index : Nat) :
    (sources media).countP (fun label => inputIndex? label = some index) =
      if index < media.length then 1 else 0 := by
  induction media using List.reverseRecOn with
  | nil => rfl
  | append_singleton media kind ih =>
    rw [List.length_append, List.length_singleton] at hsize ⊢
    have hlast : inputIndex? (inputLabel media.length kind) = some media.length := by
      rw [inputIndex?_inputLabel, if_pos (by omega)]
    rw [sources_concat, List.countP_append, ih (by omega), List.countP_singleton, hlast]
    simp only [Option.some.injEq, decide_eq_true_eq]
    split_ifs <;> omega

variable {media : List Media} {g : Graph} {waiting : List Label}

theorem Wired.not_mem_sources (h : Wired media g waiting) {label : Label}
    (hlabel : label ∈ g.outputs) : label ∉ sources media := by
  intro hsource
  obtain ⟨index, hindex, rfl⟩ := mem_sources_iff.1 hsource
  exact (h.handedOut _ hlabel).ne_inputLabel _ _ rfl

theorem Wired.count_eq_one (h : Wired media g waiting) {label : Label} (hlabel : label ∈ g.outputs) :
    (g.reads ++ waiting).count label = 1 := by
  rw [h.balance.count_eq, List.count_append, List.count_eq_one_of_mem h.nodup_outputs hlabel,
    List.count_eq_zero_of_not_mem (h.not_mem_sources hlabel)]

theorem Wired.countP_eq_one (h : Wired media g waiting) (hsize : media.length ≤ UInt64.size)
    {index : Nat} (hindex : index < media.length) :
    (g.reads ++ waiting).countP (fun label => inputIndex? label = some index) = 1 := by
  have houtputs : g.outputs.countP (fun label => inputIndex? label = some index) = 0 :=
    List.countP_eq_zero.2 fun label hlabel => by
      simp [(h.handedOut label hlabel).inputIndex?_eq_none]
  rw [h.balance.countP_eq, List.countP_append, houtputs, countP_sources hsize, if_pos hindex]

end Graph

namespace Program

/-! ## Wired programs -/

/-- The program's graph was built over its inputs, and these labels wait to be read. -/
def Wired (p : Program) (waiting : List Label) : Prop :=
  ∃ media, media.length = p.inputs.length ∧ Graph.Wired media p.graph waiting

theorem wired_empty (output : String) (duration : Float) : (empty output duration).Wired [] :=
  ⟨[], rfl, .empty⟩

namespace Wired

variable {p : Program} {waiting : List Label}

theorem perm {waiting' : List Label} (h : p.Wired waiting) (hperm : waiting.Perm waiting') :
    p.Wired waiting' := by
  obtain ⟨media, hlength, hwired⟩ := h
  exact ⟨media, hlength, .perm hperm hwired⟩

theorem addInput (h : p.Wired waiting) (input : Input) (kind : Media) :
    (p.addInput input).2.Wired ((Context.ofInput (p.addInput input).1 kind).label :: waiting) := by
  obtain ⟨media, hlength, hwired⟩ := h
  refine ⟨media ++ [kind], ?_, ?_⟩
  · change _ = (p.inputs ++ [input]).length
    rw [List.length_append, List.length_append, hlength]
    rfl
  · have := Graph.Wired.input kind hwired
    rwa [hlength] at this

theorem combine (ctxs : List Context) (h : p.Wired (ctxs.map (·.label) ++ waiting))
    (filter : String) {tag : String} (htag : isTag tag = true) :
    (p.combine ctxs filter tag).2.Wired ((p.combine ctxs filter tag).1.label :: waiting) := by
  obtain ⟨media, hlength, hwired⟩ := h
  exact ⟨media, hlength, hwired.combine ctxs filter htag⟩

theorem applyAll {ctx : Context} (h : p.Wired (ctx.label :: waiting)) (filters : List String)
    {tag : String} (htag : isTag tag = true) :
    (p.applyAll ctx filters tag).2.Wired ((p.applyAll ctx filters tag).1.label :: waiting) := by
  induction filters generalizing p ctx with
  | nil => exact h
  | cons filter rest ih => exact ih (combine [ctx] h filter htag)

/-- A wired program is valid if a machine word can count its inputs. -/
theorem validate_eq_ok (h : p.Wired waiting) (hsize : p.inputs.length ≤ UInt64.size) :
    p.validate = .ok () := by
  obtain ⟨media, hlength, hwired⟩ := h
  have hcheck : p.graph.check p.inputs.length = .ok () :=
    check_eq_ok_iff.2 (hlength ▸ hwired.valid (hlength ▸ hsize))
  rw [validate, hcheck]

theorem valid_of_validate (h : p.validate = .ok ()) : p.graph.Valid p.inputs.length := by
  rw [validate] at h
  split at h
  · next hcheck => exact check_eq_ok_iff.1 hcheck
  · cases h

/-- A wired program that writes out what waits to be read is linear once it is found valid. -/
theorem linear (h : p.Wired p.mapped) (hvalidate : p.validate = .ok ())
    (hmapped : ∀ kind, inputLabel UInt64.size kind ∉ p.mapped) : p.Linear := by
  obtain ⟨media, hlength, hwired⟩ := h
  have hvalid := valid_of_validate hvalidate
  have hsize : media.length ≤ UInt64.size := hwired.length_le (hlength ▸ hvalid) hmapped
  exact
    { produced_once := hwired.nodup_outputs
      inner_of_produced := fun label hlabel =>
        isInput_eq_false_iff.2 (hvalid.inner_of_output label hlabel)
      produced_earlier := fun i hi label hlabel hinner =>
        (mem_outputsOf_take_iff hi).1
          ((hvalid.readBehind i hi label hlabel).2 (isInput_eq_false_iff.1 hinner))
      produced_of_mapped := fun label hlabel hinner => by
        rcases List.mem_append.1 (hwired.balance.mem_iff.1 (List.mem_append_right _ hlabel)) with
          hmem | hmem
        · exact hmem
        · obtain ⟨index, -, hindex⟩ := Graph.Wired.inputIndex?_of_mem_sources hsize hmem
          simp [isInput_eq_false_iff, hindex] at hinner
      used_once := fun label hlabel => hwired.count_eq_one hlabel
      input_used_once := fun index hindex => hwired.countP_eq_one hsize (hlength ▸ hindex)
      input_exists := fun label hlabel index hindex => by
        rcases List.mem_append.1 (hwired.balance.mem_iff.1 hlabel) with hmem | hmem
        · simp [hvalid.inner_of_output label hmem] at hindex
        · obtain ⟨index', hlt, hindex'⟩ := Graph.Wired.inputIndex?_of_mem_sources hsize hmem
          rw [hindex', Option.some.injEq] at hindex
          omega }

end Wired

end Program

end Montage
