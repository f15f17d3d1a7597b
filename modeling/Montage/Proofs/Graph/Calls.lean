import Mathlib.Data.List.Count
import Mathlib.Data.List.Induction
import Montage.Proofs.Graph.Wiring

/-!
# Calls of the builders

Whoever builds a graph calls the builders one after another and passes on what they returned.  The
calls are `Frugal` if every context that is passed to one of them reads an input that exists or was
returned by an earlier call, and none that was returned is passed on twice.

Each call hands out fresh labels and adds one step at most (`perform_cases`).  So what the graph
produces and reads is what the calls returned and were given (`Kept`), and frugal calls keep the
graph valid (`Frugal.kept`).  In contrast to `Wired`, an input may be read any number of times, and
a label may be handed out without a step.
-/

namespace Montage.Graph

/-! ## Calls -/

/-- One call of a builder. -/
inductive Call where
  | fresh (tag : String)
  | apply (ctx : Context) (filter tag : String)
  | combine (ctxs : List Context) (filter tag : String)
  | source (filter tag : String)
  | combineAll (ctxs : List Context) (filter : String) (tags : List String)
  | split (ctx : Context) (n : Nat)
  deriving Repr, DecidableEq

/-- What a call returns: a bare label, or labels to be read. -/
inductive Answer where
  | label (label : Label)
  | contexts (ctxs : List Context)
  deriving Repr, DecidableEq

namespace Answer

def labels : Answer → List Label
  | label l => [l]
  | contexts ctxs => ctxs.map (·.label)

def returned : Answer → List Context
  | label _ => []
  | contexts ctxs => ctxs

theorem map_label_returned_sublist (a : Answer) : (a.returned.map (·.label)).Sublist a.labels := by
  cases a with
  | label l => exact List.nil_sublist _
  | contexts ctxs => exact List.Sublist.refl _

end Answer

namespace Call

/-- The contexts that the call is given. -/
def passed : Call → List Context
  | fresh _ | source .. => []
  | apply ctx .. | split ctx _ => [ctx]
  | combine ctxs .. | combineAll ctxs .. => ctxs

/-- The tags of the labels that the call hands out. -/
def tags : Call → List String
  | fresh tag | apply _ _ tag | combine _ _ tag | source _ tag => [tag]
  | combineAll _ _ tags => tags
  | split _ n => List.replicate n "split"

/-- What the call returns, and the graph behind it. -/
def perform (g : Graph) : Call → Answer × Graph
  | fresh tag => (.label (g.fresh tag).1, (g.fresh tag).2)
  | apply ctx filter tag => (.contexts [(g.apply ctx filter tag).1], (g.apply ctx filter tag).2)
  | combine ctxs filter tag =>
    (.contexts [(g.combine ctxs filter tag).1], (g.combine ctxs filter tag).2)
  | source filter tag => (.contexts [(g.source filter tag).1], (g.source filter tag).2)
  | combineAll ctxs filter tags =>
    (.contexts (g.combineAll ctxs filter tags).1, (g.combineAll ctxs filter tags).2)
  | split ctx n => (.contexts (g.split ctx n).1, (g.split ctx n).2)

theorem labels_perform (g : Graph) (call : Call) :
    (call.perform g).1.labels = (g.freshAll call.tags).1 := by
  have hmap (labels : List Label) : (labels.map Context.mk).map (·.label) = labels := by
    simp [Function.comp_def]
  cases call with
  | combineAll ctxs filter tags => exact hmap _
  | split ctx n => exact hmap _
  | _ => rfl

theorem nextId_perform (g : Graph) (call : Call) :
    (call.perform g).2.nextId = g.nextId + call.tags.length := by
  rw [← nextId_freshAll g call.tags]
  cases call <;> rfl

/-- A call only hands a label out, or it adds the one step that reads what the call is given and
produces what the call returns. -/
theorem perform_cases (g : Graph) (call : Call) :
    ((call.perform g).2.steps = g.steps ∧ call.passed = [] ∧ (call.perform g).1.returned = []) ∨
      ∃ filter, (call.perform g).2.steps = g.steps ++
          [⟨call.passed.map (·.label), filter, (g.freshAll call.tags).1⟩] ∧
        (call.perform g).1.returned.map (·.label) = (g.freshAll call.tags).1 := by
  have hmap (labels : List Label) : (labels.map Context.mk).map (·.label) = labels := by
    simp [Function.comp_def]
  cases call with
  | fresh tag => exact Or.inl ⟨rfl, rfl, rfl⟩
  | apply ctx filter tag => exact Or.inr ⟨filter, rfl, rfl⟩
  | combine ctxs filter tag => exact Or.inr ⟨filter, rfl, rfl⟩
  | source filter tag => exact Or.inr ⟨filter, rfl, rfl⟩
  | combineAll ctxs filter tags => exact Or.inr ⟨filter, steps_push g tags _, hmap _⟩
  | split ctx n =>
    exact Or.inr ⟨splitFilter n, steps_push g (List.replicate n "split") _, hmap _⟩

end Call

/-! ## Drafts -/

/-- A graph under construction and what its builders have returned so far. -/
structure Draft where
  graph : Graph := .empty
  answers : List Answer := []

namespace Draft

def call (d : Draft) (c : Call) : Draft :=
  ⟨(c.perform d.graph).2, d.answers ++ [(c.perform d.graph).1]⟩

/-- All calls in order, on a graph without steps. -/
def ofCalls (calls : List Call) : Draft := calls.foldl call {}

/-- All labels that were returned. -/
def labels (d : Draft) : List Label := d.answers.flatMap Answer.labels

/-- All contexts that were returned. -/
def returned (d : Draft) : List Context := d.answers.flatMap Answer.returned

theorem ofCalls_concat (calls : List Call) (c : Call) :
    ofCalls (calls ++ [c]) = (ofCalls calls).call c := List.foldl_concat ..

theorem labels_call (d : Draft) (c : Call) :
    (d.call c).labels = d.labels ++ (d.graph.freshAll c.tags).1 := by
  rw [← Call.labels_perform]
  simp [labels, call]

theorem returned_call (d : Draft) (c : Call) :
    (d.call c).returned = d.returned ++ (c.perform d.graph).1.returned := by
  simp [returned, call]

theorem map_label_returned_sublist (d : Draft) :
    (d.returned.map (·.label)).Sublist d.labels := by
  unfold returned labels
  induction d.answers with
  | nil => exact List.Sublist.refl _
  | cons a rest ih =>
    rw [List.flatMap_cons, List.flatMap_cons, List.map_append]
    exact a.map_label_returned_sublist.append ih

/-- No label was handed out twice. -/
structure Distinct (d : Draft) : Prop where
  handedOut : ∀ label ∈ d.labels, d.graph.HandedOut label
  nodup : d.labels.Nodup

theorem distinct_nil : Distinct {} := ⟨by simp [labels], List.nodup_nil⟩

theorem Distinct.call {d : Draft} (h : d.Distinct) {c : Call}
    (htags : ∀ tag ∈ c.tags, isTag tag = true) : (d.call c).Distinct where
  handedOut := by
    rw [labels_call]
    refine List.forall_mem_append.2 ⟨fun label hlabel => ?_, fun label hlabel => ?_⟩
    · refine (h.handedOut label hlabel).mono ?_
      rw [Draft.call, Call.nextId_perform]
      exact Nat.le_add_right ..
    · obtain ⟨tag, number, htag, -, hlt, rfl⟩ := exists_of_mem_freshAll htags hlabel
      exact ⟨tag, number, htag, by rw [Draft.call, Call.nextId_perform]; exact hlt, rfl⟩
  nodup := by
    rw [labels_call, List.nodup_append]
    refine ⟨h.nodup, nodup_freshAll d.graph htags, ?_⟩
    rintro label hold _ hnew rfl
    exact not_handedOut_of_mem_freshAll htags hnew (h.handedOut label hold)

end Draft

/-! ## Frugal calls -/

/-- The context reads one of so many inputs. -/
def Context.ReadsInput (inputs : Nat) (ctx : Context) : Prop :=
  ∃ index < inputs, ∃ media, ctx = .ofInput index media

/-- The contexts that the calls are given, in order. -/
def passedTo (calls : List Call) : List Context := calls.flatMap Call.passed

/-- The labels have proper tags; each context that a call is given reads an input or was returned by
an earlier call; and no context that was returned is passed on twice. -/
structure Frugal (inputs : Nat) (calls : List Call) : Prop where
  isTag : ∀ call ∈ calls, ∀ tag ∈ call.tags, isTag tag = true
  known : ∀ i (hi : i < calls.length), ∀ ctx ∈ calls[i].passed,
    ctx.ReadsInput inputs ∨ ctx ∈ (Draft.ofCalls (calls.take i)).returned
  once : ∀ ctx ∈ (Draft.ofCalls calls).returned, (passedTo calls).count ctx ≤ 1

theorem Context.ReadsInput.inputIndex? {inputs : Nat} (hinputs : inputs ≤ UInt64.size)
    {ctx : Context} (h : ctx.ReadsInput inputs) :
    ∃ index < inputs, inputIndex? ctx.label = some index := by
  obtain ⟨index, hindex, media, rfl⟩ := h
  refine ⟨index, hindex, ?_⟩
  rw [Context.ofInput, inputIndex?_inputLabel, if_pos (by omega)]

instance (inputs : Nat) (ctx : Context) : Decidable (ctx.ReadsInput inputs) :=
  decidable_of_iff (∃ index ∈ List.range inputs, ctx = .ofInput index .video ∨
    ctx = .ofInput index .audio) (by
    refine exists_congr fun index => ?_
    rw [List.mem_range]
    refine and_congr_right fun _ => ⟨?_, ?_⟩
    · rintro (h | h)
      · exact ⟨.video, h⟩
      · exact ⟨.audio, h⟩
    · rintro ⟨media, h⟩
      cases media with
      | video => exact Or.inl h
      | audio => exact Or.inr h)

instance (inputs : Nat) (calls : List Call) : Decidable (Frugal inputs calls) :=
  decidable_of_iff (_ ∧ _ ∧ _) ⟨fun h => ⟨h.1, h.2.1, h.2.2⟩, fun h => ⟨h.isTag, h.known, h.once⟩⟩

section

variable {inputs : Nat} {calls : List Call} {call : Call}

theorem returned_subset_concat (calls : List Call) (call : Call) :
    (Draft.ofCalls calls).returned ⊆ (Draft.ofCalls (calls ++ [call])).returned := by
  rw [Draft.ofCalls_concat, Draft.returned_call]
  exact List.subset_append_left ..

theorem Frugal.of_concat (h : Frugal inputs (calls ++ [call])) : Frugal inputs calls where
  isTag c hc := h.isTag c (List.mem_append_left _ hc)
  known i hi ctx hctx := by
    have hi' : i < (calls ++ [call]).length := by rw [List.length_append]; omega
    have := h.known i hi' ctx (by rwa [List.getElem_append_left hi])
    rwa [List.take_append_of_le_length (Nat.le_of_lt hi)] at this
  once ctx hctx := by
    have := h.once ctx (returned_subset_concat calls call hctx)
    rw [passedTo, List.flatMap_append, List.count_append] at this
    unfold passedTo
    omega

theorem Frugal.known_last (h : Frugal inputs (calls ++ [call])) : ∀ ctx ∈ call.passed,
    ctx.ReadsInput inputs ∨ ctx ∈ (Draft.ofCalls calls).returned := by
  intro ctx hctx
  have := h.known calls.length (by simp) ctx (by simpa using hctx)
  rwa [List.take_left] at this

theorem Frugal.known_of_mem (h : Frugal inputs calls) : ∀ ctx ∈ passedTo calls,
    ctx.ReadsInput inputs ∨ ctx ∈ (Draft.ofCalls calls).returned := by
  induction calls using List.reverseRecOn with
  | nil => simp [passedTo]
  | append_singleton calls call ih =>
    intro ctx hctx
    rw [passedTo, List.flatMap_append, List.flatMap_singleton] at hctx
    have hknown : ctx.ReadsInput inputs ∨ ctx ∈ (Draft.ofCalls calls).returned := by
      rcases List.mem_append.1 hctx with hctx | hctx
      · exact ih h.of_concat ctx hctx
      · exact h.known_last ctx hctx
    exact hknown.imp_right fun hmem => returned_subset_concat calls call hmem

/-- What frugal calls are given names no label of a step twice. -/
theorem Frugal.nodup_passed (h : Frugal inputs calls) (hinputs : inputs ≤ UInt64.size) :
    (inner ((passedTo calls).map (·.label))).Nodup := by
  rw [nodup_inner_iff]
  intro label hlabel
  by_cases hmem : label ∈ (passedTo calls).map (·.label)
  · obtain ⟨ctx, hctx, rfl⟩ := List.mem_map.1 hmem
    have hinj : Function.Injective (·.label : Context → Label) := by
      rintro ⟨l⟩ ⟨l'⟩ rfl
      rfl
    rw [List.count_map_of_injective _ _ hinj]
    rcases h.known_of_mem ctx hctx with hread | hreturned
    · obtain ⟨index, -, hindex⟩ := hread.inputIndex? hinputs
      simp [isInput, hindex] at hlabel
    · exact h.once ctx hreturned
  · rw [List.count_eq_zero_of_not_mem hmem]
    exact Nat.zero_le 1

end

/-! ## What frugal calls keep -/

/-- A valid graph stays valid if a step is added that produces new labels, and reads what exists and
was not read before. -/
theorem Valid.concat {g g' : Graph} {s : Step} {inputs : Nat} (h : g.Valid inputs)
    (hsteps : g'.steps = g.steps ++ [s]) (hinner : ∀ label ∈ s.outputs, inputIndex? label = none)
    (hnodup : (g.outputs ++ s.outputs).Nodup)
    (hbehind : ∀ label ∈ s.inputs, ReadBehind g.steps inputs label)
    (honce : (inner (g.reads ++ s.inputs)).Nodup) : g'.Valid inputs := by
  have houtputs : g'.outputs = g.outputs ++ s.outputs := by
    rw [outputs, hsteps, outputsOf_append]
    simp [outputs]
  have hreads : g'.reads = g.reads ++ s.inputs := by
    rw [reads, hsteps, readsOf_append]
    simp [reads]
  refine ⟨?_, houtputs ▸ hnodup, ?_, hreads ▸ honce⟩
  · rw [houtputs]
    exact List.forall_mem_append.2 ⟨h.inner_of_output, hinner⟩
  · intro i hi label hlabel
    simp only [hsteps] at hi hlabel ⊢
    by_cases hlast : i < g.steps.length
    · rw [List.getElem_append_left hlast] at hlabel
      rw [List.take_append_of_le_length (Nat.le_of_lt hlast)]
      exact h.readBehind i hlast label hlabel
    · obtain rfl : i = g.steps.length := by
        rw [List.length_append, List.length_singleton] at hi
        omega
      rw [List.getElem_append_right (Nat.le_refl _)] at hlabel
      rw [List.take_left]
      exact hbehind label (by simpa using hlabel)

/-- The graph produces what the calls returned and reads what they were given, and it is valid. -/
structure Kept (inputs : Nat) (calls : List Call) (d : Draft) : Prop where
  outputs : d.graph.outputs = d.returned.map (·.label)
  reads : d.graph.reads = (passedTo calls).map (·.label)
  valid : d.graph.Valid inputs

theorem kept_nil (inputs : Nat) : Kept inputs [] {} where
  outputs := rfl
  reads := rfl
  valid := ⟨by simp [Graph.outputs, Graph.empty], List.nodup_nil, by simp [Graph.empty],
    List.nodup_nil⟩

section

variable {inputs : Nat} {calls : List Call} {call : Call} {d : Draft}

theorem passedTo_concat (calls : List Call) (call : Call) :
    passedTo (calls ++ [call]) = passedTo calls ++ call.passed := by
  simp [passedTo]

/-- A call that only hands a label out changes nothing of that. -/
theorem Kept.call_of_steps_eq (h : Kept inputs calls d)
    (hsteps : (call.perform d.graph).2.steps = d.graph.steps) (hpassed : call.passed = [])
    (hreturned : (call.perform d.graph).1.returned = []) :
    Kept inputs (calls ++ [call]) (d.call call) := by
  have houtputs : (d.call call).graph.outputs = d.graph.outputs := congrArg outputsOf hsteps
  have hreads : (d.call call).graph.reads = d.graph.reads := congrArg readsOf hsteps
  refine ⟨?_, ?_, houtputs ▸ h.valid.inner_of_output, houtputs ▸ h.valid.nodup_outputs, ?_,
    hreads ▸ h.valid.nodup_reads⟩
  · rw [houtputs, h.outputs, Draft.returned_call, hreturned, List.append_nil]
  · rw [hreads, h.reads, passedTo_concat, hpassed, List.append_nil]
  · unfold Draft.call
    simp only [hsteps]
    exact h.valid.readBehind

/-- What a call is given reads an input, or was returned and hence produced. -/
theorem Kept.readBehind (h : Kept inputs calls d) (hinputs : inputs ≤ UInt64.size) {ctx : Context}
    (hknown : ctx.ReadsInput inputs ∨ ctx ∈ d.returned) :
    ReadBehind d.graph.steps inputs ctx.label := by
  rcases hknown with hread | hmem
  · obtain ⟨index, hlt, hindex⟩ := hread.inputIndex? hinputs
    refine ⟨fun index' e => ?_, fun e => by simp [hindex] at e⟩
    rw [hindex, Option.some.injEq] at e
    omega
  · have hproduced : ctx.label ∈ d.graph.outputs := h.outputs ▸ List.mem_map_of_mem hmem
    have hnone := h.valid.inner_of_output ctx.label hproduced
    exact ⟨fun index e => by simp [hnone] at e, fun _ => hproduced⟩

/-- Nor does a call that adds a step, if the calls are frugal up to this one. -/
theorem Kept.call_of_step (h : Kept inputs calls d) (hinputs : inputs ≤ UInt64.size)
    (hfrugal : Frugal inputs (calls ++ [call])) (hd : d = .ofCalls calls)
    (hdistinct : (d.call call).Distinct) {filter : String}
    (hsteps : (call.perform d.graph).2.steps = d.graph.steps ++
      [⟨call.passed.map (·.label), filter, (d.graph.freshAll call.tags).1⟩])
    (hreturned : (call.perform d.graph).1.returned.map (·.label) =
      (d.graph.freshAll call.tags).1) : Kept inputs (calls ++ [call]) (d.call call) := by
  have hproduced : d.graph.outputs ++ (d.graph.freshAll call.tags).1 =
      (d.call call).returned.map (·.label) := by
    rw [h.outputs, Draft.returned_call, List.map_append, hreturned]
  have hread : d.graph.reads ++ call.passed.map (·.label) =
      (passedTo (calls ++ [call])).map (·.label) := by
    rw [h.reads, passedTo_concat, List.map_append]
  refine ⟨?_, ?_, h.valid.concat hsteps ?_ ?_ ?_ ?_⟩
  · rw [← hproduced, Graph.outputs, Draft.call, hsteps, outputsOf_append]
    simp [Graph.outputs]
  · rw [← hread, Graph.reads, Draft.call, hsteps, readsOf_append]
    simp [Graph.reads]
  · intro label hlabel
    refine (hdistinct.handedOut label ?_).inputIndex?_eq_none
    rw [Draft.labels_call]
    exact List.mem_append_right _ hlabel
  · rw [hproduced]
    exact hdistinct.nodup.sublist (Draft.map_label_returned_sublist _)
  · exact List.forall_mem_map.2 fun ctx hctx =>
      h.readBehind hinputs (hd ▸ hfrugal.known_last ctx hctx)
  · rw [hread]
    exact hfrugal.nodup_passed hinputs

theorem Frugal.distinct (h : Frugal inputs calls) : (Draft.ofCalls calls).Distinct := by
  induction calls using List.reverseRecOn with
  | nil => exact Draft.distinct_nil
  | append_singleton calls call ih =>
    rw [Draft.ofCalls_concat]
    exact (ih h.of_concat).call (h.isTag call (by simp))

theorem Frugal.kept (hinputs : inputs ≤ UInt64.size) (h : Frugal inputs calls) :
    Kept inputs calls (.ofCalls calls) := by
  induction calls using List.reverseRecOn with
  | nil => exact kept_nil inputs
  | append_singleton calls call ih =>
    have hkept := ih h.of_concat
    have hdistinct := h.distinct
    rw [Draft.ofCalls_concat] at hdistinct ⊢
    rcases call.perform_cases (Draft.ofCalls calls).graph with
      ⟨hsteps, hpassed, hreturned⟩ | ⟨filter, hsteps, hreturned⟩
    · exact hkept.call_of_steps_eq hsteps hpassed hreturned
    · exact hkept.call_of_step hinputs h rfl hdistinct hsteps hreturned

end

/-- Calls that pass on each context once at most make a valid graph: all labels that they return
differ, none of them names an input, the numbers of inputs are read back from their labels, and the
graph passes its check. -/
theorem frugal_calls_check {inputs : Nat} (hinputs : inputs ≤ UInt64.size) {calls : List Call}
    (h : Frugal inputs calls) :
    (Draft.ofCalls calls).labels.Nodup ∧
      (∀ label ∈ (Draft.ofCalls calls).labels, isInput label = false) ∧
      (∀ index < UInt64.size, ∀ media,
        inputIndex? (Context.ofInput index media).label = some index) ∧
      (Draft.ofCalls calls).graph.check inputs = .ok () := by
  refine ⟨h.distinct.nodup, fun label hlabel => ?_, fun index hindex media => ?_, ?_⟩
  · exact isInput_eq_false_iff.2 (h.distinct.handedOut label hlabel).inputIndex?_eq_none
  · rw [Context.ofInput, inputIndex?_inputLabel, if_pos hindex]
  · exact check_eq_ok_iff.2 (h.kept hinputs).valid

/-- A clip is split and one half laid over the other; the input is read once more, for a blurred
backdrop, and one label is never used. -/
def overlaidCalls : List Call :=
  [.split (.ofInput 0 .video) 2, .fresh "spare", .source "color=c=black" "bg",
    .combine [⟨"bg3"⟩, ⟨"split1"⟩] "overlay" "ov", .apply (.ofInput 0 .video) "boxblur" "v",
    .combineAll [⟨"v5"⟩, ⟨"ov4"⟩, ⟨"split0"⟩, .ofInput 1 .audio] "concat=n=3:v=1:a=1" ["cv", "ca"]]

theorem frugal_calls_check_overlaidCalls :
    2 ≤ UInt64.size ∧ Frugal 2 overlaidCalls ∧
      (Draft.ofCalls overlaidCalls).labels.Nodup ∧
      (∀ label ∈ (Draft.ofCalls overlaidCalls).labels, isInput label = false) ∧
      (∀ index < UInt64.size, ∀ media,
        inputIndex? (Context.ofInput index media).label = some index) ∧
      (Draft.ofCalls overlaidCalls).graph.check 2 = .ok () := by
  have hinputs : 2 ≤ UInt64.size := by decide
  have hfrugal : Frugal 2 overlaidCalls := by decide +kernel
  exact ⟨hinputs, hfrugal, frugal_calls_check hinputs hfrugal⟩

end Montage.Graph
