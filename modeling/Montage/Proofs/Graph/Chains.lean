import Montage.Graph.Basic

/-!
# Chains of filters

A chain leads a stream through filters one behind the other.  Applying filters in turn adds the
steps of a chain (`exists_chain_applyAll`).
-/

namespace Montage.Graph

/-- Filters with the labels before, between and behind them. -/
inductive Chain where
  | stop (label : Label)
  | link (label : Label) (filter : String) (rest : Chain)
  deriving Repr, DecidableEq

namespace Chain

/-- The label that the chain starts from. -/
def start : Chain → Label
  | stop label => label
  | link label _ _ => label

/-- The label that the chain leads to. -/
def finish : Chain → Label
  | stop label => label
  | link _ _ rest => rest.finish

def filters : Chain → List String
  | stop _ => []
  | link _ filter rest => filter :: rest.filters

/-- Each step reads what the one before it produces. -/
def steps : Chain → List Step
  | stop _ => []
  | link label filter rest => ⟨[label], filter, [rest.start]⟩ :: rest.steps

/-- One chain behind another. -/
def append : Chain → Chain → Chain
  | stop _, d => d
  | link label filter rest, d => link label filter (rest.append d)

section Append

variable {c d : Chain}

@[simp] theorem finish_append : (c.append d).finish = d.finish := by
  induction c with
  | stop => rfl
  | link _ _ _ ih => exact ih

@[simp] theorem filters_append : (c.append d).filters = c.filters ++ d.filters := by
  induction c with
  | stop => rfl
  | link _ filter _ ih => exact congrArg (filter :: ·) ih

theorem start_append (h : c.finish = d.start) : (c.append d).start = c.start := by
  cases c with
  | stop => exact h.symm
  | link => rfl

/-- Where one chain leads to the start of another, their steps are those of one chain. -/
theorem steps_append (h : c.finish = d.start) : (c.append d).steps = c.steps ++ d.steps := by
  induction c with
  | stop => rfl
  | link label filter rest ih =>
    have hnext : rest.finish = d.start := h
    rw [append, steps, start_append hnext, ih hnext, steps, List.cons_append]

end Append

theorem filter_mem_filters {c : Chain} {s : Step} (hs : s ∈ c.steps) : s.filter ∈ c.filters := by
  induction c with
  | stop => cases hs
  | link label filter rest ih =>
    rcases List.mem_cons.1 hs with rfl | hs
    · exact List.mem_cons_self
    · exact List.mem_cons_of_mem _ (ih hs)

end Chain

/-- Filters applied in turn form a chain. -/
theorem exists_chain_applyAll (g : Graph) (ctx : Context) (filters : List String) (tag : String) :
    ∃ c : Chain, c.start = ctx.label ∧ c.filters = filters ∧
      c.finish = (g.applyAll ctx filters tag).1.label ∧
      (g.applyAll ctx filters tag).2.steps = g.steps ++ c.steps := by
  induction filters generalizing g ctx with
  | nil => exact ⟨.stop ctx.label, rfl, rfl, rfl, (List.append_nil _).symm⟩
  | cons filter rest ih =>
    obtain ⟨c, hstart, hfilters, hfinish, hsteps⟩ := ih (g.apply ctx filter tag).2
      (g.apply ctx filter tag).1
    refine ⟨.link ctx.label filter c, rfl, congrArg (filter :: ·) hfilters, hfinish, ?_⟩
    rw [applyAll, hsteps, Chain.steps, hstart]
    exact List.append_assoc g.steps [_] c.steps

end Montage.Graph
