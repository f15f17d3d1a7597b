import Montage.Proofs.Graph.Labels
import Montage.Transition.Splice

/-!
# Lengths of streams

A splice is made of five operations on streams.  An `Action` is a step whose filter is one of them,
so that the length of what it produces can be told from the lengths of what it reads;
`lengthsAfter` tells the lengths of all streams behind a list of actions.  An action does not touch
streams with other labels (`lengthsAfter_of_forall_not_mem`).
-/

namespace Montage.Transition

open Montage.Graph

/-! ## Operations -/

/-- What a step does to the streams that it reads; times are in milliseconds. -/
inductive Operation where
  | split
  /-- The stretch from one time to another. -/
  | trim (start finish : Int)
  /-- The same pictures, counted from zero again. -/
  | restart
  /-- The second stream, faded in over the first one from the start on. -/
  | crossfade (transition : String) (length : Int)
  /-- The streams one behind the other. -/
  | concat (count : Nat)
  deriving Repr, DecidableEq

/-- The operation as a filter. -/
def Operation.filter : Operation → String
  | .split => splitFilter 2
  | .trim start finish => "trim=" ++ lengthText start ++ ":" ++ lengthText finish
  | .restart => "setpts=PTS-STARTPTS"
  | .crossfade transition length =>
    "xfade=transition=" ++ transition ++ ":duration=" ++ lengthText length ++ ":offset=0"
  | .concat count => "concat=n=" ++ toString count

/-- The sum of the lengths, if all are known. -/
def addUpKnown : List (Option Int) → Option Int
  | [] => some 0
  | length :: rest => length.bind fun length => (addUpKnown rest).map (length + ·)

/-- The length of what the operation produces, given the lengths of what it reads. -/
def Operation.length? : Operation → List (Option Int) → Option Int
  | .trim start finish, _ => some (finish - start)
  | .split, [length] => length
  | .restart, [length] => length
  | .crossfade _ _, [_, second] => second
  | .concat _, lengths => addUpKnown lengths
  | _, _ => none

/-- An operation with the labels that it reads and produces. -/
structure Action where
  inputs : List Label
  operation : Operation
  outputs : List Label
  deriving Repr, DecidableEq

/-- The action as a step of a graph. -/
def Action.step (a : Action) : Step := ⟨a.inputs, a.operation.filter, a.outputs⟩

/-- The known lengths of streams behind an action. -/
def Action.lengthsAfter (known : Label → Option Int) (a : Action) (label : Label) : Option Int :=
  if label ∈ a.outputs then a.operation.length? (a.inputs.map known) else known label

/-- The known lengths of streams behind actions, one after another. -/
def lengthsAfter (known : Label → Option Int) : List Action → Label → Option Int
  | [] => known
  | a :: rest => lengthsAfter (a.lengthsAfter known) rest

/-! ## Untouched streams -/

theorem lengthsAfter_append (known : Label → Option Int) (as bs : List Action) :
    lengthsAfter known (as ++ bs) = lengthsAfter (lengthsAfter known as) bs := by
  induction as generalizing known with
  | nil => rfl
  | cons a as ih => exact ih _

theorem Action.lengthsAfter_of_mem {a : Action} {label : Label} (h : label ∈ a.outputs)
    (known : Label → Option Int) :
    a.lengthsAfter known label = a.operation.length? (a.inputs.map known) := if_pos h

theorem Action.lengthsAfter_of_not_mem {a : Action} {label : Label} (h : label ∉ a.outputs)
    (known : Label → Option Int) : a.lengthsAfter known label = known label := if_neg h

theorem lengthsAfter_of_forall_not_mem {actions : List Action} {label : Label}
    (h : ∀ a ∈ actions, label ∉ a.outputs) (known : Label → Option Int) :
    lengthsAfter known actions label = known label := by
  induction actions generalizing known with
  | nil => rfl
  | cons a rest ih =>
    rw [List.forall_mem_cons] at h
    exact (ih h.2 _).trans (Action.lengthsAfter_of_not_mem h.1 known)

/-! ## Numbered labels -/

/-- The label is a tag with a number not below the given one. -/
def NumberedFrom (number : Nat) (label : Label) : Prop :=
  ∃ tag later, isTag tag = true ∧ number ≤ later ∧ label = tag ++ toString later

theorem NumberedFrom.mono {number number' : Nat} {label : Label} (h : NumberedFrom number label)
    (hle : number' ≤ number) : NumberedFrom number' label := by
  obtain ⟨tag, later, htag, hlater, rfl⟩ := h
  exact ⟨tag, later, htag, by omega, rfl⟩

theorem NumberedFrom.ne {number earlier : Nat} {label tag : String} (h : NumberedFrom number label)
    (htag : isTag tag = true) (hlt : earlier < number) : tag ++ toString earlier ≠ label := by
  obtain ⟨tag', later, htag', hle, rfl⟩ := h
  intro e
  have := tagged_inj htag htag' e
  omega

/-- Actions do not touch a label with a number below those of all that they produce. -/
theorem lengthsAfter_of_numberedFrom {number earlier : Nat} {actions : List Action} {tag : String}
    (h : ∀ a ∈ actions, ∀ label ∈ a.outputs, NumberedFrom number label) (htag : isTag tag = true)
    (hlt : earlier < number) (known : Label → Option Int) :
    lengthsAfter known actions (tag ++ toString earlier) = known (tag ++ toString earlier) :=
  lengthsAfter_of_forall_not_mem (fun a ha hmem => (h a ha _ hmem).ne htag hlt rfl) known

end Montage.Transition
