import Montage.Graph.Basic

/-!
# Validity

A graph is valid over a number of inputs if every label is produced once, and none that names an
input; every step reads only inputs that exist and labels that an earlier step produced; and no
label is read twice.  `Graph.check` walks the steps twice and reports the first defect: first the
outputs of all steps, then their inputs.
-/

namespace Montage.Graph

/-- What is wrong with a graph. -/
inductive Defect where
  | outputIsInput (step : Nat) (label : Label)
  | producedTwice (label : Label)
  | noSuchInput (step index inputs : Nat)
  | readEarly (label : Label) (step : Nat)
  | neverProduced (label : Label)
  | readTwice (label : Label)
  deriving Repr, DecidableEq

def Defect.message : Defect → String
  | .outputIsInput step label =>
    "step " ++ toString step ++ " declares input specifier '" ++ label ++ "' as an output"
  | .producedTwice label => "label '" ++ label ++ "' is produced more than once"
  | .noSuchInput step index inputs =>
    "step " ++ toString step ++ " reads input " ++ toString index ++ " but only " ++
      toString inputs ++ " inputs exist"
  | .readEarly label step =>
    "label '" ++ label ++ "' is consumed at step " ++ toString step ++ " before it is produced"
  | .neverProduced label => "label '" ++ label ++ "' is consumed but never produced"
  | .readTwice label => "label '" ++ label ++ "' is consumed more than once without a split"

/-- Labels and the numbers of the steps that produce them. -/
abbrev Producers := List (Label × Nat)

/-- The step that produces a label. -/
def Producers.find? (producers : Producers) (label : Label) : Option Nat :=
  producers.lookup label

def Producers.addOutputs (producers : Producers) (step : Nat) :
    List Label → Except Defect Producers
  | [] => .ok producers
  | label :: rest =>
    if isInput label then .error (.outputIsInput step label)
    else if (producers.find? label).isSome then .error (.producedTwice label)
    else Producers.addOutputs ((label, step) :: producers) step rest

/-- Takes the outputs of all steps in, from the step with the given number on. -/
def Producers.addSteps (producers : Producers) (step : Nat) :
    List Step → Except Defect Producers
  | [] => .ok producers
  | s :: rest =>
    match producers.addOutputs step s.outputs with
    | .error defect => .error defect
    | .ok producers => Producers.addSteps producers (step + 1) rest

/-- Checks what one step reads, given the labels read before; yields those read now. -/
def checkReads (producers : Producers) (inputs step : Nat) (read : List Label) :
    List Label → Except Defect (List Label)
  | [] => .ok read
  | label :: rest =>
    match inputIndex? label with
    | some index =>
      if index < inputs then checkReads producers inputs step read rest
      else .error (.noSuchInput step index inputs)
    | none =>
      match producers.find? label with
      | none => .error (.neverProduced label)
      | some producer =>
        if producer < step then
          if label ∈ read then .error (.readTwice label)
          else checkReads producers inputs step (label :: read) rest
        else .error (.readEarly label step)

/-- Checks what the steps read, from the step with the given number on. -/
def checkSteps (producers : Producers) (inputs step : Nat) (read : List Label) :
    List Step → Except Defect Unit
  | [] => .ok ()
  | s :: rest =>
    match checkReads producers inputs step read s.inputs with
    | .error defect => .error defect
    | .ok read => checkSteps producers inputs (step + 1) read rest

/-- Checks the graph over so many inputs. -/
def check (g : Graph) (inputs : Nat) : Except Defect Unit :=
  match Producers.addSteps [] 0 g.steps with
  | .error defect => .error defect
  | .ok producers => checkSteps producers inputs 0 [] g.steps

end Montage.Graph
