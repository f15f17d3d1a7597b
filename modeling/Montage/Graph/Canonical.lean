import Montage.Graph.Basic

/-!
# Canonical form

The steps of a graph as texts in which the labels are renumbered by their first appearance, so that
graphs that differ in their labels only have the same form.  Labels of inputs keep their names.
-/

namespace Montage.Graph

/-- The labels met so far, the first one first. -/
abbrev Met := List Label

/-- The new name of a label, and the labels met now. -/
def Met.rename (met : Met) (label : Label) : String × Met :=
  if isInput label then (bracketed label, met)
  else
    match met.findIdx? (· == label) with
    | some index => (bracketed ("l" ++ toString index), met)
    | none => (bracketed ("l" ++ toString met.length), met ++ [label])

def Met.renameAll (met : Met) : List Label → String × Met
  | [] => ("", met)
  | label :: rest =>
    let (name, met) := met.rename label
    let (names, met) := Met.renameAll met rest
    (name ++ names, met)

def Met.renameStep (met : Met) (s : Step) : String × Met :=
  let (inputs, met) := met.renameAll s.inputs
  let (outputs, met) := met.renameAll s.outputs
  (inputs ++ s.filter ++ outputs, met)

def Met.renameSteps (met : Met) : List Step → List String
  | [] => []
  | s :: rest =>
    let (text, met) := met.renameStep s
    text :: Met.renameSteps met rest

/-- The steps with their labels renumbered. -/
def canonical (g : Graph) : List String := Met.renameSteps [] g.steps

end Montage.Graph
