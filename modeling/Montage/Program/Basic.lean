import Montage.Error
import Montage.Graph.Validity
import Montage.Program.Input

/-!
# Programs

A program is one run of the media tool: its inputs in order, a graph over them, the labels that are
written out, and the file they are written to.
-/

namespace Montage

/-- One run of the media tool. -/
structure Program where
  inputs : List Input := []
  graph : Graph := {}
  /-- What is written as picture: a label of the graph, or a stream of an input. -/
  video : Option Graph.Label := none
  audio : Option Graph.Label := none
  duration : Float
  output : String
  deriving Repr, Inhabited

namespace Program

/-- The program that writes a file of a given length and does nothing yet. -/
def empty (output : String) (duration : Float) : Program := { output, duration }

/-- Appends an input; yields its number. -/
def addInput (p : Program) (input : Input) : Nat × Program :=
  (p.inputs.length, { p with inputs := p.inputs ++ [input] })

def applyAll (p : Program) (ctx : Graph.Context) (filters : List String) (tag : String) :
    Graph.Context × Program :=
  let (ctx, graph) := p.graph.applyAll ctx filters tag
  (ctx, { p with graph })

/-- Adds a step with several inputs and one output. -/
def combine (p : Program) (inputs : List Graph.Context) (filter tag : String) :
    Graph.Context × Program :=
  let (ctx, graph) := p.graph.combine inputs filter tag
  (ctx, { p with graph })

/-- The text of the graph, if there are steps. -/
def filterComplex (p : Program) : Option String :=
  if p.graph.steps.isEmpty then none else some p.graph.render

/-- Checks the graph over the program's inputs. -/
def validate (p : Program) : Except CompileError Unit :=
  match p.graph.check p.inputs.length with
  | .ok () => .ok ()
  | .error defect => .error (.invalidGraph defect)

end Program

end Montage
