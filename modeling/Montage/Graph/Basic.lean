import Montage.Graph.Label

/-!
# Filter graphs

A graph is a list of steps; a step reads labels, applies a filter and names its outputs.  A graph
under construction owns the counter behind its labels, so a new label is a tag followed by a number
that no label before it has.

The builders hand back a `Context`, the one label that the next step is to read, together with the
grown graph.
-/

namespace Montage

namespace Graph

/-- One filter with what it reads and what it produces. -/
structure Step where
  inputs : List Label
  filter : String
  outputs : List Label
  deriving Repr, DecidableEq, Inhabited

/-- The step as text: its inputs, the filter, its outputs. -/
def Step.render (s : Step) : String :=
  String.join (s.inputs.map bracketed) ++ s.filter ++ String.join (s.outputs.map bracketed)

/-- The label that is to be read next. -/
structure Context where
  label : Label
  deriving Repr, DecidableEq, Inhabited

/-- The context that reads an input. -/
def Context.ofInput (index : Nat) (media : Media) : Context := ⟨inputLabel index media⟩

end Graph

/-- Steps in the order in which they were added, and the number of the next label. -/
structure Graph where
  steps : List Graph.Step := []
  nextId : Nat := 0
  deriving Repr, DecidableEq, Inhabited

namespace Graph

def empty : Graph := {}

/-- Adds a step as it is. -/
def push (g : Graph) (s : Step) : Graph := { g with steps := g.steps ++ [s] }

/-- A label that was not handed out before. -/
def fresh (g : Graph) (tag : String) : Label × Graph :=
  (tag ++ toString g.nextId, { g with nextId := g.nextId + 1 })

/-- A fresh label for each tag. -/
def freshAll (g : Graph) : List String → List Label × Graph
  | [] => ([], g)
  | tag :: tags =>
    let (label, g) := g.fresh tag
    let (labels, g) := g.freshAll tags
    (label :: labels, g)

/-- A step with several inputs and one output. -/
def combine (g : Graph) (inputs : List Context) (filter tag : String) : Context × Graph :=
  let (label, g) := g.fresh tag
  (⟨label⟩, g.push ⟨inputs.map (·.label), filter, [label]⟩)

/-- A step with one input and one output. -/
def apply (g : Graph) (ctx : Context) (filter tag : String) : Context × Graph :=
  g.combine [ctx] filter tag

/-- A step without inputs. -/
def source (g : Graph) (filter tag : String) : Context × Graph := g.combine [] filter tag

/-- A step with one output for each tag. -/
def combineAll (g : Graph) (inputs : List Context) (filter : String) (tags : List String) :
    List Context × Graph :=
  let (labels, g) := g.freshAll tags
  (labels.map Context.mk, g.push ⟨inputs.map (·.label), filter, labels⟩)

/-- One filter after another. -/
def applyAll (g : Graph) (ctx : Context) (filters : List String) (tag : String) : Context × Graph :=
  match filters with
  | [] => (ctx, g)
  | filter :: rest =>
    let (ctx, g) := g.apply ctx filter tag
    g.applyAll ctx rest tag

/-- The filter that copies a stream. -/
def splitFilter (n : Nat) : String := if n = 2 then "split" else "split=" ++ toString n

def split (g : Graph) (ctx : Context) (n : Nat) : List Context × Graph :=
  g.combineAll [ctx] (splitFilter n) (List.replicate n "split")

def splitTwo (g : Graph) (ctx : Context) : (Context × Context) × Graph :=
  let (first, g) := g.fresh "split"
  let (second, g) := g.fresh "split"
  ((⟨first⟩, ⟨second⟩), g.push ⟨[ctx.label], splitFilter 2, [first, second]⟩)

def render (g : Graph) : String := ";".intercalate (g.steps.map Step.render)

theorem split_two (g : Graph) (ctx : Context) :
    g.split ctx 2 = ([(g.splitTwo ctx).1.1, (g.splitTwo ctx).1.2], (g.splitTwo ctx).2) := rfl

end Graph

end Montage
