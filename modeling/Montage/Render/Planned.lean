import Montage.Plan.Compile
import Montage.Render.Unit
import Montage.Timeline.Encode

/-!
# Plans of units

The plans of a unit and of all units below it, made without running anything: each composition
counts as rendered into the file that is planned for it.  The first error is that of the first unit
that does not compile, children in order before their parent.
-/

namespace Montage

/-- A unit's plan, with the settings it is run under, and the plans of the units below it. -/
structure PlannedUnit where
  id : String
  output : String
  settings : Settings
  plan : Plan
  children : List PlannedUnit
  deriving Repr, Inhabited

/-- Where a unit keeps its files. -/
def Site.layout (s : Site) : Layout := ⟨s.cacheDir, s.output⟩

namespace RenderUnit

mutual
/-- The plans of the unit and of all units below it. -/
def plan : RenderUnit → Except CompileError PlannedUnit
  | ⟨site, timeline, children⟩ =>
    match planAll children with
    | .error e => .error e
    | .ok planned =>
      match (attachPlanned ⟨site, timeline, children⟩).timeline.compile site.layout with
      | .error e => .error e
      | .ok (t, plan) => .ok ⟨site.id, site.output, t.settings, plan, planned⟩
/-- The plans of children, up to the first error. -/
def planAll : List (Child RenderUnit) → Except CompileError (List PlannedUnit)
  | [] => .ok []
  | ⟨_, _, unit⟩ :: rest =>
    match plan unit with
    | .error e => .error e
    | .ok planned =>
      match planAll rest with
      | .error e => .error e
      | .ok others => .ok (planned :: others)
end

end RenderUnit

/-! ## As JSON -/

open Json

/-- A program as it is shown: where it writes, its graph, its arguments. -/
def Program.shown (p : Program) (settings : Settings) : Json :=
  .obj [("output", .str p.output), ("graph", ofText? p.filterComplex),
    ("args", ofList .str (p.args settings))]

/-- A text file as it is shown. -/
def TextFile.toJson (f : TextFile) : Json :=
  .obj [("path", .str f.path), ("contents", .str f.contents)]

/-- The last step as it is shown; a file that is moved into place shows nothing. -/
def Finish.shown (settings : Settings) : Finish → Json
  | .program p => p.shown settings
  | .relocate .. => .null

mutual
/-- The plans as they are shown. -/
def PlannedUnit.toJson : PlannedUnit → Json
  | ⟨id, output, settings, plan, children⟩ =>
    .obj [("unit", .str id), ("output", .str output), ("strategy", .str plan.strategy.name),
      ("duration", ofFloat plan.duration), ("total_frames", .int plan.totalFrames),
      ("files", ofList TextFile.toJson plan.files),
      ("scenes", ofList (Program.shown · settings) plan.scenes),
      ("finish", plan.finish.shown settings), ("children", .arr (PlannedUnit.toJsonAll children))]
/-- The plans as they are shown. -/
def PlannedUnit.toJsonAll : List PlannedUnit → List Json
  | [] => []
  | unit :: rest => PlannedUnit.toJson unit :: PlannedUnit.toJsonAll rest
end

end Montage
