import Montage.Path
import Montage.Timeline.Basic

/-!
# Units of rendering

A timeline with compositions is rendered unit by unit: each composition is a unit of its own, below
the unit whose timeline holds it.  In the unit's own timeline a composition keeps its settings and
nothing else, until the file of its unit is attached to it.

A child is named after its parent and the place of its node.  Its directory and its output lie in
the parent's directory.
-/

namespace Montage

/-- The name of a unit, its directory of intermediate files, and the file it makes. -/
structure Site where
  id : String
  cacheDir : String
  output : String
  deriving Repr, DecidableEq, Inhabited

/-- The name under which a composition's files are kept. -/
def Site.compositionName (scene node : Nat) : String :=
  "composition-" ++ toString scene ++ "-" ++ toString node

/-- The site of the composition at a node of a scene. -/
def Site.child (s : Site) (scene node : Nat) : Site :=
  { id := s.id ++ "." ++ toString scene ++ "." ++ toString node
    cacheDir := Path.join s.cacheDir (compositionName scene node)
    output := Path.join s.cacheDir (compositionName scene node ++ ".mp4") }

/-- What belongs to the composition at a node of a scene. -/
structure Child (υ : Type) where
  scene : Nat
  node : Nat
  unit : υ
  deriving Repr, Inhabited

/-- A timeline that is rendered on its own, and the units of its compositions. -/
structure RenderUnit where
  site : Site
  timeline : Timeline
  children : List (Child RenderUnit)
  deriving Repr, Inhabited

/-- The timeline nested in a node of this kind. -/
def NodeKind.nested? {τ : Type} : NodeKind τ → Option τ
  | .composition timeline _ => some timeline
  | _ => none

/-- What stands in for a composition whose unit is rendered on its own. -/
def Timeline.placeholder (settings : Settings) : Timeline := { settings }

/-- The nested timelines of the scenes, in order, with their places. -/
def compositions {τ : Type} (scenes : List (Scene τ)) : List (Child τ) :=
  scenes.zipIdx.flatMap fun (scene, s) =>
    scene.nodes.zipIdx.filterMap fun (node, n) => node.kind.nested?.map fun unit => ⟨s, n, unit⟩

namespace RenderUnit

/-- A timeline that is yet to be put at a site: its settings and the unit it becomes there. -/
abbrev Unplaced := Settings × (Site → RenderUnit)

/-- Makes a unit of a timeline whose compositions are unplaced units. -/
def assemble : Timeline.Algebra Unplaced := fun settings scenes audios =>
  (settings, fun site =>
    { site
      timeline :=
        { settings, scenes := scenes.map (Scene.map fun inner => Timeline.placeholder inner.1),
          audios }
      children := (compositions scenes).map fun c =>
        { c with unit := c.unit.2 (site.child c.scene c.node) } })

/-- The unit of a timeline at a site. -/
def build (site : Site) (t : Timeline) : RenderUnit := (t.fold assemble).2 site

theorem compositions_map {σ τ : Type} (f : σ → τ) (scenes : List (Scene σ)) :
    compositions (scenes.map (Scene.map f)) =
      (compositions scenes).map fun c => { c with unit := f c.unit } := by
  have hnested (k : NodeKind σ) : (k.map f).nested? = k.nested?.map f := by cases k <;> rfl
  simp only [compositions, List.zipIdx_map, List.flatMap_map, List.map_flatMap, Prod.map,
    Scene.map, List.filterMap_map, Function.comp_def, List.map_filterMap, Node.map, hnested,
    Option.map_map, id_eq]

theorem fold_assemble_fst (t : Timeline) : (t.fold assemble).1 = t.settings := by
  rw [Timeline.fold_eq]
  rfl

theorem build_eq (site : Site) (t : Timeline) :
    build site t =
      { site
        timeline :=
          { t with
            scenes := t.scenes.map (Scene.map fun inner => Timeline.placeholder inner.settings) }
        children := (compositions t.scenes).map fun c =>
          { c with unit := build (site.child c.scene c.node) c.unit } } := by
  have hmap (f : Timeline → Unplaced) (g : Unplaced → Timeline) (s : Scene Timeline) :
      (s.map f).map g = s.map fun inner => g (f inner) := by
    have hkind (k : NodeKind Timeline) : (k.map f).map g = k.map fun inner => g (f inner) := by
      cases k <;> rfl
    simp [Scene.map, Node.map, hkind, Function.comp_def]
  rw [build, Timeline.fold_eq]
  simp [assemble, compositions_map, Function.comp_def, hmap, fold_assemble_fst, build]

/-! ## Names -/

mutual
/-- The names of the unit and of all units below it, a unit before those below it. -/
def ids : RenderUnit → List String
  | ⟨site, _, children⟩ => site.id :: idsBelow children
/-- The names of the children and of all units below them. -/
def idsBelow : List (Child RenderUnit) → List String
  | [] => []
  | ⟨_, _, unit⟩ :: rest => ids unit ++ idsBelow rest
end

/-! ## Attaching outputs -/

/-- The kind with the file of its composition; other kinds have none. -/
def withOutput {τ : Type} (path : String) : NodeKind τ → NodeKind τ
  | .composition timeline _ => .composition timeline (some path)
  | kind => kind

/-- The timeline in which the composition at a node of a scene has its file.  Where there is no
composition nothing changes. -/
def attachTo (t : Timeline) (scene node : Nat) (path : String) : Timeline :=
  { t with scenes := t.scenes.modify scene fun s =>
      { s with nodes := s.nodes.modify node fun n => { n with kind := withOutput path n.kind } } }

/-- The unit in which the composition at a node of a scene has its file. -/
def attach (u : RenderUnit) (scene node : Nat) (path : String) : RenderUnit :=
  { u with timeline := attachTo u.timeline scene node path }

/-- The timeline in which the compositions of children have their files. -/
def attachAll (t : Timeline) (children : List (Child String)) : Timeline :=
  children.foldl (fun t c => attachTo t c.scene c.node c.unit) t

/-- The files that the children are to make. -/
def plannedOutputs (u : RenderUnit) : List (Child String) :=
  u.children.map fun c => { c with unit := c.unit.site.output }

/-- The unit in which each composition has the file that is planned for it. -/
def attachPlanned (u : RenderUnit) : RenderUnit :=
  { u with timeline := attachAll u.timeline u.plannedOutputs }

end RenderUnit

end Montage
