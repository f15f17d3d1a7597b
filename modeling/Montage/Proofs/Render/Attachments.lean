import Montage.Proofs.Plan.Closed
import Montage.Proofs.Render.Units
import Montage.Proofs.Timeline.Edits

/-!
# Units with the files of their children

Where each composition of a unit has the file that is planned for it, the unit's timeline is the one
that it was built of, node by node (`RenderUnit.attachPlanned_build`): all its compositions are
rendered, and nothing else has changed.
-/

namespace Montage

namespace RenderUnit

/-- The kind of a node at a slot once its composition has its file. -/
def plannedKind (site : Site) (slot : Slot) : NodeKind Timeline → NodeKind Timeline
  | .composition inner _ =>
    .composition (Timeline.placeholder inner.settings) (some (site.child slot.1 slot.2).output)
  | kind => kind

/-- The scene with the given number once all its compositions have their files. -/
def plannedScene (site : Site) (i : Nat) (s : Scene Timeline) : Scene Timeline :=
  { s with
    nodes := s.nodes.zipIdx.map fun (n, j) => { n with kind := plannedKind site (i, j) n.kind } }

/-- The timeline of a unit once all its compositions have their files. -/
def plannedTimeline (site : Site) (t : Timeline) : Timeline :=
  { t with scenes := t.scenes.zipIdx.map fun (s, i) => plannedScene site i s }

variable {site : Site} {t : Timeline}

theorem attachAll_eq (t : Timeline) (children : List (Child String)) :
    attachAll t children =
      { t with
        scenes := children.foldl (fun scenes c => editKind scenes c.slot (withOutput c.unit))
          t.scenes } := by
  rw [attachAll]
  induction children generalizing t with
  | nil =>
    cases t
    rfl
  | cons c rest ih =>
    rw [List.foldl_cons, ih, List.foldl_cons]
    rfl

theorem plannedOutputs_build (site : Site) (t : Timeline) :
    (build site t).plannedOutputs = (compositions t.scenes).map fun c =>
      { c with unit := (site.child c.scene c.node).output } := by
  rw [plannedOutputs, children_build, List.map_map]
  refine List.map_congr_left fun c _ => ?_
  rw [Function.comp_apply, site_build]

theorem editedKind_withOutput (site : Site) (slot : Slot) (n : Node Timeline) :
    editedKind (fun c : Child Timeline => withOutput (site.child c.scene c.node).output) slot n
        (n.map fun inner => Timeline.placeholder inner.settings).kind =
      plannedKind site slot n.kind := by
  change editedKind _ slot n (n.kind.map _) = _
  rcases hkind : n.kind <;>
    simp [editedKind, hkind, NodeKind.nested?, NodeKind.map, withOutput, plannedKind]

theorem attachPlanned_build (site : Site) (t : Timeline) :
    (build site t).attachPlanned = { build site t with timeline := plannedTimeline site t } := by
  have hscenes := foldl_editKind
    (fun c : Child Timeline => withOutput (site.child c.scene c.node).output)
    (fun inner => Timeline.placeholder inner.settings) t.scenes
  simp only [editedKind_withOutput] at hscenes
  rw [attachPlanned, attachAll_eq, plannedOutputs_build, List.foldl_map, plannedTimeline]
  have htimeline : (build site t).timeline = { t with
      scenes := t.scenes.map (Scene.map fun inner => Timeline.placeholder inner.settings) } := by
    rw [build_eq]
  rw [htimeline]
  exact congrArg (fun scenes => { build site t with timeline := { t with scenes } }) hscenes

/-! ## What is attached -/

theorem isRendered_plannedScene (site : Site) (i : Nat) (s : Scene Timeline) :
    (plannedScene site i s).IsRendered := by
  intro n hn timeline hkind
  obtain ⟨⟨m, j⟩, -, rfl⟩ := List.mem_map.1 hn
  change plannedKind site (i, j) m.kind = _ at hkind
  rcases hm : m.kind <;> rw [hm] at hkind <;> cases hkind

/-- The node of a composition has the file of the composition's unit. -/
theorem exists_node_of_mem_compositions (site : Site) {c : Child Timeline}
    (hc : c ∈ compositions t.scenes) :
    ∃ s, t.scenes[c.scene]? = some s ∧ ∃ n ∈ (plannedScene site c.scene s).nodes,
      ∃ inner, n.kind = .composition inner (some (site.child c.scene c.node).output) := by
  obtain ⟨s, hs, hnode⟩ := Option.bind_eq_some_iff.1 (mem_compositions_iff.1 hc)
  obtain ⟨n, hn, hnested⟩ := Option.bind_eq_some_iff.1 hnode
  refine ⟨s, hs, { n with kind := plannedKind site (c.scene, c.node) n.kind },
    List.mem_map.2 ⟨(n, c.node), List.mk_mem_zipIdx_iff_getElem?.2 hn, rfl⟩, ?_⟩
  rcases hkind : n.kind <;> rw [hkind] at hnested <;> cases hnested
  exact ⟨_, rfl⟩

end RenderUnit

end Montage
