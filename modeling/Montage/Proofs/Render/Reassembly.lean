import Montage.Proofs.Render.Units
import Montage.Proofs.Timeline.Edits

/-!
# Putting a timeline together again

A unit's own timeline has placeholders where its children belong (`RenderUnit.Detached`).
`RenderUnit.reassemble` puts the children's timelines back, which undoes `RenderUnit.build`
(`RenderUnit.build_reassemble`).
-/

namespace Montage

/-- The kind with another timeline in its composition; other kinds have none. -/
def withTimeline {τ : Type} (timeline : τ) : NodeKind τ → NodeKind τ
  | .composition _ output => .composition timeline output
  | kind => kind

namespace RenderUnit

/-! ## Reassembling -/

/-- The timeline in which the composition at a child's slot holds the child's timeline. -/
def putBack (t : Timeline) (c : Child Timeline) : Timeline :=
  { t with scenes := editKind t.scenes c.slot (withTimeline c.unit) }

mutual
/-- The unit's timeline with the timelines of all units below it put back. -/
def reassemble : RenderUnit → Timeline
  | ⟨_, timeline, children⟩ => (reassembleAll children).foldl putBack timeline
/-- The children as timelines. -/
def reassembleAll : List (Child RenderUnit) → List (Child Timeline)
  | [] => []
  | ⟨scene, node, unit⟩ :: rest => ⟨scene, node, reassemble unit⟩ :: reassembleAll rest
end

theorem reassembleAll_eq (children : List (Child RenderUnit)) :
    reassembleAll children = children.map fun c => { c with unit := c.unit.reassemble } := by
  induction children with
  | nil => rw [reassembleAll, List.map_nil]
  | cons c rest ih => rw [reassembleAll, ih, List.map_cons]

theorem reassemble_eq (u : RenderUnit) :
    u.reassemble = (u.children.map fun c => { c with unit := c.unit.reassemble }).foldl
      putBack u.timeline := by
  cases u
  rw [reassemble, reassembleAll_eq]

theorem foldl_putBack (t : Timeline) (children : List (Child Timeline)) :
    children.foldl putBack t =
      { t with
        scenes := children.foldl (fun scenes c => editKind scenes c.slot (withTimeline c.unit))
          t.scenes } := by
  induction children generalizing t with
  | nil =>
    cases t
    rfl
  | cons c rest ih => rw [List.foldl_cons, ih, List.foldl_cons, putBack]

/-- A composition that was taken out is put back as it was, and no other node is changed. -/
theorem editedKind_withTimeline (f : Timeline → Timeline) (slot : Slot) (n : Node Timeline) :
    editedKind (fun c : Child Timeline => withTimeline c.unit) slot n (n.map f).kind = n.kind := by
  change editedKind _ slot n (n.kind.map f) = n.kind
  rcases hkind : n.kind <;> simp [editedKind, hkind, NodeKind.nested?, NodeKind.map, withTimeline]

theorem foldl_putBack_compositions (t : Timeline) (f : Timeline → Timeline) :
    (compositions t.scenes).foldl putBack { t with scenes := t.scenes.map (Scene.map f) } = t := by
  have hnodes (i : Nat) (nodes : List (Node Timeline)) :
      (nodes.zipIdx.map fun (n, j) => { n.map f with
        kind := editedKind (fun c : Child Timeline => withTimeline c.unit) (i, j) n
          (n.map f).kind }) = nodes := by
    simp only [editedKind_withTimeline]
    exact List.zipIdx_map_fst 0 nodes
  rw [foldl_putBack, foldl_editKind]
  simp only [hnodes]
  cases t
  exact congrArg (fun scenes => Timeline.mk _ scenes _) (List.zipIdx_map_fst 0 _)

/-- The children of a unit are the timelines nested in its own one. -/
theorem children_reassemble (site : Site) (t : Timeline)
    (h : ∀ c ∈ compositions t.scenes, ∀ site, (build site c.unit).reassemble = c.unit) :
    ((build site t).children.map fun c => { c with unit := c.unit.reassemble }) =
      compositions t.scenes := by
  rw [children_build, List.map_map]
  refine (List.map_congr_left fun c hc => ?_).trans (List.map_id _)
  rw [Function.comp_apply, h c hc]
  rfl

theorem reassemble_build (site : Site) (t : Timeline) : (build site t).reassemble = t := by
  induction t using Timeline.induction generalizing site with
  | step t ih =>
    rw [reassemble_eq, children_reassemble site t ih, build_eq]
    exact foldl_putBack_compositions t _

/-! ## Detached units -/

/-- The unit's own timeline is the whole one with placeholders in its compositions, and the children
are what these stand for, in the order of the document. -/
structure Detached (u : RenderUnit) : Prop where
  settings_eq : u.timeline.settings = u.reassemble.settings
  audios_eq : u.timeline.audios = u.reassemble.audios
  scenes_eq : u.timeline.scenes = u.reassemble.scenes.map
    (Scene.map fun inner => { settings := inner.settings, scenes := [], audios := [] })
  nested : ∀ c ∈ u.children, nestedAt? u.reassemble.scenes c.slot = some c.unit.reassemble
  complete : ∀ slot inner, nestedAt? u.reassemble.scenes slot = some inner →
    ∃ c ∈ u.children, c.slot = slot
  ordered : u.children.Pairwise fun c d => c.slot.Before d.slot

theorem detached_build (site : Site) (t : Timeline) : (build site t).Detached := by
  have hchildren := children_reassemble site t fun c _ site => reassemble_build site c.unit
  have hslots : (build site t).children.map Child.slot =
      (compositions t.scenes).map Child.slot := by
    rw [← hchildren, List.map_map]
    rfl
  refine
    { settings_eq := by rw [reassemble_build, build_eq]
      audios_eq := by rw [reassemble_build, build_eq]
      scenes_eq := by rw [reassemble_build, build_eq]; rfl
      nested := fun c hc => ?_
      complete := fun slot inner hinner => ?_
      ordered := ?_ }
  · have hmem := List.mem_map_of_mem (f := fun c => { c with unit := c.unit.reassemble }) hc
    rw [hchildren] at hmem
    rw [reassemble_build]
    exact mem_compositions_iff.1 hmem
  · rw [reassemble_build] at hinner
    have hmem : (⟨slot.1, slot.2, inner⟩ : Child Timeline) ∈ compositions t.scenes :=
      mem_compositions_iff.2 hinner
    rw [← hchildren] at hmem
    obtain ⟨c, hc, e⟩ := List.mem_map.1 hmem
    exact ⟨c, hc, congrArg Child.slot e⟩
  · have hordered := List.pairwise_map.2 (pairwise_compositions t.scenes)
    rw [← hslots] at hordered
    exact List.pairwise_map.1 hordered

/-- Building the units of a timeline loses and doubles nothing: each timeline in it is found again
at its address, below a unit from which just the compositions were taken out. -/
theorem build_reassemble (site : Site) (t : Timeline) :
    (build site t).reassemble = t ∧
      ((build site t).units.map fun u => some u.reassemble) = t.addresses.map t.at? ∧
      ∀ u ∈ (build site t).units, u.Detached := by
  refine ⟨reassemble_build site t, ?_, fun u hu => ?_⟩
  · have hunits := congrArg (List.map (Option.map reassemble)) (units_build site t)
    simpa [Function.comp_def, Option.map_map, reassemble_build] using hunits
  · obtain ⟨a, t', -, rfl⟩ := exists_of_mem_units hu
    exact detached_build (site.descend a) t'

end RenderUnit

end Montage
