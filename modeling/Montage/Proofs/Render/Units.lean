import Montage.Proofs.Timeline.Nesting

/-!
# The units of a tree

`RenderUnit.units` lists a unit and all units below it.  In the tree that is built of a timeline
there is one for each address: the unit of the timeline that lies there, at the site that the root's
site and the address give (`units_build`).
-/

namespace Montage

/-- The site of the unit at an address. -/
def Site.descend (s : Site) (address : List Slot) : Site :=
  address.foldl (fun s slot => s.child slot.1 slot.2) s

theorem Site.descend_concat (s : Site) (address : List Slot) (slot : Slot) :
    s.descend (address ++ [slot]) = (s.descend address).child slot.1 slot.2 := by
  rw [descend, List.foldl_append]
  rfl

namespace RenderUnit

mutual
/-- The unit and all units below it, a unit before those below it. -/
def units : RenderUnit → List RenderUnit
  | ⟨site, timeline, children⟩ => ⟨site, timeline, children⟩ :: unitsBelow children
/-- The children and all units below them. -/
def unitsBelow : List (Child RenderUnit) → List RenderUnit
  | [] => []
  | ⟨_, _, unit⟩ :: rest => units unit ++ unitsBelow rest
end

theorem units_eq (u : RenderUnit) : u.units = u :: unitsBelow u.children := by
  cases u
  rw [units]

theorem unitsBelow_eq (children : List (Child RenderUnit)) :
    unitsBelow children = children.flatMap fun c => c.unit.units := by
  induction children with
  | nil => rw [unitsBelow, List.flatMap_nil]
  | cons c rest ih => rw [unitsBelow, ih, List.flatMap_cons]

mutual
theorem ids_eq : (u : RenderUnit) → u.ids = u.units.map (·.site.id)
  | ⟨site, timeline, children⟩ => by rw [ids, units, List.map_cons, idsBelow_eq children]
theorem idsBelow_eq : (children : List (Child RenderUnit)) →
    idsBelow children = (unitsBelow children).map (·.site.id)
  | [] => rfl
  | ⟨_, _, unit⟩ :: rest => by
    rw [idsBelow, unitsBelow, List.map_append, ids_eq unit, idsBelow_eq rest]
end

/-! ## Units of timelines -/

variable {site : Site} {t : Timeline}

@[simp] theorem site_build (site : Site) (t : Timeline) : (build site t).site = site := by
  rw [build_eq]

theorem children_build (site : Site) (t : Timeline) :
    (build site t).children = (compositions t.scenes).map fun c =>
      { c with unit := build (site.child c.scene c.node) c.unit } := by
  rw [build_eq]

/-- There is one unit for each address, made of the timeline that lies there. -/
theorem units_build (site : Site) (t : Timeline) :
    (build site t).units.map some =
      t.addresses.map fun a => (t.at? a).map (build (site.descend a)) := by
  -- The site is general because each child is built at a site of its own.
  induction t using Timeline.induction generalizing site with
  | step t ih =>
    rw [units_eq, unitsBelow_eq, children_build, Timeline.addresses_eq, List.map_cons,
      List.map_cons, List.map_flatMap, List.map_flatMap, List.flatMap_map]
    congr 1
    refine List.flatMap_congr fun c hc => ?_
    rw [ih c hc, List.map_map]
    refine List.map_congr_left fun a _ => ?_
    rw [Function.comp_apply, Timeline.at?_cons_of_mem hc]
    rfl

theorem exists_of_mem_units {u : RenderUnit} (h : u ∈ (build site t).units) :
    ∃ a t', t.at? a = some t' ∧ u = build (site.descend a) t' := by
  have hsome := List.mem_map_of_mem (f := some) h
  rw [units_build] at hsome
  obtain ⟨a, -, ha⟩ := List.mem_map.1 hsome
  obtain ⟨t', ht', rfl⟩ := Option.map_eq_some_iff.1 ha
  exact ⟨a, t', ht', rfl⟩

theorem sites_units (site : Site) (t : Timeline) :
    (build site t).units.map (·.site) = t.addresses.map site.descend := by
  refine List.map_injective_iff.2 (fun _ _ => Option.some.inj) ?_
  have hsites := congrArg (List.map (Option.map (·.site))) (units_build site t)
  rw [List.map_map, List.map_map] at hsites
  rw [List.map_map, List.map_map]
  refine hsites.trans (List.map_congr_left fun a ha => ?_)
  obtain ⟨t', ht'⟩ := Option.isSome_iff_exists.1 (Timeline.mem_addresses_iff.1 ha)
  rw [Function.comp_apply, ht', Option.map_some, Option.map_some, site_build]
  rfl

end RenderUnit

end Montage
