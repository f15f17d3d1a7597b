import Mathlib.Data.List.Induction
import Montage.Proofs.Plan.Layout
import Montage.Proofs.Render.Units
import Montage.Render.Planned

/-!
# The sites of units

A unit's site follows from the root's and from the address of its timeline (`Site.descend`).  Ids
are told apart by the numbers in them (`Site.id_descend_inj`), directories and outputs by the names
on the way to them from the root's directory (`Site.Leads`).  So the units of a tree do not get in
each other's way (`RenderUnit.build_wellPlaced`).
-/

namespace Montage

namespace FileName

theorem directory_injective : Function.Injective directory := by
  intro a b h
  simpa [directory, Prod.ext_iff] using h

theorem video_injective : Function.Injective video := by
  intro a b h
  simpa [video, Prod.ext_iff] using h

theorem directory_ne_video (a b : Slot) : directory a ≠ video b := by
  simp [directory, video]

end FileName

open FileName (directory video)

namespace Site

variable {s : Site} {path path' : String} {names names' : List FileName}

/-! ## Ids -/

theorem toList_id_descend (s : Site) (address : List Slot) :
    (s.descend address).id.toList =
      s.id.toList ++ Text.separated '.' (address.flatMap fun slot => [slot.1, slot.2]) := by
  induction address generalizing s with
  | nil => simp [descend, Text.separated]
  | cons slot rest ih =>
    have hchild := ih (s.child slot.1 slot.2)
    rw [descend] at hchild
    rw [descend, List.foldl_cons, hchild]
    simp [child, Text.separated]

example : ((⟨"job", "cache", "out.mp4"⟩ : Site).descend [(0, 1), (2, 0)]).id = "job.0.1.2.0" := by
  decide

theorem flatMap_slot_inj {a b : List Slot}
    (h : (a.flatMap fun slot => [slot.1, slot.2]) = b.flatMap fun slot => [slot.1, slot.2]) :
    a = b := by
  induction a generalizing b with
  | nil => cases b <;> simp_all
  | cons slot rest ih =>
    cases b with
    | nil => cases h
    | cons slot' rest' =>
      simp only [List.flatMap_cons, List.cons_append, List.nil_append, List.cons.injEq] at h
      rw [Prod.ext h.1 h.2.1, ih h.2.2]

theorem id_descend_inj {a b : List Slot} (h : (s.descend a).id = (s.descend b).id) : a = b := by
  have hnumbers := congrArg String.toList h
  rw [toList_id_descend, toList_id_descend, List.append_right_inj] at hnumbers
  exact flatMap_slot_inj (Text.separated_inj rfl hnumbers)

/-! ## Paths -/

/-- The path leads from the site's directory along names. -/
def Leads (s : Site) (path : String) (names : List FileName) : Prop :=
  Path.components path = Path.components s.cacheDir ++ names.map FileName.chars

theorem Leads.inj (h : s.Leads path names) (h' : s.Leads path' names')
    (e : Path.components path = Path.components path') : names = names' := by
  rw [h, h', List.append_right_inj] at e
  exact List.map_injective_iff.2 (fun _ _ => FileName.chars_inj) e

theorem Leads.inside (h : s.Leads path names) (hne : names ≠ []) :
    Path.Inside s.cacheDir path := by
  rw [Path.Inside, Path.Within, h]
  simpa using hne

theorem toList_compositionName (slot : Slot) :
    (compositionName slot.1 slot.2).toList = "composition".toList ++
      Text.separated '-' [slot.1, slot.2] := by
  change ("composition-" ++ toString slot.1 ++ "-" ++ toString slot.2).toList = _
  simp [Text.separated]

theorem toList_directoryName (slot : Slot) :
    (compositionName slot.1 slot.2).toList = (directory slot).chars := by
  rw [toList_compositionName]
  exact (List.append_nil _).symm

theorem toList_videoName (slot : Slot) :
    (compositionName slot.1 slot.2 ++ ".mp4").toList = (video slot).chars := by
  rw [String.toList_append, toList_compositionName]
  rfl

theorem components_cacheDir_child (s : Site) (slot : Slot) :
    Path.components (s.child slot.1 slot.2).cacheDir =
      Path.components s.cacheDir ++ [(directory slot).chars] := by
  rw [child, FileName.components_join (directory slot) s.cacheDir (toList_directoryName slot)]

theorem components_output_child (s : Site) (slot : Slot) :
    Path.components (s.child slot.1 slot.2).output =
      Path.components s.cacheDir ++ [(video slot).chars] := by
  rw [child, FileName.components_join (video slot) s.cacheDir (toList_videoName slot)]

theorem leads_cacheDir (s : Site) (address : List Slot) :
    s.Leads (s.descend address).cacheDir (address.map directory) := by
  induction address using List.reverseRecOn with
  | nil => simp [Leads, descend]
  | append_singleton rest slot ih =>
    rw [descend_concat, Leads, components_cacheDir_child, ih]
    simp

theorem leads_output (s : Site) (address : List Slot) (slot : Slot) :
    s.Leads (s.descend (address ++ [slot])).output (address.map directory ++ [video slot]) := by
  rw [descend_concat, Leads, components_output_child, leads_cacheDir]
  simp

theorem leads_kept {address : List Slot} (h : (s.descend address).layout.Keeps path) :
    ∃ x : FileName, x.word ∈ Layout.keptWords ∧ s.Leads path (address.map directory ++ [x]) := by
  obtain ⟨x, hword, hname⟩ := h.exists_hasName
  refine ⟨x, hword, ?_⟩
  have hdirectory := leads_cacheDir s address
  rw [Leads] at hdirectory
  rw [Layout.HasName, Layout.place] at hname
  rw [Leads, hname, layout, hdirectory]
  simp

/-! ## Different paths -/

/-- A way along directories alone does not end in another name. -/
theorem map_directory_ne_concat {x : FileName} (hx : ∀ slot, directory slot ≠ x)
    (a : List Slot) (names : List FileName) : a.map directory ≠ names ++ [x] := by
  intro e
  have hmem : x ∈ a.map directory := by rw [e]; simp
  obtain ⟨slot, -, hslot⟩ := List.mem_map.1 hmem
  exact hx slot hslot

theorem cacheDir_descend_inj {a b : List Slot}
    (h : Path.components (s.descend a).cacheDir = Path.components (s.descend b).cacheDir) : a = b :=
  List.map_injective_iff.2 FileName.directory_injective
    ((leads_cacheDir s a).inj (leads_cacheDir s b) h)

theorem output_descend_inj {a b : List Slot} {slot slot' : Slot}
    (h : Path.components (s.descend (a ++ [slot])).output =
      Path.components (s.descend (b ++ [slot'])).output) : a ++ [slot] = b ++ [slot'] := by
  have hnames := (leads_output s a slot).inj (leads_output s b slot') h
  obtain ⟨hdirectories, hvideos⟩ := List.append_inj' hnames rfl
  rw [List.map_injective_iff.2 FileName.directory_injective hdirectories,
    FileName.video_injective (List.cons.inj hvideos).1]

theorem cacheDir_ne_output (s : Site) (a b : List Slot) (slot : Slot) :
    Path.components (s.descend a).cacheDir ≠
      Path.components (s.descend (b ++ [slot])).output := by
  intro h
  exact map_directory_ne_concat (fun slot' => FileName.directory_ne_video slot' slot) _ _
    ((leads_cacheDir s a).inj (leads_output s b slot) h)

theorem cacheDir_ne_kept {a b : List Slot} (h : (s.descend b).layout.Keeps path) :
    Path.components (s.descend a).cacheDir ≠ Path.components path := by
  intro e
  obtain ⟨x, hword, hleads⟩ := leads_kept h
  have hx (slot : Slot) : directory slot ≠ x := by
    rintro rfl
    exact absurd hword (show "composition" ∉ Layout.keptWords by decide)
  exact map_directory_ne_concat hx _ _ ((leads_cacheDir s a).inj hleads e)

theorem output_ne_kept {a b : List Slot} {slot : Slot} (h : (s.descend b).layout.Keeps path) :
    Path.components (s.descend (a ++ [slot])).output ≠ Path.components path := by
  intro e
  obtain ⟨x, hword, hleads⟩ := leads_kept h
  have hnames := (leads_output s a slot).inj hleads e
  obtain rfl := (List.cons.inj (List.append_inj' hnames rfl).2).1
  exact absurd hword (show "composition" ∉ Layout.keptWords by decide)

/-- An output lies beside the directory of its unit. -/
theorem not_within_output (s : Site) (a : List Slot) (slot : Slot) :
    ¬ Path.Within (s.descend (a ++ [slot])).cacheDir (s.descend (a ++ [slot])).output := by
  intro h
  refine cacheDir_ne_output s (a ++ [slot]) a slot (h.eq_of_length ?_)
  rw [leads_cacheDir, leads_output]
  simp

theorem inside_child (s : Site) (slot : Slot) :
    Path.Inside s.cacheDir (s.child slot.1 slot.2).cacheDir ∧
      Path.Inside s.cacheDir (s.child slot.1 slot.2).output :=
  ⟨(leads_cacheDir s [slot]).inside (List.cons_ne_nil _ _),
    (leads_output s [] slot).inside (List.cons_ne_nil _ _)⟩

end Site

/-! ## Trees of units -/

namespace RenderUnit

/-- The units of a timeline's tree do not get in each other's way. -/
structure WellPlaced (t : Timeline) (u : RenderUnit) : Prop where
  units_eq : u.units.map some = t.addresses.map fun a => (t.at? a).map (build (u.site.descend a))
  ids_nodup : u.ids.Nodup
  inside_parent : ∀ v ∈ u.units, ∀ c ∈ v.children,
    Path.Inside v.site.cacheDir c.unit.site.cacheDir ∧ Path.Inside v.site.cacheDir c.unit.site.output
  inside_root : ∀ v ∈ unitsBelow u.children,
    Path.Inside u.site.cacheDir v.site.cacheDir ∧ Path.Inside u.site.cacheDir v.site.output
  output_outside : ∀ v ∈ unitsBelow u.children, ¬ Path.Within v.site.cacheDir v.site.output
  apart : (((unitsBelow u.children).flatMap fun v => [v.site.cacheDir, v.site.output]).map
    Path.components).Nodup
  apart_kept : ∀ v ∈ unitsBelow u.children, ∀ w ∈ u.units, ∀ path, w.site.layout.Keeps path →
    Path.components v.site.cacheDir ≠ Path.components path ∧
      Path.components v.site.output ≠ Path.components path

variable {site : Site} {t : Timeline} {v : RenderUnit}

theorem site_of_mem_units (h : v ∈ (build site t).units) : ∃ a, v.site = site.descend a := by
  obtain ⟨a, t', -, rfl⟩ := exists_of_mem_units h
  exact ⟨a, site_build ..⟩

/-- The addresses of the units below the root. -/
theorem sites_below (site : Site) (t : Timeline) :
    (unitsBelow (build site t).children).map (·.site) = t.addresses.tail.map site.descend := by
  have hsites := congrArg List.tail (sites_units site t)
  rwa [RenderUnit.units_eq, List.map_cons, List.tail_cons, ← List.map_tail] at hsites

theorem exists_concat_of_mem_tail {a : List Slot} (h : a ∈ t.addresses.tail) :
    ∃ b slot, a = b ++ [slot] := by
  have hnodup := t.nodup_addresses
  rw [Timeline.addresses_eq] at hnodup h
  have hne : a ≠ [] := by
    rintro rfl
    exact (List.nodup_cons.1 hnodup).1 h
  exact ⟨a.dropLast, a.getLast hne, (List.dropLast_append_getLast hne).symm⟩

theorem site_of_mem_below (h : v ∈ unitsBelow (build site t).children) :
    ∃ a slot, v.site = site.descend (a ++ [slot]) := by
  have hsite := List.mem_map_of_mem (f := fun v : RenderUnit => v.site) h
  rw [sites_below] at hsite
  obtain ⟨a, ha, hv⟩ := List.mem_map.1 hsite
  obtain ⟨b, slot, rfl⟩ := exists_concat_of_mem_tail ha
  exact ⟨b, slot, hv.symm⟩

theorem nodup_ids_build (site : Site) (t : Timeline) : (build site t).ids.Nodup := by
  have hids : (build site t).ids = t.addresses.map fun a => (site.descend a).id := by
    have hsites := congrArg (List.map Site.id) (sites_units site t)
    rw [List.map_map, List.map_map] at hsites
    rw [ids_eq]
    exact hsites
  rw [hids]
  exact t.nodup_addresses.map fun a b => Site.id_descend_inj

theorem nodup_components_below (site : Site) (t : Timeline) :
    (((unitsBelow (build site t).children).flatMap fun v => [v.site.cacheDir, v.site.output]).map
      Path.components).Nodup := by
  have hpaths : ((unitsBelow (build site t).children).flatMap fun v =>
      [v.site.cacheDir, v.site.output]) =
      t.addresses.tail.flatMap fun a => [(site.descend a).cacheDir, (site.descend a).output] := by
    rw [← List.flatMap_map (f := fun v : RenderUnit => v.site)
      (g := fun s : Site => [s.cacheDir, s.output]), sites_below, List.flatMap_map]
  rw [hpaths, List.map_flatMap, List.nodup_flatMap]
  constructor
  · intro a ha
    obtain ⟨a, slot, rfl⟩ := exists_concat_of_mem_tail ha
    simpa using Site.cacheDir_ne_output site (a ++ [slot]) a slot
  · refine t.nodup_addresses.tail.imp_of_mem ?_
    intro a b ha hb hne
    obtain ⟨a, slot, rfl⟩ := exists_concat_of_mem_tail ha
    obtain ⟨b, slot', rfl⟩ := exists_concat_of_mem_tail hb
    have hdirectories := mt (Site.cacheDir_descend_inj (s := site)) hne
    have houtputs := mt (Site.output_descend_inj (s := site)) hne
    have hleft := Site.cacheDir_ne_output site (a ++ [slot]) b slot'
    have hright := Site.cacheDir_ne_output site (b ++ [slot']) a slot
    simp [Function.onFun, List.disjoint_left, hdirectories, houtputs, hleft, hright.symm]

/-- The tree of a timeline has a unit for each composition at any depth, and all of them are well
placed. -/
theorem build_wellPlaced (site : Site) (t : Timeline) :
    t.addresses.Nodup ∧ (∀ a, a ∈ t.addresses ↔ (t.at? a).isSome) ∧
      WellPlaced t (build site t) := by
  refine ⟨t.nodup_addresses, fun a => Timeline.mem_addresses_iff, ?_⟩
  refine
    { units_eq := by rw [site_build, units_build]
      ids_nodup := nodup_ids_build site t
      inside_parent := fun v hv c hc => ?_
      inside_root := fun v hv => ?_
      output_outside := fun v hv => ?_
      apart := nodup_components_below site t
      apart_kept := fun v hv w hw path hkept => ?_ }
  · obtain ⟨a, t', -, rfl⟩ := exists_of_mem_units hv
    rw [children_build] at hc
    obtain ⟨d, -, rfl⟩ := List.mem_map.1 hc
    rw [site_build, site_build]
    exact Site.inside_child (site.descend a) d.slot
  · obtain ⟨a, slot, hsite⟩ := site_of_mem_below hv
    rw [hsite, site_build]
    exact ⟨(Site.leads_cacheDir site _).inside (by simp),
      (Site.leads_output site a slot).inside (by simp)⟩
  · obtain ⟨a, slot, hsite⟩ := site_of_mem_below hv
    rw [hsite]
    exact Site.not_within_output site a slot
  · obtain ⟨a, slot, hsite⟩ := site_of_mem_below hv
    obtain ⟨b, hb⟩ := site_of_mem_units hw
    rw [hb] at hkept
    rw [hsite]
    exact ⟨Site.cacheDir_ne_kept hkept, Site.output_ne_kept hkept⟩

end RenderUnit

end Montage
