import Montage.Proofs.Render.Contracts
import Montage.Proofs.Render.Sites

/-!
# The places of a unit

The region of a site is its directory with all that is in it, and its output.  The regions of the
compositions of a unit lie in the unit's directory, apart from each other
(`Site.disjoint_region_child`).  A unit promises to touch nothing outside its region and to leave
its output there (`Site.contract`).
-/

namespace Montage

open FileName (directory video)

namespace Layout

variable (l : Layout)

theorem ofPath_scenePath (i : Nat) :
    Place.ofPath (l.scenePath i) = (Place.ofPath l.cacheDir).file (.scene i) :=
  Place.ofPath_join_file l.cacheDir (toList_sceneName i)

theorem ofPath_subtitlePath (i : Nat) :
    Place.ofPath (l.subtitlePath i) = (Place.ofPath l.cacheDir).file (.subtitles i) :=
  Place.ofPath_join_file l.cacheDir (toList_subtitleName i)

theorem ofPath_manifestPath :
    Place.ofPath l.manifestPath = (Place.ofPath l.cacheDir).file .manifest :=
  Place.ofPath_join_file l.cacheDir toList_manifestName

/-- The files that a plan keeps lie in its directory. -/
theorem Keeps.isWithin {l : Layout} {path : String} (h : l.Keeps path) :
    (Place.ofPath path).isWithin (.ofPath l.cacheDir) = true := by
  cases h with
  | scene i =>
    rw [ofPath_scenePath]
    exact Place.child_isWithin _ _
  | subtitles i =>
    rw [ofPath_subtitlePath]
    exact Place.child_isWithin _ _
  | manifest =>
    rw [ofPath_manifestPath]
    exact Place.child_isWithin _ _

end Layout

namespace Site

variable {s : Site} {slot : Slot} {q : Place}

theorem ofPath_cacheDir_child (s : Site) (slot : Slot) :
    Place.ofPath (s.child slot.1 slot.2).cacheDir =
      (Place.ofPath s.cacheDir).file (directory slot) :=
  Place.ofPath_join_file s.cacheDir (toList_directoryName slot)

theorem ofPath_output_child (s : Site) (slot : Slot) :
    Place.ofPath (s.child slot.1 slot.2).output = (Place.ofPath s.cacheDir).file (video slot) :=
  Place.ofPath_join_file s.cacheDir (toList_videoName slot)

/-- The site's output does not lie in its directory. -/
def Outside (s : Site) : Prop := ¬ (Place.ofPath s.output).isWithin (.ofPath s.cacheDir) = true

instance (s : Site) : Decidable s.Outside := inferInstanceAs (Decidable (¬ _ = true))

theorem outside_child (s : Site) (slot : Slot) : (s.child slot.1 slot.2).Outside := by
  rw [Outside, ofPath_output_child, ofPath_cacheDir_child]
  intro hwithin
  exact FileName.directory_ne_video slot slot
    (Place.eq_of_isWithin_file hwithin (Place.isWithin_self _))

/-- The site's directory with all that is in it, and its output. -/
def region (s : Site) : Set Place :=
  {q | q.isWithin (.ofPath s.cacheDir) = true ∨ q = .ofPath s.output}

theorem output_mem_region (s : Site) : .ofPath s.output ∈ s.region := Or.inr rfl

theorem keeps_mem_region {path : String} (h : s.layout.Keeps path) : .ofPath path ∈ s.region :=
  Or.inl h.isWithin

/-- A place of a composition is at or below one of two names in the unit's directory. -/
theorem exists_name_of_mem_region (h : q ∈ (s.child slot.1 slot.2).region) :
    ∃ x, (x = directory slot ∨ x = video slot) ∧
      q.isWithin ((Place.ofPath s.cacheDir).file x) = true := by
  rcases h with h | h
  · rw [ofPath_cacheDir_child] at h
    exact ⟨_, Or.inl rfl, h⟩
  · rw [ofPath_output_child] at h
    exact ⟨_, Or.inr rfl, h ▸ Place.isWithin_self _⟩

theorem region_child_subset (s : Site) (slot : Slot) :
    (s.child slot.1 slot.2).region ⊆ {q | q.isWithin (.ofPath s.cacheDir) = true} := by
  intro q hq
  obtain ⟨x, -, hwithin⟩ := exists_name_of_mem_region hq
  exact Place.isWithin_of_child hwithin

theorem disjoint_region_child (s : Site) {slot slot' : Slot} (hne : slot ≠ slot') :
    Disjoint (s.child slot.1 slot.2).region (s.child slot'.1 slot'.2).region := by
  refine Set.disjoint_left.2 fun q hq hq' => hne ?_
  obtain ⟨x, hx, hwithin⟩ := exists_name_of_mem_region hq
  obtain ⟨x', hx', hwithin'⟩ := exists_name_of_mem_region hq'
  obtain rfl := Place.eq_of_isWithin_file hwithin hwithin'
  rcases hx with rfl | rfl <;> rcases hx' with hx' | hx'
  · exact FileName.directory_injective hx'
  · exact absurd hx' (FileName.directory_ne_video slot slot')
  · exact absurd hx'.symm (FileName.directory_ne_video slot' slot)
  · exact FileName.video_injective hx'

/-- A unit touches the places of its site only, and hands its output on. -/
def contract (s : Site) : Contract where
  region := s.region
  post path m := path = s.output ∧ .ofPath s.output ∈ m
  local_post hsame h := ⟨h.1, (hsame _ (output_mem_region s)).1 h.2⟩

end Site

namespace RenderUnit

/-- The contracts of the children of a unit. -/
def shares (children : List (Child RenderUnit)) : List Contract :=
  children.map fun c => c.unit.site.contract

variable {site : Site} {t : Timeline}

theorem region_of_mem_shares {d : Contract} (h : d ∈ shares (build site t).children) :
    d.region ⊆ {q | q.isWithin (.ofPath site.cacheDir) = true} := by
  obtain ⟨c, hc, rfl⟩ := List.mem_map.1 h
  rw [children_build] at hc
  obtain ⟨c, -, rfl⟩ := List.mem_map.1 hc
  rw [site_build]
  exact Site.region_child_subset site c.slot

/-- The children of a unit do not get in each other's way. -/
theorem pairwise_shares (site : Site) (t : Timeline) :
    (shares (build site t).children).Pairwise fun d d' => Disjoint d.region d'.region := by
  have hslots := List.pairwise_map.1 (nodup_slots t.scenes)
  rw [shares, children_build, List.map_map, List.pairwise_map]
  refine hslots.imp fun {c c'} hne => ?_
  simp only [Function.comp_apply, site_build]
  have hapart := site.disjoint_region_child hne
  exact hapart

/-- The children that have kept their contracts hand their outputs on. -/
theorem of_post_shares {children : List (Child RenderUnit)} {paths : List String} {m : Set Place}
    (h : List.Forall₂ (fun (d : Contract) path => d.post path m) (shares children) paths) :
    paths = children.map (·.unit.site.output) ∧
      ∀ c ∈ children, .ofPath c.unit.site.output ∈ m := by
  rw [shares, List.forall₂_map_left_iff] at h
  induction h with
  | nil => exact ⟨rfl, nofun⟩
  | cons hfirst _ ih =>
    obtain ⟨rfl, hrest⟩ := ih
    exact ⟨by rw [List.map_cons, hfirst.1], List.forall_mem_cons.2 ⟨hfirst.2, hrest⟩⟩

end RenderUnit

end Montage
