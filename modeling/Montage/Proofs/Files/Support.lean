import Montage.Proofs.Files.Changes

/-!
# Everything stands in directories

In a supported tree whatever stands at a place stands in directories all the way.  Every change
keeps a tree supported: nothing is put where no directory leads to, and a directory only goes with
all that is in it.  So where nothing stands at a place nothing stands below it, and a directory
whose removal succeeds leaves nothing behind (`FileTree.Supported.clear_removeDir`).
-/

namespace Montage.FileTree

variable {t t' : FileTree} {p q : Place} {e : Entry} {path contents : String}

/-- Each place above this one is a directory. -/
def Reaches (t : FileTree) (p : Place) : Prop :=
  ∀ q, p.isWithin q = true → q = p ∨ t.find? q = some .directory

/-- Everything stands in directories. -/
def Supported (t : FileTree) : Prop := ∀ x ∈ t.entries, t.Reaches x.1

theorem supported_empty : (⟨[]⟩ : FileTree).Supported := nofun

/-! ## Walking -/

theorem find?_of_names_nil (h : p.names = []) : t.find? p = some .directory := by simp [find?, h]

theorem reaches_of_names_nil (h : p.names = []) : t.Reaches p := by
  intro q hq
  obtain ⟨-, ⟨-, hnames⟩ | ⟨-, hnames⟩⟩ := Place.isWithin_iff.1 hq
  · rw [h, List.prefix_nil] at hnames
    exact Or.inr (find?_of_names_nil hnames)
  · exact Or.inr (find?_of_names_nil hnames)

theorem Reaches.child (h : t.Reaches p) (hp : t.find? p = some .directory) (name : String) :
    t.Reaches (p.child name) := by
  intro q hq
  rcases Place.isWithin_of_child_isWithin hq with rfl | hq
  · exact Or.inl rfl
  · rcases h q hq with rfl | hdir
    · exact Or.inr hp
    · exact Or.inr hdir

theorem Reaches.above (h : t.Reaches p) (hp : t.find? p = some .directory) :
    t.Reaches p.above := by
  intro q hq
  rcases h q (Place.isWithin_trans (Place.isWithin_above p) hq) with rfl | hdir
  · exact Or.inr hp
  · exact Or.inr hdir

theorem Reaches.walk {names : List String} (h : t.Reaches p) (hwalk : t.walk p names = .ok q) :
    t.Reaches q := by
  induction names generalizing p with
  | nil =>
    cases hwalk
    exact h
  | cons name rest ih =>
    rw [FileTree.walk] at hwalk
    split at hwalk
    · cases hwalk
    · cases hwalk
    · next hp =>
      split at hwalk
      · cases hwalk
      · split at hwalk
        · exact ih h hwalk
        · split at hwalk
          · exact ih (h.above hp) hwalk
          · exact ih (h.child hp name) hwalk

/-- Where a path can be followed to, directories lead. -/
theorem reaches_of_target (h : t.target path = .ok p) : t.Reaches p :=
  (reaches_of_names_nil rfl).walk (walk_of_target h)

/-! ## Changes -/

theorem Reaches.put (h : t.Reaches q) (hkind : t.find? p = some .directory → e = .directory) :
    (t.put p e).Reaches q := by
  intro r hr
  rcases h r hr with rfl | hdir
  · exact Or.inl rfl
  · refine Or.inr ?_
    by_cases hrp : r = p
    · subst hrp
      by_cases hnames : r.names = []
      · exact find?_of_names_nil hnames
      · rw [find?_put_self hnames, hkind hdir]
    · rwa [find?_put_of_ne hrp]

theorem Supported.put (h : t.Supported) (hp : t.Reaches p)
    (hkind : t.find? p = some .directory → e = .directory) : (t.put p e).Supported := by
  intro x hx
  rcases List.mem_append.1 hx with hx | hx
  · exact (h x (List.mem_filter.1 hx).1).put hkind
  · rw [List.mem_singleton.1 hx]
    exact hp.put hkind

/-- What is no directory supports nothing. -/
theorem Supported.erase (h : t.Supported) (hp : t.find? p ≠ some .directory) :
    (t.erase p).Supported := by
  intro x hx q hq
  rcases h x (List.mem_filter.1 hx).1 q hq with hself | hdir
  · exact Or.inl hself
  · have hqp : q ≠ p := by
      rintro rfl
      exact hp hdir
    exact Or.inr (by rwa [find?_erase_of_ne hqp])

theorem Supported.eraseBelow (h : t.Supported) (p : Place) : (t.eraseBelow p).Supported := by
  intro x hx q hq
  obtain ⟨hx, hbelow⟩ := List.mem_filter.1 hx
  rcases h x hx q hq with hself | hdir
  · exact Or.inl hself
  · by_cases hqp : q.isBelow p = true
    · -- A place that is kept lies below nothing that goes.
      have hwithin := Place.isWithin_iff_isBelow.1
        (Place.isWithin_trans hq (Place.isWithin_iff_isBelow.2 (Or.inl hqp)))
      rcases hwithin with hgone | hself
      · simp [hgone] at hbelow
      · have hpq := Place.isWithin_iff_isBelow.2 (Or.inl hqp)
        rw [hself] at hq
        exact Or.inl ((Place.isWithin_antisymm hpq hq).trans hself.symm)
    · exact Or.inr (by rwa [find?_eraseBelow (Bool.eq_false_iff.2 hqp)])

/-- A directory that was emptied supports nothing. -/
theorem Supported.erase_eraseBelow (h : t.Supported) (p : Place) :
    ((t.eraseBelow p).erase p).Supported := by
  intro x hx q hq
  obtain ⟨hx, hne⟩ := List.mem_filter.1 hx
  rcases h.eraseBelow p x hx q hq with hself | hdir
  · exact Or.inl hself
  · have hqp : q ≠ p := by
      rintro rfl
      obtain ⟨-, hbelow⟩ := List.mem_filter.1 hx
      rcases Place.isWithin_iff_isBelow.1 hq with hgone | hself
      · simp [hgone] at hbelow
      · simp [hself] at hne
    exact Or.inr (by rwa [find?_erase_of_ne hqp])

theorem Supported.makeDir (h : t.Supported) (hmake : t.makeDir path = .ok t') : t'.Supported := by
  rw [FileTree.makeDir] at hmake
  split at hmake
  · cases hmake
  · next p htarget =>
    split at hmake
    · cases hmake
    · cases hmake
      exact h.put (reaches_of_target htarget) fun _ => rfl

theorem Supported.makeDirs (h : t.Supported) (path : String) : (t.makeDirs path).2.Supported :=
  makeDirs_induction (fun h hmake => Supported.makeDir h hmake) h path

theorem Supported.write (h : t.Supported) (hwrite : t.write path contents = .ok t') :
    t'.Supported := by
  obtain ⟨htarget, hnotdir, rfl⟩ := of_write_eq_ok hwrite
  exact h.put (reaches_of_target htarget) fun hdir => absurd hdir hnotdir

theorem Supported.move {source target : String} (h : t.Supported)
    (hmove : t.move source target = .ok t') : t'.Supported := by
  obtain ⟨contents, hfile, ⟨-, rfl⟩ | ⟨hne, hwrite, rfl⟩⟩ := of_move_eq_ok hmove
  · exact h
  · refine (h.write hwrite).erase ?_
    rw [find?_put_of_ne hne, hfile]
    simp

theorem Supported.removeFile (h : t.Supported) (path : String) : (t.removeFile path).Supported := by
  rw [FileTree.removeFile]
  split
  · next hlook =>
    refine h.erase ?_
    rw [(eq_of_look hlook).2]
    simp
  · exact h

theorem Supported.removeDir (h : t.Supported) (path : String) : (t.removeDir path).Supported := by
  rcases t.removeDir_cases path with heq | heq | heq <;> rw [heq]
  · exact h
  · exact h.eraseBelow _
  · exact h.erase_eraseBelow _

/-! ## Removing -/

/-- Nothing stands at the place or below it. -/
def Clear (t : FileTree) (p : Place) : Prop := ∀ x ∈ t.entries, ¬ x.1.isWithin p = true

/-- Removing the directory succeeds: it can be reached by its name, also once it is empty, or there
is nothing at its place. -/
def removesDir (t : FileTree) (path : String) : Bool :=
  match t.look path with
  | .ok (p, .directory) => endsInName path && ((t.eraseBelow p).target path).isOk
  | .ok (_, .file _) => false
  | .error _ => (t.find? (.ofPath path)).isNone

/-- Removing the file succeeds: it can be reached, or there is nothing at its place. -/
def removesFile (t : FileTree) (path : String) : Bool :=
  match t.look path with
  | .ok (_, .file _) => true
  | .ok (_, .directory) => false
  | .error _ => (t.find? (.ofPath path)).isNone

theorem Clear.mono (h : t.Clear p) (hsub : t'.entries ⊆ t.entries) : t'.Clear p :=
  fun x hx => h x (hsub hx)

theorem Clear.of_isWithin (h : t.Clear p) (hq : q.isWithin p = true) : t.Clear q :=
  fun x hx hwithin => h x hx (Place.isWithin_trans hwithin hq)

/-- Nothing is below a place where nothing is. -/
theorem Supported.clear_of_find?_eq_none (h : t.Supported) (hnone : t.find? p = none) :
    t.Clear p := by
  intro x hx hwithin
  rcases h x hx p hwithin with rfl | hdir
  · have hnames := names_ne_of_find? (by rw [hnone]; exact nofun)
    rw [find?_of_names hnames, List.lookup_eq_none_iff] at hnone
    simpa using hnone x hx
  · rw [hnone] at hdir
    cases hdir

/-- A directory goes with all that is in it. -/
theorem Supported.clear_removeDir (h : t.Supported) (hremoves : t.removesDir path = true) :
    (t.removeDir path).Clear (.ofPath path) := by
  rw [removesDir] at hremoves
  rw [FileTree.removeDir]
  rcases hlook : t.look path with e | ⟨p, _ | contents⟩ <;> rw [hlook] at hremoves
  · exact h.clear_of_find?_eq_none (Option.isNone_iff_eq_none.1 hremoves)
  · obtain ⟨hname, hreached⟩ := Bool.and_eq_true_iff.1 hremoves
    rcases htarget : (t.eraseBelow p).target path with e | q <;> rw [htarget] at hreached
    · cases hreached
    · obtain ⟨rfl, -⟩ := eq_of_look hlook
      obtain rfl := eq_ofPath_of_target htarget
      simp only [hname, htarget, if_true]
      intro x hx hwithin
      obtain ⟨hx, hne⟩ := List.mem_filter.1 hx
      obtain ⟨-, hbelow⟩ := List.mem_filter.1 hx
      rcases Place.isWithin_iff_isBelow.1 hwithin with hgone | hself
      · simp [hgone] at hbelow
      · simp [hself] at hne
  · cases hremoves

theorem entries_removeFile_subset (t : FileTree) (path : String) :
    (t.removeFile path).entries ⊆ t.entries := by
  rw [removeFile]
  split
  · exact fun x hx => (List.mem_filter.1 hx).1
  · exact List.Subset.refl _

theorem not_hasFile_removeFile (hremoves : t.removesFile path = true) :
    ¬ (t.removeFile path).HasFile (.ofPath path) := by
  rw [removesFile] at hremoves
  rw [removeFile]
  rintro ⟨contents', hfind⟩
  rcases hlook : t.look path with e | ⟨p, _ | contents⟩ <;> rw [hlook] at hremoves hfind
  · rw [Option.isNone_iff_eq_none.1 hremoves] at hfind
    cases hfind
  · cases hremoves
  · obtain ⟨rfl, hfile⟩ := eq_of_look hlook
    have hnames := names_ne_of_find? (by rw [hfile]; simp)
    dsimp only at hfind
    rw [find?_of_names hnames, erase, lookup_filter (· != Place.ofPath path)] at hfind
    simp at hfind

end Montage.FileTree
