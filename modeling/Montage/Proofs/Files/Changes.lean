import Montage.Proofs.Files.Places

/-!
# What changes to files keep

A file that stands at a place (`FileTree.HasFile`) stays there unless it is moved away or removed,
and a path that was written to has a file.
-/

namespace Montage.FileTree

variable {t t' : FileTree} {p q : Place} {e : Entry} {path contents : String}

/-! ## Single places -/

theorem lookup_filter {β : Type} (keeps : Place → Bool) (entries : List (Place × β)) (p : Place) :
    (entries.filter fun x => keeps x.1).lookup p =
      if keeps p then entries.lookup p else none := by
  induction entries with
  | nil => simp
  | cons x rest ih =>
    obtain ⟨q, b⟩ := x
    by_cases hp : p = q
    · subst hp
      by_cases hkeeps : keeps p = true
      · simp [hkeeps]
      · simp [hkeeps, ih]
    · have hne : (p == q) = false := beq_false_of_ne hp
      by_cases hkeeps : keeps q = true
      · simp [hkeeps, List.lookup_cons, hne, ih]
      · simp [hkeeps, List.lookup_cons, hne, ih]

theorem find?_of_names (h : p.names ≠ []) : t.find? p = t.entries.lookup p := by
  simp [find?, h]

theorem find?_erase_of_ne (h : q ≠ p) : (t.erase p).find? q = t.find? q := by
  rw [find?, find?, erase, lookup_filter (· != p), if_pos (bne_iff_ne.2 h)]

theorem find?_put_of_ne (h : q ≠ p) : (t.put p e).find? q = t.find? q := by
  have hkeeps : (q != p) = true := bne_iff_ne.2 h
  have hother : (q == p) = false := beq_false_of_ne h
  simp [find?, put, List.lookup_append, lookup_filter (· != p), hkeeps, List.lookup_cons, hother]

theorem find?_put_self (h : p.names ≠ []) : (t.put p e).find? p = some e := by
  simp [find?_of_names h, put, List.lookup_append, lookup_filter (· != p)]

theorem find?_eraseBelow (h : q.isBelow p = false) : (t.eraseBelow p).find? q = t.find? q := by
  rw [find?, find?, eraseBelow, lookup_filter (fun x => !x.isBelow p), h]
  rfl

/-- Only a directory can stand where no name leads. -/
theorem names_ne_of_find? (h : t.find? p ≠ some .directory) : p.names ≠ [] := by
  intro hnames
  exact h (by simp [find?, hnames])

/-! ## Files -/

/-- A file stands at the place. -/
def HasFile (t : FileTree) (p : Place) : Prop := ∃ contents, t.find? p = some (.file contents)

theorem HasFile.names_ne (h : t.HasFile p) : p.names ≠ [] := by
  obtain ⟨contents, hfind⟩ := h
  exact names_ne_of_find? (by rw [hfind]; exact nofun)

theorem HasFile.congr (h : t.HasFile q) (heq : t'.find? q = t.find? q) : t'.HasFile q := by
  rwa [HasFile, heq]

theorem HasFile.put_file (h : t.HasFile q) (p : Place) (contents : String) :
    (t.put p (.file contents)).HasFile q := by
  by_cases heq : q = p
  · subst heq
    exact ⟨contents, find?_put_self h.names_ne⟩
  · exact h.congr (find?_put_of_ne heq)

theorem eq_of_look (h : t.look path = .ok (p, e)) : p = .ofPath path ∧ t.find? p = some e := by
  rw [look] at h
  split at h
  · cases h
  · next q htarget =>
    have hq := eq_ofPath_of_target htarget
    split at h
    · cases h
    · next hfind =>
      split at h
      · cases h
      · cases h
        exact ⟨hq, hfind⟩
    · next hfind =>
      cases h
      exact ⟨hq, hfind⟩

/-- What writing does when it succeeds. -/
theorem of_write_eq_ok (h : t.write path contents = .ok t') :
    t.target path = .ok (.ofPath path) ∧ t.find? (.ofPath path) ≠ some .directory ∧
      t' = t.put (.ofPath path) (.file contents) := by
  rw [write] at h
  split at h
  · split at h <;> cases h
  · split at h
    · cases h
    · next q htarget =>
      obtain rfl := eq_ofPath_of_target htarget
      split at h
      · cases h
      · next hfind =>
        cases h
        exact ⟨htarget, fun hdir => hfind hdir, rfl⟩

/-- What moving does when it succeeds. -/
theorem of_move_eq_ok {source target : String} (h : t.move source target = .ok t') :
    ∃ contents, t.find? (.ofPath source) = some (.file contents) ∧
      (Place.ofPath source = .ofPath target ∧ t' = t ∨
        Place.ofPath source ≠ .ofPath target ∧
          t.write target contents = .ok (t.put (.ofPath target) (.file contents)) ∧
          t' = (t.put (.ofPath target) (.file contents)).erase (.ofPath source)) := by
  rw [move] at h
  split at h
  · cases h
  · cases h
  · next q contents hlook =>
    obtain ⟨rfl, hfind⟩ := eq_of_look hlook
    split at h
    · cases h
    · next written hwrite =>
      obtain ⟨-, -, rfl⟩ := of_write_eq_ok hwrite
      split at h
      · cases h
      · next q htarget =>
        obtain rfl := eq_ofPath_of_target htarget
        refine ⟨contents, hfind, ?_⟩
        split at h
        · next hsame =>
          cases h
          exact Or.inl ⟨hsame, rfl⟩
        · next hne =>
          cases h
          exact Or.inr ⟨hne, hwrite, rfl⟩

theorem hasFile_of_write (h : t.write path contents = .ok t') : t'.HasFile (.ofPath path) := by
  obtain ⟨-, hnotdir, rfl⟩ := of_write_eq_ok h
  exact ⟨contents, find?_put_self (names_ne_of_find? hnotdir)⟩

theorem HasFile.write (hq : t.HasFile q) (h : t.write path contents = .ok t') : t'.HasFile q := by
  obtain ⟨-, -, rfl⟩ := of_write_eq_ok h
  exact hq.put_file _ _

theorem hasFile_of_move {source target : String} (h : t.move source target = .ok t') :
    t'.HasFile (.ofPath target) := by
  obtain ⟨contents, hfind, ⟨hsame, rfl⟩ | ⟨hne, hwrite, rfl⟩⟩ := of_move_eq_ok h
  · exact ⟨contents, hsame ▸ hfind⟩
  · exact (hasFile_of_write hwrite).congr (find?_erase_of_ne (Ne.symm hne))

theorem HasFile.move {source target : String} (hq : t.HasFile q) (hne : q ≠ .ofPath source)
    (h : t.move source target = .ok t') : t'.HasFile q := by
  obtain ⟨contents, hfind, ⟨-, rfl⟩ | ⟨-, -, rfl⟩⟩ := of_move_eq_ok h
  · exact hq
  · exact (hq.put_file _ _).congr (find?_erase_of_ne hne)

/-- A directory is only made where nothing stands. -/
theorem HasFile.makeDir (hq : t.HasFile q) (h : t.makeDir path = .ok t') : t'.HasFile q := by
  rw [FileTree.makeDir] at h
  split at h
  · cases h
  · next p htarget =>
    split at h
    · cases h
    · next hnone =>
      cases h
      refine hq.congr (find?_put_of_ne ?_)
      rintro rfl
      obtain ⟨contents, hfind⟩ := hq
      exact hnone (by rw [hfind]; rfl)

/-- What is kept when a directory is made is kept when those above it are made as well. -/
theorem makeDirs_induction {P : FileTree → Prop}
    (hmake : ∀ {t t' : FileTree} {path : String}, P t → t.makeDir path = .ok t' → P t')
    (h : P t) (path : String) : P (t.makeDirs path).2 := by
  fun_induction t.makeDirs path with
  | case1 => exact h
  | case2 path _ made hmade => exact hmake h hmade
  | case3 => exact h
  | case4 path _ _ parent hparent hlt e made hmade ih =>
    rw [hmade] at ih
    exact ih
  | case5 path _ _ parent hparent hlt made hmade made' hmade' ih =>
    rw [hmade] at ih
    exact hmake ih hmade'
  | case6 path _ _ parent hparent hlt made hmade e he ih =>
    rw [hmade] at ih
    exact ih
  | case7 => exact h

theorem HasFile.makeDirs (hq : t.HasFile q) (path : String) : (t.makeDirs path).2.HasFile q :=
  makeDirs_induction (fun hq hmake => HasFile.makeDir hq hmake) hq path

/-- Removing a directory takes nothing, or what lies below it, or the directory as well. -/
theorem removeDir_cases (t : FileTree) (path : String) :
    t.removeDir path = t ∨ t.removeDir path = t.eraseBelow (.ofPath path) ∨
      t.removeDir path = (t.eraseBelow (.ofPath path)).erase (.ofPath path) := by
  rw [FileTree.removeDir]
  split
  · next p hlook =>
    obtain ⟨rfl, -⟩ := eq_of_look hlook
    dsimp only
    split
    · split
      · next htarget =>
        obtain rfl := eq_ofPath_of_target htarget
        exact Or.inr (Or.inr rfl)
      · exact Or.inr (Or.inl rfl)
    · exact Or.inr (Or.inl rfl)
  · exact Or.inl rfl

/-- Only what lies in a directory goes with it. -/
theorem HasFile.removeDir (hq : t.HasFile q) (hout : ¬ q.isWithin (.ofPath path) = true) :
    (t.removeDir path).HasFile q := by
  rw [Place.isWithin_iff_isBelow, not_or] at hout
  have hemptied : (t.eraseBelow (.ofPath path)).HasFile q :=
    hq.congr (find?_eraseBelow (Bool.eq_false_iff.2 hout.1))
  rcases t.removeDir_cases path with heq | heq | heq <;> rw [heq]
  · exact hq
  · exact hemptied
  · exact hemptied.congr (find?_erase_of_ne hout.2)

theorem HasFile.removeFile (hq : t.HasFile q) (hne : q ≠ .ofPath path) :
    (t.removeFile path).HasFile q := by
  rw [FileTree.removeFile]
  split
  · next hlook =>
    obtain ⟨rfl, -⟩ := eq_of_look hlook
    exact hq.congr (find?_erase_of_ne hne)
  · exact hq

end Montage.FileTree
