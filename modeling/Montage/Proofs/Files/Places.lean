import Montage.Files.Tree
import Montage.Proofs.Path.Names

/-!
# The places of paths

Where a path leads can be told from the path alone (`Place.ofPath`): a tree decides only whether one
gets there (`FileTree.eq_ofPath_of_target`).  A plain name that is joined to a path leads one level
down (`Place.ofPath_join`), and what lies at or below two places one level down lies apart.
-/

namespace Montage

namespace Place

/-- The place that a name in a path leads to. -/
def go (p : Place) (name : String) : Place :=
  if name = "." then p else if name = ".." then p.above else p.child name

/-- The place that a path names. -/
def ofPath (path : String) : Place :=
  (FileTree.steps path).foldl go ⟨path.toList.head? == some '/', 0, []⟩

-- A name can be taken back, also at the start of a path.
example : ofPath "../a/./b/../c" = ⟨false, 1, ["a", "c"]⟩ := by decide

end Place

namespace FileTree

variable {t : FileTree} {p q : Place} {path : String}

theorem eq_of_walk {names : List String} (h : t.walk p names = .ok q) :
    q = names.foldl Place.go p := by
  induction names generalizing p with
  | nil => exact (Except.ok.inj h).symm
  | cons name rest ih =>
    rw [walk] at h
    split at h
    · cases h
    · cases h
    · rw [List.foldl_cons, Place.go]
      split at h
      · cases h
      · split at h
        · next hdot => rw [if_pos hdot, ih h]
        · next hdot =>
          rw [if_neg hdot]
          split at h
          · next hup => rw [if_pos hup, ih h]
          · next hup => rw [if_neg hup, ih h]

theorem walk_of_target (h : t.target path = .ok p) :
    t.walk ⟨path.toList.head? == some '/', 0, []⟩ (steps path) = .ok p := by
  rw [target, walkPath] at h
  split at h
  · cases h
  · split at h
    · cases h
    · split at h
      · cases h
      · exact h

theorem eq_ofPath_of_target (h : t.target path = .ok p) : p = .ofPath path :=
  eq_of_walk (walk_of_target h)

/-! ## Steps -/

/-- The names between slashes. -/
def pieces (cs : List Char) : List (List Char) :=
  (Text.splitWhere (· == '/') cs).filter (!·.isEmpty)

theorem steps_eq (path : String) : steps path = (pieces path.toList).map String.ofList := rfl

theorem pieces_append_slash (before after : List Char) :
    pieces (before ++ '/' :: after) = pieces before ++ pieces after := by
  simp only [pieces, Text.splitWhere_eq_splitOnP]
  rw [List.splitOnP_append_cons _ _ (by rfl), List.filter_append]

theorem pieces_of_isName {name : List Char} (h : Path.IsName name) : pieces name = [name] := by
  have hsplit : Text.splitWhere (· == '/') name = [name] := by
    rw [Text.splitWhere_eq_splitOnP]
    exact List.splitOnP_eq_singleton fun c hc => beq_false_of_ne fun e => h.no_slash (e ▸ hc)
  rw [pieces, hsplit]
  simp [h.ne_nil]

end FileTree

namespace Place

variable {p q : Place} {a b : String}

theorem ofPath_of_steps {path base name : String} (hhead : path.toList.head? = base.toList.head?)
    (hsteps : FileTree.steps path = FileTree.steps base ++ [name]) :
    ofPath path = (ofPath base).go name := by
  rw [ofPath, hsteps, hhead, List.foldl_append]
  rfl

/-- A name that is joined to a path leads one level down. -/
theorem ofPath_join (base : String) {name : String} (h : Path.IsName name.toList)
    (hup : name ≠ "..") : ofPath (Path.join base name) = (ofPath base).child name := by
  have hdot : name ≠ "." := fun e => h.ne_dot (by rw [e]; rfl)
  have hgo (p : Place) : p.go name = p.child name := by rw [go, if_neg hdot, if_neg hup]
  have hpieces : FileTree.pieces name.toList = [name.toList] := FileTree.pieces_of_isName h
  have hhead : ¬ name.toList.head? = some '/' := fun e => h.no_slash (List.mem_of_mem_head? e)
  rw [Path.join, if_neg hhead, ← hgo]
  by_cases hempty : base.isEmpty = true
  · obtain rfl := String.isEmpty_iff.1 hempty
    have hrelative : (name.toList.head? == some '/') = false := by simpa using hhead
    rw [if_pos hempty, ofPath, FileTree.steps_eq, hpieces, hrelative]
    simp [ofPath, FileTree.steps, Text.splitWhere]
  have hne : base.toList ≠ [] := by simpa using hempty
  have hstart (tail : String) : (base ++ tail).toList.head? = base.toList.head? := by
    obtain ⟨c, rest, hbase⟩ := List.exists_cons_of_ne_nil hne
    rw [String.toList_append, hbase]
    rfl
  rw [if_neg hempty]
  split
  · next hlast =>
    -- The slash at the end of the base only separates.
    obtain ⟨init, hinit⟩ := List.getLast?_eq_some_iff.1 hlast
    refine ofPath_of_steps (hstart name) ?_
    have hbase : FileTree.pieces base.toList = FileTree.pieces init := by
      rw [hinit, FileTree.pieces_append_slash]
      exact List.append_nil _
    rw [FileTree.steps_eq, FileTree.steps_eq, hbase, String.toList_append, hinit,
      List.append_assoc, List.singleton_append, FileTree.pieces_append_slash, hpieces]
    simp
  · rw [String.append_assoc]
    refine ofPath_of_steps (hstart _) ?_
    rw [FileTree.steps_eq, FileTree.steps_eq, String.toList_append, String.toList_append,
      show "/".toList = ['/'] from rfl, List.singleton_append, FileTree.pieces_append_slash,
      hpieces]
    simp

/-! ## Places within others -/

theorem isWithin_iff : p.isWithin q = true ↔
    p.rooted = q.rooted ∧ (p.up = q.up ∧ q.names <+: p.names ∨ p.up < q.up ∧ q.names = []) := by
  simp [isWithin]

theorem isWithin_self (p : Place) : p.isWithin p = true :=
  isWithin_iff.2 ⟨rfl, Or.inl ⟨rfl, List.prefix_rfl⟩⟩

theorem isWithin_trans {r : Place} (h : p.isWithin q = true) (h' : q.isWithin r = true) :
    p.isWithin r = true := by
  obtain ⟨hrooted, hpq⟩ := isWithin_iff.1 h
  obtain ⟨hrooted', hqr⟩ := isWithin_iff.1 h'
  refine isWithin_iff.2 ⟨hrooted.trans hrooted', ?_⟩
  rcases hpq with ⟨hup, hnames⟩ | ⟨hup, hnames⟩ <;>
    rcases hqr with ⟨hup', hnames'⟩ | ⟨hup', hnames'⟩
  · exact Or.inl ⟨hup.trans hup', hnames'.trans hnames⟩
  · exact Or.inr ⟨by omega, hnames'⟩
  · rw [hnames, List.prefix_nil] at hnames'
    exact Or.inr ⟨by omega, hnames'⟩
  · exact Or.inr ⟨by omega, hnames'⟩

theorem isWithin_antisymm (h : p.isWithin q = true) (h' : q.isWithin p = true) : p = q := by
  obtain ⟨hrooted, hpq⟩ := isWithin_iff.1 h
  obtain ⟨-, hqp⟩ := isWithin_iff.1 h'
  rcases hpq with ⟨hup, hnames⟩ | ⟨hup, -⟩ <;> rcases hqp with ⟨hup', hnames'⟩ | ⟨hup', -⟩
  · have hsame := hnames'.eq_of_length_le hnames.length_le
    cases p
    cases q
    simp_all
  all_goals omega

theorem isWithin_above (p : Place) : p.isWithin p.above = true := by
  rw [above]
  split
  · next h =>
    have hnames : p.names = [] := by simp_all
    exact isWithin_iff.2 ⟨rfl, Or.inr ⟨Nat.lt_succ_self _, hnames⟩⟩
  · exact isWithin_iff.2 ⟨rfl, Or.inl ⟨rfl, List.dropLast_prefix _⟩⟩

theorem isWithin_child_iff : q.isWithin (p.child a) = true ↔
    q.rooted = p.rooted ∧ q.up = p.up ∧ p.names ++ [a] <+: q.names := by
  rw [isWithin_iff]
  simp [child]

theorem isWithin_of_child (h : q.isWithin (p.child a) = true) : q.isWithin p = true := by
  obtain ⟨hrooted, hup, hnames⟩ := isWithin_child_iff.1 h
  exact isWithin_iff.2 ⟨hrooted, Or.inl ⟨hup, (List.prefix_append _ _).trans hnames⟩⟩

theorem child_isWithin (p : Place) (a : String) : (p.child a).isWithin p = true :=
  isWithin_of_child (isWithin_self _)

/-- Above a place one level down are the place above it and what is above that. -/
theorem isWithin_of_child_isWithin (h : (p.child a).isWithin q = true) :
    q = p.child a ∨ p.isWithin q = true := by
  obtain ⟨hrooted, ⟨hup, hnames⟩ | ⟨hup, hnames⟩⟩ := isWithin_iff.1 h
  · rcases List.prefix_concat_iff.1 hnames with hnames | hnames
    · refine Or.inl ?_
      cases q
      simp_all [child]
    · exact Or.inr (isWithin_iff.2 ⟨hrooted, Or.inl ⟨hup, hnames⟩⟩)
  · exact Or.inr (isWithin_iff.2 ⟨hrooted, Or.inr ⟨hup, hnames⟩⟩)

/-- What lies at or below two places one level down lies apart. -/
theorem eq_of_isWithin_child (ha : q.isWithin (p.child a) = true)
    (hb : q.isWithin (p.child b) = true) : a = b := by
  obtain ⟨-, -, ha⟩ := isWithin_child_iff.1 ha
  obtain ⟨-, -, hb⟩ := isWithin_child_iff.1 hb
  have hsame := List.prefix_of_prefix_length_le ha hb (by simp)
  simpa using hsame.eq_of_length (by simp)

theorem child_inj (h : p.child a = p.child b) : a = b := by
  have hb : (p.child a).isWithin (p.child b) = true := by rw [h]; exact isWithin_self _
  exact eq_of_isWithin_child (isWithin_self _) hb

theorem isWithin_iff_isBelow : p.isWithin q = true ↔ p.isBelow q = true ∨ p = q := by
  rw [isBelow, Bool.and_eq_true, bne_iff_ne]
  refine ⟨fun h => ?_, fun h => ?_⟩
  · by_cases heq : p = q
    · exact Or.inr heq
    · exact Or.inl ⟨h, heq⟩
  · rcases h with h | rfl
    · exact h.1
    · exact isWithin_self p

/-! ## Names made of numbers -/

/-- The place of the file of that name in a directory. -/
def file (p : Place) (x : FileName) : Place := p.child (String.ofList x.chars)

theorem eq_of_isWithin_file {x y : FileName} (hx : q.isWithin (p.file x) = true)
    (hy : q.isWithin (p.file y) = true) : x = y :=
  FileName.chars_inj (String.ofList_inj.1 (eq_of_isWithin_child hx hy))

theorem ofPath_join_file (base : String) {name : String} {x : FileName}
    (hname : name.toList = x.chars) : ofPath (Path.join base name) = (ofPath base).file x := by
  have hup : name ≠ ".." := by
    rintro rfl
    obtain ⟨c, rest, hword⟩ := List.exists_cons_of_ne_nil x.word_ne
    have hdots : ['.', '.'] = c :: (rest ++ Text.separated '-' x.numbers ++ x.ending.toList) := by
      rw [FileName.chars, hword] at hname
      exact hname
    obtain rfl : '.' = c := (List.cons.inj hdots).1
    exact x.word_plain.2.1 (hword ▸ List.mem_cons_self)
  rw [ofPath_join base (hname ▸ x.isName) hup, file, ← hname, String.ofList_toList]

end Place

end Montage
