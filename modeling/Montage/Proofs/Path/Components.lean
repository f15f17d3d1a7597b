import Montage.Path
import Montage.Text.Split

/-!
# Components of paths

`Path.components` lists what counts in a path: the root or a leading `.`, then the names between
slashes.  Paths with the same components are the same path, and a path lies within another one if
its components go on where those of the other one end (`Path.Within`, and `Path.Inside` if they do
go on).  Joining a plain name to a path adds just that component (`components_join`).
-/

namespace Montage

theorem Text.splitWhere_eq_splitOnP (p : Char → Bool) (cs : List Char) :
    splitWhere p cs = cs.splitOnP p := by
  induction cs with
  | nil => exact List.splitOnP_nil.symm
  | cons c rest ih =>
    rw [List.splitOnP_cons_eq_if_modifyHead, splitWhere, ih]
    congr 1
    rcases hpieces : rest.splitOnP p with _ | ⟨piece, pieces⟩
    · exact absurd (ih.trans hpieces) (splitWhere_ne_nil p rest)
    · rfl

namespace Path

/-! ## Components -/

/-- The pieces between slashes that count: neither empty nor a `.`. -/
def names (body : List Char) : List (List Char) :=
  (Text.splitWhere (· == '/') body).filter fun piece => piece ≠ [] ∧ piece ≠ ['.']

/-- The components of a path: its start, if it has one, and its names. -/
def components (path : String) : List (List Char) :=
  let (start, body) := splitStart path.toList
  [start].filter (· ≠ []) ++ names body

-- Empty pieces and a `.` count only at the start of a path.
example : components "./a//b/./c/" = [['.'], ['a'], ['b'], ['c']] := by decide

/-- The inner path is the outer one or lies below it. -/
def Within (outer inner : String) : Prop := components outer <+: components inner

/-- The inner path lies below the outer one. -/
def Inside (outer inner : String) : Prop :=
  Within outer inner ∧ components outer ≠ components inner

/-- The text can stand as one component, wherever in a path. -/
structure IsName (name : List Char) : Prop where
  ne_nil : name ≠ []
  ne_dot : name ≠ ['.']
  no_slash : '/' ∉ name

theorem names_append_slash (before after : List Char) :
    names (before ++ '/' :: after) = names before ++ names after := by
  simp only [names, Text.splitWhere_eq_splitOnP]
  rw [List.splitOnP_append_cons _ _ (by rfl), List.filter_append]

theorem names_cons_slash (after : List Char) : names ('/' :: after) = names after :=
  names_append_slash [] after

theorem names_append_of_getLast? {before : List Char}
    (h : ∀ c, before.getLast? = some c → c = '/') (after : List Char) :
    names (before ++ after) = names before ++ names after := by
  rcases hlast : before.getLast? with _ | c
  · rw [List.getLast?_eq_none_iff.1 hlast]
    rfl
  · obtain rfl := h c hlast
    obtain ⟨init, rfl⟩ := List.getLast?_eq_some_iff.1 hlast
    rw [List.append_assoc, List.singleton_append, names_append_slash, names_append_slash]
    exact (congrArg (· ++ names after) (List.append_nil _)).symm

theorem names_of_isName {name : List Char} (h : IsName name) : names name = [name] := by
  have hsplit : Text.splitWhere (· == '/') name = [name] := by
    rw [Text.splitWhere_eq_splitOnP]
    exact List.splitOnP_eq_singleton fun c hc => beq_false_of_ne fun e => h.no_slash (e ▸ hc)
  rw [names, hsplit]
  simp [h.ne_nil, h.ne_dot]

/-! ## Joining -/

/-- What is appended to a path does not change its start. -/
theorem splitStart_append {cs tail : List Char} (hne : cs ≠ [])
    (hdot : cs = ['.'] → tail.head? = some '/') :
    splitStart (cs ++ tail) = ((splitStart cs).1, (splitStart cs).2 ++ tail) := by
  fun_cases splitStart cs with
  | case1 rest => rfl
  | case2 =>
    obtain ⟨rest, rfl⟩ := List.head?_eq_some_iff.1 (hdot rfl)
    rfl
  | case3 rest => rfl
  | case4 _ hroot hsingle hleading =>
    obtain ⟨c, rest, rfl⟩ := List.exists_cons_of_ne_nil hne
    refine splitStart.eq_4 _ (fun after e => ?_) (fun e => ?_) fun after e => ?_
    · cases e
      exact hroot rest rfl
    · obtain ⟨rfl, hnil⟩ := List.cons_eq_cons.1 e
      obtain ⟨rfl, -⟩ := List.append_eq_nil_iff.1 hnil
      exact hsingle rfl
    · obtain ⟨rfl, hslash⟩ := List.cons_eq_cons.1 e
      cases rest with
      | nil => exact hsingle rfl
      | cons d rest =>
        cases hslash
        exact hleading rest rfl

/-- What is appended to a path behind a slash adds its names. -/
theorem components_append {base tail : String} (hne : base.toList ≠ [])
    (h : tail.toList.head? = some '/' ∨ base.toList.getLast? = some '/') :
    components (base ++ tail) = components base ++ names tail.toList := by
  have hstart : splitStart (base.toList ++ tail.toList) =
      ((splitStart base.toList).1, (splitStart base.toList).2 ++ tail.toList) := by
    refine splitStart_append hne fun hdot => h.resolve_right ?_
    rw [hdot]
    decide
  have hnames : names ((splitStart base.toList).2 ++ tail.toList) =
      names (splitStart base.toList).2 ++ names tail.toList := by
    rcases h with hhead | hlast
    · obtain ⟨after, hafter⟩ := List.head?_eq_some_iff.1 hhead
      rw [hafter, names_append_slash, names_cons_slash]
    · refine names_append_of_getLast? (fun c hc => ?_) _
      rw [← append_splitStart base.toList, List.getLast?_append, hc] at hlast
      exact Option.some.inj hlast
  simp only [components, String.toList_append, hstart, hnames, List.append_assoc]

theorem components_of_isName {name : String} (h : IsName name.toList) :
    components name = [name.toList] := by
  have hstart : splitStart name.toList = ([], name.toList) :=
    splitStart.eq_4 _ (fun _ e => h.no_slash (by simp [e])) h.ne_dot
      fun _ e => h.no_slash (by simp [e])
  simp only [components, hstart, names_of_isName h]
  rfl

/-- A name that is joined to a path is one more component. -/
theorem components_join (base : String) {name : String} (h : IsName name.toList) :
    components (join base name) = components base ++ [name.toList] := by
  have hhead : ¬ name.toList.head? = some '/' := fun e => h.no_slash (List.mem_of_mem_head? e)
  rw [join, if_neg hhead]
  by_cases hempty : base.isEmpty = true
  · obtain rfl := String.isEmpty_iff.1 hempty
    rw [if_pos hempty, components_of_isName h]
    rfl
  have hne : base.toList ≠ [] := by simpa using hempty
  rw [if_neg hempty]
  split
  · next hlast => rw [components_append hne (Or.inr hlast), names_of_isName h]
  · have hslash : ("/" ++ name).toList = '/' :: name.toList := by simp
    rw [String.append_assoc, components_append hne (Or.inl (by rw [hslash]; rfl)), hslash,
      names_cons_slash, names_of_isName h]

end Path

end Montage
