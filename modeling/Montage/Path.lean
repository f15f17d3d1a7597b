/-!
# Paths

Paths are texts with `/` between their components.  `join` puts a path below another one; `parent?`
takes the last component off.  Empty components count for nothing, nor does `.`, except at the very
start of a path that does not start at the root.
-/

namespace Montage.Path

/-- The path below a base.  A path that starts at the root stands for itself; an empty base adds
nothing; a base that ends in a slash gets no second one. -/
def join (base path : String) : String :=
  if path.toList.head? = some '/' then path
  else if base.isEmpty then path
  else if base.toList.getLast? = some '/' then base ++ path
  else base ++ "/" ++ path

/-- The reversed characters of a path without its last component and the slash before it. -/
def dropComponent (reversed : List Char) : List Char :=
  reversed.drop ((reversed.takeWhile (· != '/')).length + 1)

/-- The reversed characters of a path without the components at its end that count for nothing. -/
def dropNeutral (reversed : List Char) : List Char :=
  match reversed with
  | [] => []
  | c :: rest =>
    let component := (c :: rest).takeWhile (· != '/')
    if component = [] ∨ component = ['.'] then dropNeutral (dropComponent (c :: rest))
    else c :: rest
termination_by reversed.length
decreasing_by simp only [dropComponent, List.length_drop, List.length_cons]; omega

/-- A path's start, the root or a `.`, and what follows it. -/
def splitStart (cs : List Char) : List Char × List Char :=
  match cs with
  | '/' :: rest => (['/'], rest)
  | ['.'] => (['.'], [])
  | '.' :: '/' :: rest => (['.'], '/' :: rest)
  | _ => ([], cs)

/-- The path without its last component; the root and the empty path have none. -/
def parent? (path : String) : Option String :=
  let (start, body) := splitStart path.toList
  match dropNeutral body.reverse with
  | [] => if start = ['.'] then some "" else none
  | reversed => some (String.ofList (start ++ (dropNeutral (dropComponent reversed)).reverse))

theorem length_dropComponent_le (cs : List Char) : (dropComponent cs).length ≤ cs.length := by
  simp [dropComponent]

theorem length_dropNeutral_le (cs : List Char) : (dropNeutral cs).length ≤ cs.length := by
  fun_induction dropNeutral cs with
  | case1 => simp
  | case2 c rest _ _ ih => exact Nat.le_trans ih (length_dropComponent_le _)
  | case3 => simp

theorem append_splitStart (cs : List Char) : (splitStart cs).1 ++ (splitStart cs).2 = cs := by
  unfold splitStart
  split <;> simp

theorem length_parent?_lt {path parent : String} (h : parent? path = some parent) :
    parent.length < path.length := by
  have hsplit := congrArg List.length (append_splitStart path.toList)
  unfold parent? at h
  generalize splitStart path.toList = parts at h hsplit
  obtain ⟨start, body⟩ := parts
  simp only [List.length_append, String.length_toList] at hsplit
  simp only at h
  split at h
  · split at h
    · next hstart =>
      simp only [Option.some.injEq] at h
      subst h hstart
      simp only [List.length_cons, List.length_nil, String.length_empty] at hsplit ⊢
      omega
    · simp at h
  · next reversed hreversed =>
    simp only [Option.some.injEq] at h
    subst h
    have hle := length_dropNeutral_le body.reverse
    have hdrop := length_dropNeutral_le (dropComponent (dropNeutral body.reverse))
    have hpos : 0 < (dropNeutral body.reverse).length := List.length_pos_iff.2 hreversed
    have hlt : (dropComponent (dropNeutral body.reverse)).length <
        (dropNeutral body.reverse).length := by
      simp only [dropComponent, List.length_drop]
      omega
    simp only [List.length_reverse] at hle
    simp only [String.length_ofList, List.length_append, List.length_reverse]
    omega

end Montage.Path
